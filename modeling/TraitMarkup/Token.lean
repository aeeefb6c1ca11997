import TraitMarkup.Location
import TraitMarkup.Number.Format
import TraitMarkup.Symbol
import TraitMarkup.Word

/-! # Tokens

A token is a word, a symbol, or a marker that opens or closes a block. It knows how it was written
and where, but what it is lies in its body alone. -/

namespace TraitMarkup

/-- The start or the end of a block. -/
inductive Marker where
  | indent | dedent
  deriving DecidableEq

/-- The name under which a marker is reported. -/
def Marker.name : Marker → String
  | .indent => "INDENT"
  | .dedent => "DEDENT"

namespace Token

/-- What a token carries beside its kind. -/
inductive Payload where
  | none
  | text (s : String)
  | number (x : Number)
  deriving DecidableEq

/-- Whether two payloads are the same, numbers compared by value. -/
def Payload.agrees : Payload → Payload → Bool
  | .none, .none => true
  | .text s, .text t => s == t
  | .number x, .number y => x.equal y
  | _, _ => false

/-- The kinds of tokens. -/
inductive Kind where
  | marker (m : Marker)
  | symbol (s : Symbol)
  | string
  | identifier
  | number
  deriving DecidableEq

namespace Kind

/-- All kinds, in the order in which they are listed and numbered. -/
def all : List Kind :=
  [.marker .indent, .marker .dedent] ++ Symbol.all.map .symbol ++ [.string, .identifier, .number]

/-- The name under which a kind is reported. -/
def name : Kind → String
  | .marker m => m.name
  | .symbol s => s.name
  | .string => "STRING_LITERAL"
  | .identifier => "IDENTIFIER"
  | .number => "NUMBER"

/-- The kind of a given name. -/
def ofName? (s : String) : Option Kind := all.find? (·.name == s)

/-- The one spelling of a kind of tokens that are all written alike. -/
def spelling? : Kind → Option String
  | .symbol s => some s.spelling
  | _ => none

end Kind

/-- What a token is. The scanner gives nothing to markers and symbols to carry; tokens made by hand
may carry anything there. -/
inductive Body where
  | marker (m : Marker) (carried : Payload)
  | symbol (s : Symbol) (carried : Payload)
  | string (text : String)
  | identifier (text : String)
  | number (value : Number)
  deriving DecidableEq

namespace Body

def kind : Body → Kind
  | .marker m _ => .marker m
  | .symbol s _ => .symbol s
  | .string _ => .string
  | .identifier _ => .identifier
  | .number _ => .number

def payload : Body → Payload
  | .marker _ p => p
  | .symbol _ p => p
  | .string s => .text s
  | .identifier s => .text s
  | .number x => .number x

/-- The body of a given kind and payload, if the kind can carry it. -/
def of? : Kind → Payload → Option Body
  | .marker m, p => some (.marker m p)
  | .symbol s, p => some (.symbol s p)
  | .string, .text s => some (.string s)
  | .identifier, .text s => some (.identifier s)
  | .number, .number x => some (.number x)
  | _, _ => none

/-- How a token made by hand is taken to be written: by its kind's spelling, or by its payload. -/
def defaultLexeme : Body → String
  | .symbol s _ => s.spelling
  | .number x => x.text
  | .string s => s
  | .identifier s => s
  | .marker _ .none => ""
  | .marker _ (.text s) => s
  | .marker _ (.number x) => x.decimalText

end Body

end Token

/-- A token, how it was written and where. -/
structure Token where
  body : Token.Body
  lexeme : String
  location : Location
  deriving DecidableEq

namespace Token

/-- A token made by hand. -/
def make (body : Body) (lexeme : Option String) (location : Location) : Token :=
  ⟨body, lexeme.getD body.defaultLexeme, location⟩

/-- The marker at a place. It is written with no characters. -/
def ofMarker (location : Location) (m : Marker) : Token := ⟨.marker m .none, "", location⟩

def kind (t : Token) : Kind := t.body.kind

def payload (t : Token) : Payload := t.body.payload

/-- Whether two tokens are of one kind with the same payload, however and wherever written. -/
def agrees (t u : Token) : Bool := t.kind == u.kind && t.payload.agrees u.payload

/-- Whether the token is a marker. -/
def isMarker (t : Token) : Bool :=
  match t.body with
  | .marker .. => true
  | _ => false

/-- Whether the token is the given symbol. -/
def isSymbol (s : Symbol) (t : Token) : Bool := t.kind == .symbol s

/-- The text of an identifier. -/
def name? (t : Token) : Option String :=
  match t.body with
  | .identifier s => some s
  | _ => none

/-- The text of a word, that is, of an identifier, a literal or a number; a number's is the way it
was written. -/
def word? (t : Token) : Option String :=
  match t.body with
  | .identifier s | .string s => some s
  | .number _ => some t.lexeme
  | _ => none

/-- Whether the token is a word. -/
def isWord (t : Token) : Bool := t.word?.isSome

/-- The token as it is written back: names with escapes where they need them, literals in double
quotes, all else as it was written. -/
def text (t : Token) : String :=
  match t.body with
  | .marker .. => ""
  | .string s => Word.quote s
  | .identifier s => Word.escape s
  | .symbol .. | .number _ => t.lexeme

/-- The form of a payload in log records. -/
def Payload.details : Payload → Option String
  | .none => Option.none
  | .text s => some (Text.quoted s)
  | .number x => some x.decimalText

/-- The form of a token in log records. -/
def details (t : Token) : String :=
  match t.payload.details with
  | some p => s!"Token({t.kind.name}, {p})"
  | none => s!"Token({t.kind.name})"

end Token

end TraitMarkup
