import TraitMarkup.Diagnostic
import TraitMarkup.Text.Printable

/-! # Scan errors

Why a text cannot be cut into tokens, and what there is to say about it. -/

namespace TraitMarkup

namespace ScanError

/-- Why scanning stops. -/
inductive Cause where
  /-- There are only blanks and comments. -/
  | noTokens
  /-- An indent has more than one kind of blank. -/
  | mixedIndent
  /-- An indent is not a whole number of steps. -/
  | unevenIndent (width step : Nat)
  /-- There is nothing after a backslash. -/
  | danglingEscape
  /-- The text ends inside a literal, of which `content` has been read. -/
  | unterminated (quote : Char) (content : String)
  /-- Nothing starts with this character. -/
  | invalidCharacter (c : Char)
  /-- A cause in the caller's words. -/
  | described (message : String) (help : Option String) (suggestions : Option (List String))
  deriving DecidableEq

/-- What to write in place of characters that are often typed or pasted by mistake. -/
def alternatives : Char → List String
  | '≠' => ["!="]
  | '≤' => ["<="]
  | '≥' => [">="]
  | '×' => ["*"]
  | '÷' => ["/"]
  | '−' => ["-"]
  | '“' | '”' => ["\""]
  | '‘' | '’' => ["'"]
  | '\x7b' | '(' => ["["]
  | '\x7d' | ')' => ["]"]
  | ';' => [":"]
  | ',' => [" "]
  | _ => []

/-- The families of scan errors that have a code, with their titles. -/
def titles : List (String × String) :=
  [("L001", "No tokens present"), ("L002", "Inconsistent leading whitespace"),
   ("L003", "Unexpected end of line"), ("L004", "Unterminated string literal"),
   ("L005", "Invalid character")]

namespace Cause

/-- The name of the family. -/
def name : Cause → String
  | .noTokens => "NoTokensPresent"
  | .mixedIndent | .unevenIndent .. => "InconsistentWhitespace"
  | .danglingEscape => "UnexpectedEndOfLine"
  | .unterminated .. => "UnterminatedStringLiteral"
  | .invalidCharacter _ => "InvalidCharacter"
  | .described .. => "LexerError"

/-- The code of the family. -/
def code : Cause → String
  | .noTokens => "L001"
  | .mixedIndent | .unevenIndent .. => "L002"
  | .danglingEscape => "L003"
  | .unterminated .. => "L004"
  | .invalidCharacter _ => "L005"
  | .described .. => "L000"

def message : Cause → String
  | .noTokens => "no tokens present"
  | .mixedIndent => "inconsistent leading whitespace characters"
  | .unevenIndent .. => "inconsistent leading whitespace count"
  | .danglingEscape => "char after backslash"
  | .unterminated _ content => content
  | .invalidCharacter c => c.toString
  | .described message _ _ => message

/-- The code point of a character as it is cited: in base sixteen, with at least four digits. -/
def codePoint (c : Char) : String :=
  "U+" ++ String.ofList ((Text.hex 4 c.toNat).map Char.toUpper)

def help : Cause → Option String
  | .noTokens => none
  | .mixedIndent => some "Indent with either tabs or spaces throughout the file."
  | .unevenIndent width step =>
    some s!"Indentation of {width} is not a multiple of the first indent ({step})."
  | .danglingEscape =>
    some "A backslash escapes the next character; write '\\\\' for a literal backslash."
  | .unterminated quote _ => some s!"String literals must be closed with a matching {quote} quote."
  | .invalidCharacter c =>
    match alternatives c with
    | [] =>
      if Text.isPrintable c then some s!"The character '{c}' is not valid in nox source."
      else some s!"Non-printable character (Unicode: {codePoint c}) is not allowed."
    | items => some ("Did you mean " ++ String.intercalate " or " (items.map Text.quoted) ++ "?")
  | .described _ help _ => help

def suggestions : Cause → Option (List String)
  | .noTokens | .mixedIndent | .unevenIndent .. | .danglingEscape => none
  | .unterminated quote _ =>
    some [s!"Add a closing {quote} quote", "Check for unescaped quotes in the string"]
  | .invalidCharacter c => some (alternatives c)
  | .described _ _ suggestions => suggestions

/-- The one-line form: the family, and the message where it says more than the family does. -/
def text (c : Cause) : String :=
  match c with
  | .noTokens | .mixedIndent | .unevenIndent .. => c.name
  | _ => s!"{c.name}: {c.message}"

end Cause

end ScanError

/-- A cause and its place. -/
structure ScanError where
  cause : ScanError.Cause
  location : Location
  deriving DecidableEq

namespace ScanError

/-- The one-line form. -/
def text (e : ScanError) : String := e.cause.text

/-- The form in log records. -/
def details (e : ScanError) : String := s!"{e.cause.name}({Text.quoted e.cause.message})"

def diagnostic (e : ScanError) : Diagnostic where
  message := e.cause.message
  location := e.location
  severity := "error"
  code := some e.cause.code
  help := e.cause.help
  suggestions := e.cause.suggestions

end ScanError

end TraitMarkup
