import TraitMarkup.Diagnostic
import TraitMarkup.Token

/-! # Reduction errors

Why tokens do not form expressions. Each error points at a token. -/

namespace TraitMarkup

namespace ReduceError

/-- What is wrong at a token. -/
inductive Cause where
  /-- Something else was expected in its place. -/
  | invalid (expected : String)
  /-- It is the last token and something was expected after it. -/
  | endsEarly (expected : String)
  /-- It has no form as an expression. -/
  | unsupported
  /-- It is reserved. -/
  | reserved
  /-- A cause in the caller's words. -/
  | described (message : String) (help : Option String) (suggestions : Option (List String))
  deriving DecidableEq

/-- The families of reduction errors that have a code, with their titles. -/
def titles : List (String × String) :=
  [("R001", "Invalid token"), ("R002", "Unexpected last token"), ("R003", "Token not supported"),
   ("R004", "Token not yet implemented")]

/-- The name of the family. -/
def Cause.name : Cause → String
  | .invalid _ => "InvalidToken"
  | .endsEarly _ => "UnexpectedLastToken"
  | .unsupported => "NotSupported"
  | .reserved => "NotYetImplemented"
  | .described .. => "ReduceError"

/-- The code of the family. -/
def Cause.code : Cause → String
  | .invalid _ => "R001"
  | .endsEarly _ => "R002"
  | .unsupported => "R003"
  | .reserved => "R004"
  | .described .. => "R000"

end ReduceError

/-- A cause and the token at which it shows. -/
structure ReduceError where
  cause : ReduceError.Cause
  token : Token
  deriving DecidableEq

namespace ReduceError

def message (e : ReduceError) : String :=
  match e.cause with
  | .invalid expected => s!"'{e.token.text}' ({expected})"
  | .endsEarly expected => s!"line ends at '{e.token.text}' ({expected})"
  | .unsupported => s!"{e.token.kind.name} cannot be reduced to an expression"
  | .reserved => s!"'{e.token.text}' is reserved and not yet implemented"
  | .described message _ _ => message

def help (e : ReduceError) : Option String :=
  match e.cause with
  | .invalid expected | .endsEarly expected => some expected
  | .unsupported | .reserved => none
  | .described _ help _ => help

/-- A literal or a number in the wrong place may be meant as a bare word; a line that ends early
wants to be finished. -/
def suggestions (e : ReduceError) : Option (List String) :=
  match e.cause with
  | .invalid _ =>
    if e.token.isWord ∧ e.token.kind ≠ .identifier then
      some [s!"Write {e.token.lexeme} as a bare word, escaping special characters with '\\'"]
    else none
  | .endsEarly expected => some [s!"Finish the line: {expected}"]
  | .unsupported | .reserved => none
  | .described _ _ suggestions => suggestions

/-- The one-line form. -/
def text (e : ReduceError) : String := s!"{e.cause.name}: {e.message}"

/-- The form in log records. -/
def details (e : ReduceError) : String := s!"{e.cause.name}({Text.quoted e.message})"

def diagnostic (e : ReduceError) : Diagnostic where
  message := e.message
  location := e.token.location
  severity := "error"
  code := some e.cause.code
  help := e.help
  suggestions := e.suggestions

end ReduceError

end TraitMarkup
