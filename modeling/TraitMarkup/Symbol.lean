/-! # Symbols

The operators and punctuation marks. Most are one character; `=`, `<`, `>` and `!` join with an equals
sign after them into a symbol of two. -/

namespace TraitMarkup

inductive Symbol where
  | dollar | colon | period | bang
  | leftBracket | rightBracket | slash | asterisk | minus | plus | percent
  | equals | leftAngle | rightAngle
  | equalTo | atMost | atLeast | notEqual
  deriving DecidableEq

namespace Symbol

def all : List Symbol :=
  [.dollar, .colon, .period, .bang, .leftBracket, .rightBracket, .slash, .asterisk, .minus, .plus,
   .percent, .equals, .leftAngle, .rightAngle, .equalTo, .atMost, .atLeast, .notEqual]

/-- The name under which a symbol is reported. -/
def name : Symbol → String
  | .dollar => "DOLLAR"
  | .colon => "COLON"
  | .period => "PERIOD"
  | .bang => "BANG"
  | .leftBracket => "LEFT_BRACKET"
  | .rightBracket => "RIGHT_BRACKET"
  | .slash => "SLASH"
  | .asterisk => "ASTERISK"
  | .minus => "MINUS"
  | .plus => "PLUS"
  | .percent => "MOD"
  | .equals => "EQUALS_SIGN"
  | .leftAngle => "LEFT_ANGLE"
  | .rightAngle => "RIGHT_ANGLE"
  | .equalTo => "EQUAL_TO"
  | .atMost => "LESS_THAN_EQUAL"
  | .atLeast => "GREATER_THAN_EQUAL"
  | .notEqual => "NOT_EQUAL"

/-- The characters of a symbol. -/
def chars : Symbol → List Char
  | .dollar => ['$']
  | .colon => [':']
  | .period => ['.']
  | .bang => ['!']
  | .leftBracket => ['[']
  | .rightBracket => [']']
  | .slash => ['/']
  | .asterisk => ['*']
  | .minus => ['-']
  | .plus => ['+']
  | .percent => ['%']
  | .equals => ['=']
  | .leftAngle => ['<']
  | .rightAngle => ['>']
  | .equalTo => ['=', '=']
  | .atMost => ['<', '=']
  | .atLeast => ['>', '=']
  | .notEqual => ['!', '=']

/-- A symbol as it is written. -/
def spelling (s : Symbol) : String := String.ofList s.chars

/-- The symbol of one character. -/
def ofChar? : Char → Option Symbol
  | '$' => some .dollar
  | ':' => some .colon
  | '.' => some .period
  | '!' => some .bang
  | '[' => some .leftBracket
  | ']' => some .rightBracket
  | '/' => some .slash
  | '*' => some .asterisk
  | '-' => some .minus
  | '+' => some .plus
  | '%' => some .percent
  | '=' => some .equals
  | '<' => some .leftAngle
  | '>' => some .rightAngle
  | _ => none

/-- The symbol that a symbol and an equals sign right after it make together. -/
def withEquals? : Symbol → Option Symbol
  | .equals => some .equalTo
  | .leftAngle => some .atMost
  | .rightAngle => some .atLeast
  | .bang => some .notEqual
  | _ => none

end Symbol

end TraitMarkup
