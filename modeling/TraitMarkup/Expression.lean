import TraitMarkup.Text.Quoted
import TraitMarkup.Word

/-! # Expressions

What the tokens of a line mean: attributes, traits of objects, integers, other text, operators, and
the colon that ends a tag. -/

namespace TraitMarkup

/-- Brackets count as operators of arithmetic. -/
inductive Arithmetic where
  | leftBracket | rightBracket | div | mult | sub | add | mod
  deriving DecidableEq

namespace Arithmetic

def all : List Arithmetic := [.leftBracket, .rightBracket, .div, .mult, .sub, .add, .mod]

/-- The name under which an operator is reported. -/
def name : Arithmetic → String
  | .leftBracket => "OPEN_BRACKET"
  | .rightBracket => "CLOSE_BRACKET"
  | .div => "DIV"
  | .mult => "MULT"
  | .sub => "SUB"
  | .add => "ADD"
  | .mod => "MOD"

def spelling : Arithmetic → String
  | .leftBracket => "["
  | .rightBracket => "]"
  | .div => "/"
  | .mult => "*"
  | .sub => "-"
  | .add => "+"
  | .mod => "%"

end Arithmetic

inductive Relational where
  | equal | greater | greaterEqual | less | lessEqual | notEqual
  deriving DecidableEq

namespace Relational

def all : List Relational := [.equal, .greater, .greaterEqual, .less, .lessEqual, .notEqual]

/-- The name under which an operator is reported. -/
def name : Relational → String
  | .equal => "EQUAL_TO"
  | .greater => "GREATER_THAN"
  | .greaterEqual => "GREATER_THAN_EQUAL"
  | .less => "LESS_THAN"
  | .lessEqual => "LESS_THAN_EQUAL"
  | .notEqual => "NOT_EQUAL"

def spelling : Relational → String
  | .equal => "=="
  | .greater => ">"
  | .greaterEqual => ">="
  | .less => "<"
  | .lessEqual => "<="
  | .notEqual => "!="

/-- The name of the operator's tag. -/
def tag : Relational → String
  | .equal => "et"
  | .greater => "gt"
  | .greaterEqual => "gte"
  | .less => "lt"
  | .lessEqual => "lte"
  | .notEqual => "ne"

end Relational

/-- How the object of a trait is named: by itself, or by a selector, which may have an argument. -/
inductive Access where
  | direct
  | selector (argument : Option String)
  deriving DecidableEq

def Access.argument : Access → Option String
  | .direct => none
  | .selector argument => argument

def Access.isSelector : Access → Bool
  | .direct => false
  | .selector _ => true

/-- The access with the given parts; only a selector has an argument. -/
def Access.of (argument : Option String) (selector : Bool) : Access :=
  if selector || argument.isSome then .selector argument else .direct

inductive Expression where
  | attr (key value : String)
  | trait (object : String) (access : Access) (name : String)
  | int (value : UInt16)
  | raw (text : String)
  | arithmetic (op : Arithmetic)
  | relational (op : Relational)
  | colon
  deriving DecidableEq

namespace Expression

/-- The integer is negative or has more than sixteen bits. -/
structure IntFault where
  value : Int
  deriving DecidableEq

def IntFault.message (f : IntFault) : String :=
  s!"Int expressions hold 0..65535, got {f.value}"

/-- The expression of an integer of sixteen bits without a sign. -/
def ofInt (value : Int) : Except IntFault Expression :=
  if 0 ≤ value ∧ value ≤ 65535 then .ok (.int (UInt16.ofNat value.toNat)) else .error ⟨value⟩

/-- The expression as it is written: an attribute's value in double quotes, all other text as it
is. -/
def text : Expression → String
  | .attr key value => key ++ "=" ++ Word.quote value
  | .trait object .direct name => object ++ "." ++ name
  | .trait object (.selector none) name => "$" ++ object ++ "." ++ name
  | .trait object (.selector (some argument)) name =>
    "$" ++ object ++ "<" ++ argument ++ ">." ++ name
  | .int value => toString value.toNat
  | .raw text => text
  | .arithmetic op => op.spelling
  | .relational op => op.spelling
  | .colon => ":"

/-- The form in log records. -/
def details : Expression → String
  | .attr key value => s!"Attribute(key={Text.quoted key}, val={Text.quoted value})"
  | .trait object access name =>
    let argument := match access.argument with | some s => Text.quoted s | none => "None"
    let selector := if access.isSelector then "True" else "False"
    s!"TraitTag(src={Text.quoted object}, arg={argument}, trait={Text.quoted name}" ++
      s!", selector={selector})"
  | .int value => s!"Int(value={value.toNat})"
  | .raw text => s!"Raw(text={Text.quoted text})"
  | .arithmetic op =>
    s!"Arithmetic(op=<ArithmeticOperator.{op.name}: {Text.quoted op.spelling}>)"
  | .relational op =>
    s!"Relational(op=<RelationalOperator.{op.name}: {Text.quoted op.spelling}>)"
  | .colon => "Colon()"

end Expression

end TraitMarkup
