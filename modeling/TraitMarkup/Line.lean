/-! # Lines

A line is the width of its indent and what stands on it, which is never nothing. -/

namespace TraitMarkup

structure Line (α : Type) where
  indent : Nat
  members : List α
  nonempty : members ≠ []

namespace Line

variable {α : Type}

/-- Why there is no such line. -/
inductive Fault where
  | negativeIndent
  | empty
  deriving DecidableEq

def Fault.message : Fault → String
  | .negativeIndent => "leading_whitespace cannot be negative"
  | .empty => "a line must hold at least one member"

/-- The line with a given indent and members. -/
def of (indent : Int) (members : List α) : Except Fault (Line α) :=
  if indent < 0 then .error .negativeIndent
  else if h : members = [] then .error .empty
  else .ok ⟨indent.toNat, members, h⟩

/-- The text of members one space apart. -/
def join (text : α → String) (members : List α) : String :=
  String.intercalate " " (members.map text)

/-- The text of a line: its indent in spaces, then its members one space apart. -/
def text (text : α → String) (l : Line α) : String :=
  String.ofList (List.replicate l.indent ' ') ++ join text l.members

end Line

end TraitMarkup
