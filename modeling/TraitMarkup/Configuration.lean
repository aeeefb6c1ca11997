import TraitMarkup.Text.Blank

/-! # Configuration

What scanning, rendering and the command line share. -/

namespace TraitMarkup

/-- The indent of one level: some blank, repeated. -/
structure IndentUnit where
  blank : Char
  width : Nat
  isBlank : Text.isBlank blank
  width_pos : 0 < width

namespace IndentUnit

/-- Why a text is no indent. -/
inductive Fault where
  /-- It is empty, or not all of it is blank. -/
  | notBlank
  /-- It has more than one kind of blank. -/
  | mixed
  deriving DecidableEq

def Fault.message : Fault → String
  | .notBlank => "indent_unit must be a non-empty run of whitespace"
  | .mixed => "indent_unit must use a single whitespace character"

/-- The indent that a text is. -/
def ofString (s : String) : Except Fault IndentUnit :=
  match s.toList with
  | [] => .error .notBlank
  | c :: cs =>
    if h : Text.isBlank c ∧ cs.all Text.isBlank then
      if cs.all (· == c) then .ok ⟨c, cs.length + 1, h.1, Nat.succ_pos _⟩ else .error .mixed
    else .error .notBlank

def text (u : IndentUnit) : String := String.ofList (List.replicate u.width u.blank)

/-- Four spaces. -/
def default : IndentUnit := ⟨' ', 4, by decide, by decide⟩

end IndentUnit

structure Configuration where
  /-- The name of the file in locations. -/
  file : String
  indentUnit : IndentUnit
  /-- Whether tokens, expressions and errors are recorded. -/
  debug : Bool

namespace Configuration

/-- The configuration for text that comes from no file. -/
def default : Configuration := ⟨"<string>", .default, false⟩

/-- The configuration with the given parts in place of the default ones. -/
def of (file indentUnit : Option String) (debug : Option Bool) :
    Except IndentUnit.Fault Configuration := do
  let unit ←
    match indentUnit with
    | some s => IndentUnit.ofString s
    | none => .ok .default
  return ⟨file.getD default.file, unit, debug.getD default.debug⟩

/-- Whether the value of the environment variable `NOX_DEBUG` asks for debugging: it is set, and to
something else than nothing or a word for no. The words are of ASCII letters, and no other
characters have these letters as their lower case. -/
def debugFlag (value : Option String) : Bool :=
  let word := (Text.trim (value.getD "").toList).map Char.toLower
  not (["", "0", "false", "no"].contains (String.ofList word))

end Configuration

end TraitMarkup
