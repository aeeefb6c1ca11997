import TraitMarkup.Scan.Error
import TraitMarkup.Token

/-! # Indentation

The block structure of a text comes from the indents of its lines. The first indent that is not
empty fixes the blank in use and the width of a step. Every later one has to consist of that blank
only and to be a whole number of steps wide. -/

namespace TraitMarkup

/-- The width of the last indent, and the blank and the step once they are fixed. -/
structure Indentation where
  level : Nat
  blank : Option Char
  step : Option Nat
  deriving DecidableEq

namespace Indentation

/-- The state before the first line. -/
def fresh : Indentation := ⟨0, none, none⟩

/-- The markers that lead from one width to another. -/
def markers (step old new : Nat) : List Marker :=
  if old < new then List.replicate ((new - old) / step) .indent
  else List.replicate ((old - new) / step) .dedent

/-- Takes the indent of a line: the markers before the line, or why the indent is refused, and the
state afterwards. A refused indent may have fixed the blank; the level stays. -/
def measure (t : Indentation) (indent : List Char) :
    Except ScanError.Cause (List Marker) × Indentation :=
  match indent with
  | [] => (.ok (markers (t.step.getD 1) t.level 0), { t with level := 0 })
  | c :: _ =>
    let blank := t.blank.getD c
    let step := t.step.getD indent.length
    if indent.any (· != blank) then (.error .mixedIndent, { t with blank := some blank })
    else if indent.length % step ≠ 0 then
      (.error (.unevenIndent indent.length step), { t with blank := some blank })
    else (.ok (markers step t.level indent.length), ⟨indent.length, some blank, some step⟩)

/-- Closes all open blocks. The blank and the step stay fixed. -/
def close (t : Indentation) : List Marker × Indentation :=
  (markers (t.step.getD 1) t.level 0, { t with level := 0 })

end Indentation

end TraitMarkup
