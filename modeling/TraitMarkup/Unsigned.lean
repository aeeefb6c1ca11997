import TraitMarkup.Expression
import TraitMarkup.Text.Blank

/-! # Integers in words

A bare word that spells an integer of sixteen bits without a sign is that integer. It is spelled with
the digits `0` to `9`, perhaps after a plus sign, and blanks around it do not count. -/

namespace TraitMarkup.Unsigned

/-- A spelling with more digits than this is not read at all. -/
def maxDigits : Nat := 4300

/-- There are too many digits. -/
structure TooLong where
  digits : Nat
  deriving DecidableEq

def TooLong.message (e : TooLong) : String :=
  s!"Exceeds the limit ({maxDigits} digits) for integer string conversion: " ++
    s!"value has {e.digits} digits; use sys.set_int_max_str_digits() to increase the limit"

/-- The digits of a spelling, blanks and the plus sign left off. -/
def digits? (cs : List Char) : Option (List Char) :=
  let digits := match Text.trim cs with | '+' :: ds => ds | ds => ds
  if digits ≠ [] ∧ digits.all Char.isDigit then some digits else none

/-- The number that digits spell. -/
def valueOf (digits : List Char) : Nat :=
  digits.foldl (fun n c => 10 * n + (c.toNat - '0'.toNat)) 0

/-- The integer that a text spells, if it spells one of sixteen bits. -/
def read (text : String) : Except TooLong (Option UInt16) :=
  match digits? text.toList with
  | none => .ok none
  | some digits =>
    if maxDigits < digits.length then .error ⟨digits.length⟩
    else if valueOf digits ≤ 65535 then .ok (some (UInt16.ofNat (valueOf digits)))
    else .ok none

/-- What a bare word means: an integer if it spells one, otherwise itself. -/
def expression (text : String) : Except TooLong Expression :=
  (read text).map fun
    | some value => .int value
    | none => .raw text

end TraitMarkup.Unsigned
