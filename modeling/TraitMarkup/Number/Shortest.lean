import TraitMarkup.Number.Basic

/-! # Shortest decimals

Of the decimals that are read back as a given number, the shortest is the one with the fewest
digits, and of several equally short ones the one nearest to the number, a tie going to the even
last digit. They are found by testing the two neighbours of the number on the grids of one, two,
three and more digits. -/

namespace TraitMarkup.Number

/-- A decimal `digits * 10 ^ exponent`. -/
structure Decimal where
  digits : Nat
  exponent : Int
  deriving DecidableEq

/-- A fraction of natural numbers and the bounds between which decimals are read back as it, all
over one denominator. The bounds themselves belong to it if `closed`. -/
structure Interval where
  value : Nat
  low : Nat
  high : Nat
  denominator : Nat
  closed : Bool

/-- The interval that is read back as `mantissa * 2 ^ exponent`. Below a power of two the
neighbours are half as far apart as above it. -/
def Interval.of (mantissa : Nat) (exponent : Int) : Interval :=
  let (n, d) := fraction mantissa exponent
  -- a quarter of the distance to the next value is the unit
  let unit := if 0 ≤ exponent then 1 <<< exponent.toNat else 1
  let narrow := mantissa = 1 <<< (precision - 1) ∧ minExponent < exponent
  { value := 4 * n
    low := 4 * n - (if narrow then unit else 2 * unit)
    high := 4 * n + 2 * unit
    denominator := 4 * d
    closed := mantissa % 2 = 0 }

/-- Whether `n / d`, given over the interval's denominator times `d`, is read back. -/
def Interval.has (i : Interval) (n d : Nat) : Bool :=
  let n := n * i.denominator
  if i.closed then i.low * d ≤ n && n ≤ i.high * d else i.low * d < n && n < i.high * d

/-- The power of ten just above `n / d`, that is, the place of the decimal point before its first
digit. -/
def pointOf (n d : Nat) : Int :=
  if d ≤ n then (Nat.toDigits 10 (n / d)).length
  else
    let size := (Nat.toDigits 10 (d / n)).length
    if d ≤ n * Nat.pow 10 (size - 1) then 2 - (size : Int) else 1 - (size : Int)

/-- The best decimal of at most `places` digits among the two neighbours of the interval's value, if
one of them is read back. -/
def Interval.candidate? (i : Interval) (places : Nat) : Option Decimal :=
  let exponent := pointOf i.value i.denominator - places
  -- the grid's unit is `up / down`
  let (up, down) :=
    if 0 ≤ exponent then (Nat.pow 10 exponent.toNat, 1) else (1, Nat.pow 10 (-exponent).toNat)
  let below := i.value * down / (i.denominator * up)
  let rest := 2 * (i.value * down % (i.denominator * up))
  let nearBelow := rest < i.denominator * up ∨ rest = i.denominator * up ∧ below % 2 = 0
  match i.has (below * up) down, i.has ((below + 1) * up) down with
  | true, true => some ⟨if nearBelow then below else below + 1, exponent⟩
  | true, false => some ⟨below, exponent⟩
  | false, true => some ⟨below + 1, exponent⟩
  | false, false => none

/-- The shortest decimal that is read back as `mantissa * 2 ^ exponent`; seventeen digits always
suffice. -/
def shortest (mantissa : Nat) (exponent : Int) : Decimal :=
  let interval := Interval.of mantissa exponent
  ((List.range 17).findSome? fun n => interval.candidate? (n + 1)).getD ⟨0, 0⟩

end TraitMarkup.Number
