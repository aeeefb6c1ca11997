import TraitMarkup.Number.Basic
import TraitMarkup.Text.Numeral

/-! # Reading numbers

A decimal is read as the nearest binary64 value, the one with the even mantissa if two are equally
near. Digits of every script count by their value. -/

namespace TraitMarkup.Number

/-- The integer nearest to `n / d`, the even one if two are equally near. -/
def roundDiv (n d : Nat) : Nat :=
  let q := n / d
  let r := 2 * (n % d)
  if r < d ∨ r = d ∧ q % 2 = 0 then q else q + 1

/-- The exponent of the mantissa's last digit for the value `n / d`, before rounding. -/
def exponentFor (n d : Nat) : Int :=
  let b : Int := (n.log2 : Int) - d.log2
  -- the value lies between `2 ^ (b - 1)` and `2 ^ (b + 1)`
  let reached := if 0 ≤ b then d <<< b.toNat ≤ n else d ≤ n <<< (-b).toNat
  max ((if reached then b else b - 1) - (precision - 1)) minExponent

/-- The value nearest to `± n / d`. -/
def ofFraction (negative : Bool) (n d : Nat) : Number :=
  if n = 0 then .finite negative 0 minExponent
  else
    let e := exponentFor n d
    let m := if 0 ≤ e then roundDiv n (d <<< e.toNat) else roundDiv (n <<< (-e).toNat) d
    let (m, e) := if m = 1 <<< precision then (1 <<< (precision - 1), e + 1) else (m, e)
    if maxExponent < e then .infinite negative else .finite negative m e

/-- The value nearest to `± digits * 10 ^ exponent`. Decimals far outside the range are settled by
their number of digits. -/
def ofDecimal (negative : Bool) (digits : Nat) (exponent : Int) : Number :=
  let size : Int := exponent + (Nat.toDigits 10 digits).length
  if digits = 0 ∨ size < -400 then .finite negative 0 minExponent
  else if 400 < size then .infinite negative
  else if 0 ≤ exponent then ofFraction negative (digits * Nat.pow 10 exponent.toNat) 1
  else ofFraction negative digits (Nat.pow 10 (-exponent).toNat)

/-- The natural number that a run of decimal digits stands for; other characters count as zero. -/
def ofDigits (cs : List Char) : Nat :=
  cs.foldl (fun n c => 10 * n + (Text.decimalValue? c).getD 0) 0

/-- Reads `digits` or `digits.digits`, where either run of digits may be empty. -/
def ofNumeral (cs : List Char) : Number :=
  let whole := cs.takeWhile Text.isDecimal
  let part := (cs.drop (whole.length + 1)).takeWhile Text.isDecimal
  ofDecimal false (ofDigits (whole ++ part)) (-part.length)

/-- The number with the opposite sign. -/
def neg : Number → Number
  | .finite s m e => .finite (!s) m e
  | .infinite s => .infinite (!s)
  | .nan => .nan

/-- Reads an unsigned decimal with an optional exponent, or `inf` or `nan`. -/
def ofUnsigned? (cs : List Char) : Option Number :=
  if cs = ['i', 'n', 'f'] then some (.infinite false)
  else if cs = ['n', 'a', 'n'] then some .nan
  else
    let whole := cs.takeWhile Text.isDecimal
    let rest := cs.drop whole.length
    let (part, rest) :=
      match rest with
      | '.' :: rest => (rest.takeWhile Text.isDecimal, rest.dropWhile Text.isDecimal)
      | _ => ([], rest)
    let digits := ofDigits (whole ++ part)
    let exponent? : Option Int :=
      match rest with
      | [] => some 0
      | e :: '-' :: ds => if isMark e ds then some (-(ofDigits ds : Int)) else none
      | e :: '+' :: ds => if isMark e ds then some (ofDigits ds) else none
      | e :: ds => if isMark e ds then some (ofDigits ds) else none
    if whole.isEmpty && part.isEmpty then none
    else exponent?.map fun exponent => ofDecimal false digits (exponent - part.length)
where
  isMark (e : Char) (ds : List Char) : Bool :=
    (e == 'e' || e == 'E') && !ds.isEmpty && ds.all Text.isDecimal

/-- Reads a decimal with an optional sign and exponent, `inf` or `nan`. -/
def ofString? (s : String) : Option Number :=
  match s.toList with
  | '-' :: cs => (ofUnsigned? cs).map neg
  | '+' :: cs => ofUnsigned? cs
  | cs => ofUnsigned? cs

end TraitMarkup.Number
