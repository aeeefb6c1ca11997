import TraitMarkup.Number.Shortest

/-! # Writing numbers

A number with no fractional part is written in full, any other by its shortest decimal. -/

namespace TraitMarkup.Number

/-- How a decimal is laid out: with the power of ten of its first digit in the range from `least` up
to but not including `limit` it is written with a point in its place, otherwise with an exponent of
at least `exponentWidth` digits. -/
structure Layout where
  least : Int
  limit : Int
  exponentWidth : Nat

/-- Numbers from `0.0001` up to but not including `10 ^ 16` are written with the point in its
place. -/
def layout : Layout := ⟨-4, 16, 2⟩

/-- The text of digits whose first stands just after the point times `10 ^ point`. There is always
a digit on both sides of a point. -/
def Layout.write (l : Layout) (digits : List Char) (point : Int) : List Char :=
  let power := point - 1
  if l.least ≤ power ∧ power < l.limit then
    if point ≤ 0 then '0' :: '.' :: List.replicate (-point).toNat '0' ++ digits
    else if digits.length ≤ point.toNat then
      digits ++ List.replicate (point.toNat - digits.length) '0' ++ ['.', '0']
    else digits.take point.toNat ++ '.' :: digits.drop point.toNat
  else
    let tail := match digits.drop 1 with | [] => [] | more => '.' :: more
    let mark := if power < 0 then '-' else '+'
    digits.take 1 ++ tail ++
      'e' :: mark :: (Nat.toDigits 10 power.natAbs).leftpad l.exponentWidth '0'

/-- The text of a decimal; zeros at the end of its digits are not written. -/
def Decimal.text (d : Decimal) : List Char :=
  let all := Nat.toDigits 10 d.digits
  let digits := (all.reverse.dropWhile (· == '0')).reverse
  layout.write digits (d.exponent + all.length)

/-- The sign of a number as it is written. -/
def sign (negative : Bool) : List Char := if negative then ['-'] else []

/-- The shortest text that is read back as the number, with a fractional part or an exponent. -/
def decimalText : Number → String
  | .finite s 0 _ => String.ofList (sign s ++ ['0', '.', '0'])
  | .finite s m e => String.ofList (sign s ++ (shortest m e).text)
  | .infinite s => String.ofList (sign s ++ ['i', 'n', 'f'])
  | .nan => "nan"

/-- The number as it is written in a source text: in full if it has no fractional part. -/
def text (x : Number) : String :=
  match x, x.natAbs? with
  | .finite s _ _, some n => String.ofList (sign (s && n != 0) ++ Nat.toDigits 10 n)
  | x, _ => x.decimalText

end TraitMarkup.Number
