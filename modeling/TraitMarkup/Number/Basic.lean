/-! # Numbers

A number is a binary64 value, kept by its parts: a finite one is `± mantissa * 2 ^ exponent`. All
arithmetic on it is exact arithmetic on natural numbers. -/

namespace TraitMarkup

/-- A binary64 value. -/
inductive Number where
  | finite (negative : Bool) (mantissa : Nat) (exponent : Int)
  | infinite (negative : Bool)
  | nan
  deriving DecidableEq

namespace Number

/-- The least exponent, that of the subnormal values. -/
def minExponent : Int := -1074

/-- The greatest exponent of a finite value. -/
def maxExponent : Int := 971

/-- The number of binary digits of a mantissa. -/
def precision : Nat := 53

/-- `mantissa * 2 ^ exponent` as a fraction. -/
def fraction (mantissa : Nat) (exponent : Int) : Nat × Nat :=
  if 0 ≤ exponent then (mantissa <<< exponent.toNat, 1) else (mantissa, 1 <<< (-exponent).toNat)

/-- Whether two numbers have the same value. The zeros are equal, and nothing equals `nan`. -/
def equal : Number → Number → Bool
  | .finite s m e, .finite s' m' e' =>
    let (n, d) := fraction m e
    let (n', d') := fraction m' e'
    n * d' == n' * d && (s == s' || n == 0)
  | .infinite s, .infinite s' => s == s'
  | _, _ => false

/-- The magnitude of a finite number that has no fractional part. -/
def natAbs? : Number → Option Nat
  | .finite _ m e =>
    let (n, d) := fraction m e
    if n % d = 0 then some (n / d) else none
  | _ => none

end Number

end TraitMarkup
