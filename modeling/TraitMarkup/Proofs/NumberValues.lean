import Mathlib.Algebra.Order.Field.Power
import Mathlib.Data.Rat.Cast.Order
import Mathlib.Tactic.FieldSimp
import Mathlib.Tactic.Linarith
import Mathlib.Tactic.NormNum
import Mathlib.Tactic.Positivity
import Mathlib.Tactic.Ring
import TraitMarkup.Number.Read

/-!
# The values of numbers

A finite number is a mantissa and an exponent in normal form (`Number.Normal`), and so is every number
that is read (`Number.normal_ofDecimal`): the exponent is chosen so that the mantissa has all its
binary digits, and rounding it up can add no more than one.
-/

namespace TraitMarkup.Number

/-- What a mantissa and an exponent stand for. -/
def magnitude (m : Nat) (e : Int) : ℚ := m * 2 ^ e

/-- The mantissa and the exponent of a finite value. The mantissa has all its binary digits unless
the exponent is the least one. -/
structure Normal (m : Nat) (e : Int) : Prop where
  lt : m < 2 ^ precision
  least : minExponent ≤ e
  greatest : e ≤ maxExponent
  full : 2 ^ (precision - 1) ≤ m ∨ e = minExponent

theorem normal_zero : Normal 0 minExponent :=
  ⟨by decide, by decide, by decide, .inr rfl⟩

theorem exists_eq_neg {e : ℤ} (h : ¬0 ≤ e) : ∃ k : Nat, 0 < k ∧ e = -(k : ℤ) := by
  obtain ⟨k, hk⟩ := Int.eq_ofNat_of_zero_le (show 0 ≤ -e by omega)
  exact ⟨k, by omega, by omega⟩

/-! ## Rounding -/

theorem roundDiv_le {n d k : Nat} (h : n < k * d) : roundDiv n d ≤ k := by
  have hlt : n / d < k := Nat.div_lt_of_lt_mul (by rwa [Nat.mul_comm])
  unfold roundDiv
  dsimp only
  split <;> omega

theorem le_roundDiv {n d k : Nat} (hd : 0 < d) (h : k * d ≤ n) : k ≤ roundDiv n d := by
  have hle : k ≤ n / d := (Nat.le_div_iff_mul_le hd).mpr h
  unfold roundDiv
  dsimp only
  split <;> omega

/-! ## The exponent -/

theorem log2_bounds {n : Nat} (h : 0 < n) :
    (2 : ℚ) ^ (n.log2 : ℤ) ≤ n ∧ (n : ℚ) < 2 ^ ((n.log2 : ℤ) + 1) := by
  have hne : n ≠ 0 := Nat.ne_of_gt h
  have hlow : 2 ^ n.log2 ≤ n := Nat.log2_self_le hne
  have hhigh : n < 2 ^ (n.log2 + 1) := Nat.lt_log2_self
  rw [← Nat.cast_succ, zpow_natCast, zpow_natCast]
  exact ⟨by exact_mod_cast hlow, by exact_mod_cast hhigh⟩

theorem zpow_le_div_iff {n d : Nat} (hd : 0 < d) (b : ℤ) : (2 : ℚ) ^ b ≤ n / d ↔
    if 0 ≤ b then d <<< b.toNat ≤ n else d ≤ n <<< (-b).toNat := by
  have hd' : (0 : ℚ) < d := by exact_mod_cast hd
  rw [le_div_iff₀ hd']
  split
  · rename_i h
    obtain ⟨k, rfl⟩ := Int.eq_ofNat_of_zero_le h
    rw [Int.toNat_natCast, Nat.shiftLeft_eq, zpow_natCast, mul_comm]
    exact_mod_cast Iff.rfl
  · rename_i h
    obtain ⟨k, -, rfl⟩ := exists_eq_neg h
    rw [neg_neg, Int.toNat_natCast, Nat.shiftLeft_eq, zpow_neg, zpow_natCast,
      inv_mul_le_iff₀ (by positivity), mul_comm]
    exact_mod_cast Iff.rfl

/-- The powers of two around a fraction. -/
theorem exists_binade {n d : Nat} (hn : 0 < n) (hd : 0 < d) : ∃ f : ℤ,
    exponentFor n d = max (f - (precision - 1)) minExponent ∧
      (2 : ℚ) ^ f ≤ n / d ∧ (n / d : ℚ) < 2 ^ (f + 1) := by
  obtain ⟨hnlow, hnhigh⟩ := log2_bounds hn
  obtain ⟨hdlow, hdhigh⟩ := log2_bounds hd
  have hd' : (0 : ℚ) < d := by exact_mod_cast hd
  have hlow : (2 : ℚ) ^ ((n.log2 : ℤ) - d.log2 - 1) ≤ n / d := by
    rw [le_div_iff₀ hd']
    calc (2 : ℚ) ^ ((n.log2 : ℤ) - d.log2 - 1) * d
        ≤ 2 ^ ((n.log2 : ℤ) - d.log2 - 1) * 2 ^ ((d.log2 : ℤ) + 1) := by gcongr
      _ = 2 ^ (n.log2 : ℤ) := by
        rw [← zpow_add₀ (by norm_num)]
        congr 1
        ring
      _ ≤ n := hnlow
  have hhigh : (n / d : ℚ) < 2 ^ ((n.log2 : ℤ) - d.log2 + 1) := by
    rw [div_lt_iff₀ hd']
    calc (n : ℚ) < 2 ^ ((n.log2 : ℤ) + 1) := hnhigh
      _ = 2 ^ ((n.log2 : ℤ) - d.log2 + 1) * 2 ^ (d.log2 : ℤ) := by
        rw [← zpow_add₀ (by norm_num)]
        congr 1
        ring
      _ ≤ 2 ^ ((n.log2 : ℤ) - d.log2 + 1) * d := by gcongr
  by_cases hreached : (2 : ℚ) ^ ((n.log2 : ℤ) - d.log2) ≤ n / d
  · refine ⟨(n.log2 : ℤ) - d.log2, ?_, hreached, hhigh⟩
    rw [zpow_le_div_iff hd] at hreached
    rw [exponentFor, if_pos hreached]
  · refine ⟨(n.log2 : ℤ) - d.log2 - 1, ?_, hlow, ?_⟩
    · rw [zpow_le_div_iff hd] at hreached
      rw [exponentFor, if_neg hreached]
    · rw [sub_add_cancel]
      exact not_le.mp hreached

/-- The fraction in units of a power of two. -/
theorem exists_scaled (n : Nat) {d : Nat} (hd : 0 < d) (e : ℤ) : ∃ n' d' : Nat, 0 < d' ∧
    (if 0 ≤ e then roundDiv n (d <<< e.toNat) else roundDiv (n <<< (-e).toNat) d) =
      roundDiv n' d' ∧ (n' : ℚ) * 2 ^ e = n / d * d' := by
  have hd' : (d : ℚ) ≠ 0 := by exact_mod_cast Nat.ne_of_gt hd
  split
  · rename_i h
    obtain ⟨k, rfl⟩ := Int.eq_ofNat_of_zero_le h
    refine ⟨n, d <<< k, ?_, rfl, ?_⟩
    · rw [Nat.shiftLeft_eq]
      positivity
    · rw [Nat.shiftLeft_eq, zpow_natCast]
      push_cast
      field_simp
  · rename_i h
    obtain ⟨k, -, rfl⟩ := exists_eq_neg h
    refine ⟨n <<< k, d, hd, by rw [neg_neg, Int.toNat_natCast], ?_⟩
    rw [Nat.shiftLeft_eq, zpow_neg, zpow_natCast]
    push_cast
    field_simp

/-- In units of its exponent, a fraction has all the binary digits of a mantissa and no more. -/
theorem scaled_bounds {n d n' d' : Nat} (hn : 0 < n) (hd : 0 < d) (hd' : 0 < d')
    (h : (n' : ℚ) * 2 ^ exponentFor n d = n / d * d') :
    minExponent ≤ exponentFor n d ∧ n' < 2 ^ precision * d' ∧
      (2 ^ (precision - 1) * d' ≤ n' ∨ exponentFor n d = minExponent) := by
  obtain ⟨f, hexponent, hlow, hhigh⟩ := exists_binade hn hd
  rw [hexponent] at h ⊢
  generalize he : max (f - ((precision : ℤ) - 1)) minExponent = e at h ⊢
  rw [precision] at he ⊢
  have hpos : (0 : ℚ) < d' := by exact_mod_cast hd'
  have hunit : (0 : ℚ) < 2 ^ e := by positivity
  have hshift : ∀ k : Nat, (2 : ℚ) ^ k * d' * 2 ^ e = 2 ^ (e + k) * d' := by
    intro k
    rw [zpow_add₀ (by norm_num), zpow_natCast]
    ring
  refine ⟨by omega, ?_, ?_⟩
  · have hlt : (n' : ℚ) * 2 ^ e < 2 ^ 53 * d' * 2 ^ e := by
      rw [h, hshift]
      gcongr
      refine hhigh.trans_le (zpow_le_zpow_right₀ (by norm_num) ?_)
      push_cast
      omega
    exact_mod_cast lt_of_mul_lt_mul_right hlt hunit.le
  · by_cases hmin : e = minExponent
    · exact .inr hmin
    · have hle : (2 : ℚ) ^ 52 * d' * 2 ^ e ≤ n' * 2 ^ e := by
        rw [h, hshift]
        gcongr
        refine le_trans (zpow_le_zpow_right₀ (by norm_num) ?_) hlow
        push_cast
        omega
      exact .inl (by exact_mod_cast le_of_mul_le_mul_right hle hunit)

theorem normal_ofFraction {negative s : Bool} {n d m : Nat} {e : ℤ} (hd : 0 < d)
    (h : ofFraction negative n d = .finite s m e) : Normal m e := by
  unfold ofFraction at h
  split at h
  · cases h
    exact normal_zero
  rename_i hn
  obtain ⟨n', d', hd', hround, hscaled⟩ := exists_scaled n hd (exponentFor n d)
  obtain ⟨hleast, hlt, hfull⟩ := scaled_bounds (Nat.pos_of_ne_zero hn) hd hd' hscaled
  have hle : roundDiv n' d' ≤ 2 ^ precision := roundDiv_le hlt
  have hfull : 2 ^ (precision - 1) ≤ roundDiv n' d' ∨ exponentFor n d = minExponent :=
    hfull.imp_left (le_roundDiv hd')
  simp only [hround] at h
  split at h
  · -- rounding up has added a digit, of which nothing but the exponent is left
    dsimp only at h
    split at h
    · cases h
    rename_i hmax
    cases h
    rw [Nat.one_shiftLeft]
    exact ⟨by decide, by omega, not_lt.mp hmax, .inl (Nat.le_refl _)⟩
  · rename_i hcarry
    dsimp only at h
    split at h
    · cases h
    rename_i hmax
    cases h
    rw [Nat.one_shiftLeft] at hcarry
    exact ⟨Nat.lt_of_le_of_ne hle hcarry, hleast, not_lt.mp hmax, hfull⟩

/-- Every decimal is read as a number in normal form, or it is too large. -/
theorem normal_ofDecimal {negative s : Bool} {digits m : Nat} {exponent e : ℤ}
    (h : ofDecimal negative digits exponent = .finite s m e) : Normal m e := by
  unfold ofDecimal at h
  dsimp only at h
  split at h
  · cases h
    exact normal_zero
  split at h
  · cases h
  split at h
  · exact normal_ofFraction Nat.one_pos h
  · exact normal_ofFraction (Nat.pow_pos (by decide)) h

end TraitMarkup.Number
