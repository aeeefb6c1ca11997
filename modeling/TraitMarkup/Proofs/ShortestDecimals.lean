import TraitMarkup.Number.Format
import TraitMarkup.Proofs.NumberValues

/-!
# Shortest decimals

Seventeen digits are enough to tell a value from its neighbours, so the search for its shortest
decimal comes to an end (`Interval.exists_candidate`). What it finds lies between the two powers of
ten around the value or on the upper one, and no further up than halfway to the next value
(`shortest_bounds`). With that it is known where the first digit is written
(`Decimal.value_bounds`).
-/

namespace TraitMarkup.Number

/-! ## The place of the point -/

theorem toDigits_bounds {n : Nat} (h : 0 < n) : ∃ k, (Nat.toDigits 10 n).length = k + 1 ∧
    10 ^ k ≤ n ∧ n < 10 ^ (k + 1) := by
  have hpos : 0 < (Nat.toDigits 10 n).length := List.length_pos_iff.mpr Nat.toDigits_ne_nil
  obtain ⟨k, hk⟩ := Nat.exists_eq_succ_of_ne_zero (Nat.ne_of_gt hpos)
  refine ⟨k, hk, ?_, ?_⟩
  · by_cases hzero : k = 0
    · rw [hzero]
      exact h
    · rw [← Nat.not_lt, ← Nat.length_toDigits_le_iff (by decide) (Nat.pos_of_ne_zero hzero), hk]
      exact Nat.not_succ_le_self k
  · rw [← Nat.length_toDigits_le_iff (by decide) (Nat.succ_pos k), hk]

/-- Of the powers of ten, that of the point is the least above a fraction. -/
theorem pointOf_bounds {n d : Nat} (hn : 0 < n) (hd : 0 < d) :
    (10 : ℚ) ^ (pointOf n d - 1) ≤ n / d ∧ (n / d : ℚ) < 10 ^ pointOf n d := by
  have hd' : (0 : ℚ) < d := by exact_mod_cast hd
  rw [le_div_iff₀ hd', div_lt_iff₀ hd', pointOf]
  split
  · rename_i hle
    obtain ⟨k, hk, hlow, hhigh⟩ := toDigits_bounds (Nat.div_pos hle hd)
    rw [Nat.le_div_iff_mul_le hd] at hlow
    rw [Nat.div_lt_iff_lt_mul hd] at hhigh
    rw [hk, Nat.cast_succ, add_sub_cancel_right, ← Nat.cast_succ, zpow_natCast, zpow_natCast]
    exact ⟨by exact_mod_cast hlow, by exact_mod_cast hhigh⟩
  · rename_i hlt
    obtain ⟨k, hk, hlow, hhigh⟩ := toDigits_bounds (Nat.div_pos (Nat.le_of_not_le hlt) hn)
    rw [Nat.le_div_iff_mul_le hn] at hlow
    rw [Nat.div_lt_iff_lt_mul hn] at hhigh
    have hlow' : (10 : ℚ) ^ k * n ≤ d := by exact_mod_cast hlow
    have hhigh' : (d : ℚ) < 10 ^ (k + 1) * n := by exact_mod_cast hhigh
    have hpow : (10 : ℚ) ^ (-(k : ℤ)) * 10 ^ k = 1 := by
      rw [zpow_neg, zpow_natCast, inv_mul_cancel₀ (by positivity)]
    have hpos : (0 : ℚ) < 10 ^ (-(k : ℤ)) := by positivity
    simp only [hk, Nat.add_sub_cancel, Nat.pow_eq]
    split
    · rename_i hreached
      have hreached' : (d : ℚ) ≤ n * 10 ^ k := by exact_mod_cast hreached
      have hpoint : (2 - ((k + 1 : ℕ) : ℤ)) = -(k : ℤ) + 1 := by push_cast; ring
      rw [hpoint, add_sub_cancel_right, zpow_add_one₀ (by norm_num)]
      constructor
      · calc (10 : ℚ) ^ (-(k : ℤ)) * d ≤ 10 ^ (-(k : ℤ)) * (n * 10 ^ k) := by gcongr
          _ = n := by rw [mul_comm (n : ℚ), ← mul_assoc, hpow, one_mul]
      · calc (n : ℚ) = 10 ^ (-(k : ℤ)) * (10 ^ k * n) := by rw [← mul_assoc, hpow, one_mul]
          _ ≤ 10 ^ (-(k : ℤ)) * d := by gcongr
          _ < 10 ^ (-(k : ℤ)) * 10 * d := by nlinarith [mul_pos hpos hd']
    · rename_i hreached
      have hreached' : (n : ℚ) * 10 ^ k < d := by exact_mod_cast Nat.not_le.mp hreached
      have hpoint : (1 - ((k + 1 : ℕ) : ℤ)) = -(k : ℤ) := by push_cast; ring
      rw [hpoint, zpow_sub_one₀ (by norm_num)]
      constructor
      · calc (10 : ℚ) ^ (-(k : ℤ)) * 10⁻¹ * d ≤ 10 ^ (-(k : ℤ)) * 10⁻¹ * (10 ^ (k + 1) * n) := by
              gcongr
          _ = 10 ^ (-(k : ℤ)) * 10 ^ k * n := by rw [pow_succ]; ring
          _ = n := by rw [hpow, one_mul]
      · calc (n : ℚ) = 10 ^ (-(k : ℤ)) * (n * 10 ^ k) := by
              rw [mul_comm (n : ℚ), ← mul_assoc, hpow, one_mul]
          _ < 10 ^ (-(k : ℤ)) * d := by gcongr

/-! ## Candidates -/

/-- What a decimal stands for. -/
def Decimal.value (d : Decimal) : ℚ := d.digits * 10 ^ d.exponent

/-- The unit of a grid of decimals is a fraction of two numbers. -/
theorem exists_gridUnit (exponent : Int) : ∃ up down : Nat,
    (if 0 ≤ exponent then (Nat.pow 10 exponent.toNat, 1)
      else (1, Nat.pow 10 (-exponent).toNat)) = (up, down) ∧
    0 < up ∧ 0 < down ∧ (up : ℚ) = 10 ^ exponent * down := by
  split
  · rename_i h
    refine ⟨_, _, rfl, Nat.pow_pos (by decide), Nat.one_pos, ?_⟩
    obtain ⟨k, rfl⟩ := Int.eq_ofNat_of_zero_le h
    simp
  · rename_i h
    refine ⟨_, _, rfl, Nat.one_pos, Nat.pow_pos (by decide), ?_⟩
    obtain ⟨k, -, rfl⟩ := exists_eq_neg h
    simp

theorem power_mul_power {places : Nat} (h : 0 < places) (point : ℤ) :
    (10 : ℚ) ^ (places - 1) * 10 ^ (point - places) = 10 ^ (point - 1) := by
  rw [← zpow_natCast, ← zpow_add₀ (by norm_num), Nat.cast_sub h]
  congr 1
  push_cast
  ring

namespace Interval

variable {i : Interval}

theorem le_of_has {n d : Nat} (h : i.has n d) : n * i.denominator ≤ i.high * d := by
  unfold has at h
  dsimp only at h
  split at h
  · rw [Bool.and_eq_true, decide_eq_true_eq, decide_eq_true_eq] at h
    exact h.2
  · rw [Bool.and_eq_true, decide_eq_true_eq, decide_eq_true_eq] at h
    exact Nat.le_of_lt h.2

theorem has_of_lt {n d : Nat} (hlow : i.low * d < n * i.denominator)
    (hhigh : n * i.denominator < i.high * d) : i.has n d := by
  unfold has
  dsimp only
  split <;> rw [Bool.and_eq_true, decide_eq_true_eq, decide_eq_true_eq]
  · exact ⟨Nat.le_of_lt hlow, Nat.le_of_lt hhigh⟩
  · exact ⟨hlow, hhigh⟩

/-- A grid of `places` digits around the value of an interval: its unit is `up / down`, and the
value lies between `below` units, which take as many digits, and one more. -/
structure Grid (i : Interval) (places up down below : Nat) : Prop where
  up_pos : 0 < up
  down_pos : 0 < down
  unit : (up : ℚ) = 10 ^ (pointOf i.value i.denominator - places) * down
  le : below * (i.denominator * up) ≤ i.value * down
  lt : i.value * down < (below + 1) * (i.denominator * up)
  digits : Nat.pow 10 (places - 1) ≤ below

/-- A candidate is a neighbour of the value on such a grid that is read back. -/
theorem exists_grid (hv : 0 < i.value) (hd : 0 < i.denominator) {places : Nat} (hp : 0 < places) :
    ∃ up down below, i.Grid places up down below ∧
      (∀ d, i.candidate? places = some d → ∃ k, (k = below ∨ k = below + 1) ∧
        d = ⟨k, pointOf i.value i.denominator - places⟩ ∧ i.has (k * up) down) ∧
      (i.candidate? places = none →
        i.has (below * up) down = false ∧ i.has ((below + 1) * up) down = false) := by
  obtain ⟨up, down, hgrid, hup, hdown, hunit⟩ :=
    exists_gridUnit (pointOf i.value i.denominator - places)
  have hpos : 0 < i.denominator * up := Nat.mul_pos hd hup
  refine ⟨up, down, i.value * down / (i.denominator * up), ⟨hup, hdown, hunit, ?_, ?_, ?_⟩, ?_, ?_⟩
  · exact Nat.div_mul_le_self _ _
  · rw [Nat.mul_comm _ (i.denominator * up)]
    exact Nat.lt_mul_div_succ _ hpos
  · rw [Nat.le_div_iff_mul_le hpos]
    have hd' : (0 : ℚ) < i.denominator := by exact_mod_cast hd
    have hpoint := (pointOf_bounds hv hd).1
    rw [le_div_iff₀ hd'] at hpoint
    have hle : (10 : ℚ) ^ (places - 1) * (i.denominator * up) ≤ i.value * down := by
      calc (10 : ℚ) ^ (places - 1) * (i.denominator * up)
          = 10 ^ (pointOf i.value i.denominator - 1) * i.denominator * down := by
            rw [hunit, ← power_mul_power hp]
            ring
        _ ≤ i.value * down := by gcongr
    exact_mod_cast hle
  · intro d h
    simp only [candidate?, hgrid] at h
    split at h
    · rename_i hbelow habove
      cases h
      split
      · exact ⟨_, .inl rfl, rfl, hbelow⟩
      · exact ⟨_, .inr rfl, rfl, habove⟩
    · rename_i hbelow _
      cases h
      exact ⟨_, .inl rfl, rfl, hbelow⟩
    · rename_i _ habove
      cases h
      exact ⟨_, .inr rfl, rfl, habove⟩
    · cases h
  · intro h
    simp only [candidate?, hgrid] at h
    split at h
    · cases h
    · cases h
    · cases h
    · rename_i hbelow habove
      exact ⟨hbelow, habove⟩

/-- The first digit of a candidate stands where that of the value does or before it. -/
theorem candidate?_bounds (hv : 0 < i.value) (hd : 0 < i.denominator) {places : Nat}
    (hp : 0 < places) {d : Decimal} (h : i.candidate? places = some d) :
    0 < d.digits ∧ (10 : ℚ) ^ (pointOf i.value i.denominator - 1) ≤ d.value ∧
      d.value ≤ i.high / i.denominator := by
  obtain ⟨up, down, below, hgrid, hsome, -⟩ := exists_grid hv hd hp
  obtain ⟨k, hk, rfl, hhas⟩ := hsome d h
  have hdigits : Nat.pow 10 (places - 1) ≤ k := by
    have := hgrid.digits
    omega
  have hd' : (0 : ℚ) < i.denominator := by exact_mod_cast hd
  have hdown : (0 : ℚ) < down := by exact_mod_cast hgrid.down_pos
  refine ⟨Nat.lt_of_lt_of_le (Nat.pow_pos (by decide)) hdigits, ?_, ?_⟩
  · have hdigits' : (10 : ℚ) ^ (places - 1) ≤ k := by exact_mod_cast hdigits
    rw [← power_mul_power hp, Decimal.value]
    gcongr
  · rw [le_div_iff₀ hd', Decimal.value]
    have hle : (k * up * i.denominator : ℚ) ≤ i.high * down := by exact_mod_cast le_of_has hhas
    rw [hgrid.unit] at hle
    have hle' : (k * 10 ^ (pointOf i.value i.denominator - places) * i.denominator : ℚ) * down ≤
        i.high * down := by
      calc _ = (k * (10 ^ (pointOf i.value i.denominator - places) * down) * i.denominator : ℚ) := by
            ring
        _ ≤ i.high * down := hle
    exact le_of_mul_le_mul_right hle' hdown

/-- Where the bounds are far enough from the value, seventeen digits suffice. -/
theorem exists_candidate (hv : 0 < i.value) (hd : 0 < i.denominator) {a b : Nat}
    (hlow : i.low + a ≤ i.value) (hhigh : i.value + b ≤ i.high)
    (ha : i.value < 2 * Nat.pow 10 16 * a) (hb : i.value < 2 * Nat.pow 10 16 * b) :
    i.candidate? 17 ≠ none := by
  intro hnone
  obtain ⟨up, down, below, hgrid, -, hnot⟩ := exists_grid hv hd (show 0 < 17 by decide)
  obtain ⟨hbelow, habove⟩ := hnot hnone
  -- all over the denominator of the interval and of the grid
  have hwide : ∀ c, i.value < 2 * Nat.pow 10 16 * c → i.denominator * up < 2 * (c * down) := by
    intro c hc
    apply Nat.lt_of_mul_lt_mul_left (a := Nat.pow 10 16)
    calc Nat.pow 10 16 * (i.denominator * up) ≤ below * (i.denominator * up) :=
          Nat.mul_le_mul_right _ hgrid.digits
      _ ≤ i.value * down := hgrid.le
      _ < 2 * Nat.pow 10 16 * c * down := Nat.mul_lt_mul_of_pos_right hc hgrid.down_pos
      _ = Nat.pow 10 16 * (2 * (c * down)) := by ring
  have hlow' := Nat.mul_le_mul_right down hlow
  have hhigh' := Nat.mul_le_mul_right down hhigh
  have hle := hgrid.le
  have hlt := hgrid.lt
  have ha' := hwide a ha
  have hb' := hwide b hb
  rw [Nat.add_mul] at hlow' hhigh' hlt
  rw [Nat.one_mul] at hlt
  rcases Nat.le_total (2 * (i.value * down - below * (i.denominator * up))) (i.denominator * up)
    with hnear | hnear
  · have hhas : i.has (below * up) down := by
      apply has_of_lt <;> rw [Nat.mul_assoc, Nat.mul_comm up] <;> omega
    rw [hbelow] at hhas
    cases hhas
  · have hhas : i.has ((below + 1) * up) down := by
      apply has_of_lt <;> rw [Nat.mul_assoc, Nat.mul_comm up, Nat.add_mul, Nat.one_mul] <;> omega
    rw [habove] at hhas
    cases hhas

end Interval

/-! ## The shortest decimal -/

variable {m k : Nat}

theorem magnitude_neg (m k : Nat) : magnitude m (-(k : ℤ)) = m / 2 ^ k := by
  rw [magnitude, zpow_neg, zpow_natCast, div_eq_mul_inv]

theorem fraction_neg (m : Nat) (hk : 0 < k) : fraction m (-(k : ℤ)) = (m, 2 ^ k) := by
  rw [fraction, if_neg (by omega), neg_neg, Int.toNat_natCast, Nat.one_shiftLeft]

/-- The interval of a value with a fractional part. -/
theorem Interval.of_neg (m : Nat) (hk : 0 < k) :
    ∃ a, (a = 2 ∨ a = 1 ∧ m = 2 ^ (precision - 1)) ∧
    (of m (-(k : ℤ))).value = 4 * m ∧ (of m (-(k : ℤ))).low = 4 * m - a ∧
    (of m (-(k : ℤ))).high = 4 * m + 2 ∧ (of m (-(k : ℤ))).denominator = 4 * 2 ^ k := by
  by_cases hnarrow : m = 1 <<< (precision - 1) ∧ minExponent < -(k : ℤ)
  · refine ⟨1, .inr ⟨rfl, ?_⟩, ?_⟩
    · rw [hnarrow.1, Nat.one_shiftLeft]
    · simp [of, fraction_neg m hk, if_pos hnarrow]
  · refine ⟨2, .inl rfl, ?_⟩
    simp [of, fraction_neg m hk, if_neg hnarrow]

/-- The shortest decimal of a value is found, and it is not further up than halfway to the next
value. Its first digit does not stand behind that of the value. -/
theorem shortest_bounds (hm : 0 < m) (h : m < 2 ^ precision) (hk : 0 < k) :
    0 < (shortest m (-(k : ℤ))).digits ∧
    (∀ j : ℤ, 10 ^ j ≤ magnitude m (-(k : ℤ)) → 10 ^ j ≤ (shortest m (-(k : ℤ))).value) ∧
    (shortest m (-(k : ℤ))).value ≤ (2 * m + 1) / (2 * 2 ^ k) := by
  obtain ⟨a, hnarrow, hvalue, hlow, hhigh, hdenominator⟩ := Interval.of_neg m hk
  generalize hi : Interval.of m (-(k : ℤ)) = i at hvalue hlow hhigh hdenominator
  have hv : 0 < i.value := by omega
  have hd : 0 < i.denominator := by
    rw [hdenominator]
    positivity
  have hsome : ∃ d places, 0 < places ∧ i.candidate? places = some d ∧
      shortest m (-(k : ℤ)) = d := by
    rw [precision] at h hnarrow
    have hfound : i.candidate? 17 ≠ none := by
      apply Interval.exists_candidate hv hd (a := a) (b := 2)
      · omega
      · omega
      · simp only [Nat.pow_eq]
        omega
      · simp only [Nat.pow_eq]
        omega
    simp only [shortest, hi]
    cases hfind : (List.range 17).findSome? fun n => i.candidate? (n + 1) with
    | none =>
      rw [List.findSome?_eq_none_iff] at hfind
      exact absurd (hfind 16 (by decide)) hfound
    | some d =>
      obtain ⟨n, -, hn⟩ := List.exists_of_findSome?_eq_some hfind
      exact ⟨d, n + 1, Nat.succ_pos n, hn, rfl⟩
  obtain ⟨d, places, hplaces, hcandidate, rfl⟩ := hsome
  obtain ⟨hpos, hpoint, hle⟩ := Interval.candidate?_bounds hv hd hplaces hcandidate
  refine ⟨hpos, ?_, ?_⟩
  · intro j hj
    have hlt := (pointOf_bounds hv hd).2
    have hval : (i.value / i.denominator : ℚ) = magnitude m (-(k : ℤ)) := by
      rw [magnitude_neg, hvalue, hdenominator]
      push_cast
      rw [mul_div_mul_left _ _ (by norm_num)]
    rw [hval] at hlt
    have hj' : j < pointOf i.value i.denominator :=
      (zpow_lt_zpow_iff_right₀ (by norm_num)).mp (hj.trans_lt hlt)
    refine le_trans ?_ hpoint
    apply zpow_le_zpow_right₀ (by norm_num)
    omega
  · refine hle.trans_eq ?_
    rw [hhigh, hdenominator]
    push_cast
    field_simp
    ring

/-- Where the first digit of a decimal stands. -/
theorem Decimal.value_bounds {d : Decimal} (h : 0 < d.digits) :
    (10 : ℚ) ^ (d.exponent + (Nat.toDigits 10 d.digits).length - 1) ≤ d.value ∧
      d.value < 10 ^ (d.exponent + (Nat.toDigits 10 d.digits).length) := by
  obtain ⟨k, hk, hlow, hhigh⟩ := toDigits_bounds h
  have hlow' : (10 : ℚ) ^ k ≤ d.digits := by exact_mod_cast hlow
  have hhigh' : (d.digits : ℚ) < 10 ^ (k + 1) := by exact_mod_cast hhigh
  have hpow : ∀ n : Nat, (10 : ℚ) ^ (d.exponent + n) = 10 ^ n * 10 ^ d.exponent := by
    intro n
    rw [zpow_add₀ (by norm_num), zpow_natCast, mul_comm]
  rw [hk, hpow, Nat.cast_succ, ← add_assoc, add_sub_cancel_right, hpow, value]
  have hpos : (0 : ℚ) < 10 ^ d.exponent := by positivity
  exact ⟨mul_le_mul_of_nonneg_right hlow' hpos.le, mul_lt_mul_of_pos_right hhigh' hpos⟩

end TraitMarkup.Number
