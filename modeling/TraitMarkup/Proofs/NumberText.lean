import Mathlib.Data.List.TakeWhile
import TraitMarkup.Proofs.ExpressionText
import TraitMarkup.Proofs.ShortestDecimals

/-!
# Numbers as they are written

A number is written in full, with a point in its place or with an exponent. The first two are
numerals of the source text, the last is not: its mark is read as a word, and the sign and the digits
behind it as more tokens. Of the numbers that are not negative, an exponent is written for exactly
those between zero and one ten-thousandth (`text_cases`).
-/

namespace TraitMarkup

namespace Number

/-! ## Layouts -/

theorem isDecimal_toDigits (n : Nat) : ∀ c ∈ Nat.toDigits 10 n, Text.isDecimal c :=
  fun c hc => Text.isDecimal_of_isDigit (Unsigned.isDigit_toDigits c hc)

theorem isDecimal_zeros (n : Nat) : ∀ c ∈ List.replicate n '0', Text.isDecimal c := by
  intro c hc
  rw [List.eq_of_mem_replicate hc]
  decide

section

variable {l : Layout} {digits : List Char} {point : Int}

theorem Layout.isNumeral_write (hne : digits ≠ []) (hdigits : ∀ c ∈ digits, Text.isDecimal c)
    (hleast : l.least ≤ point - 1) (hlimit : point - 1 < l.limit) :
    IsNumeral (l.write digits point) := by
  simp only [write, if_pos (And.intro hleast hlimit)]
  split
  · show IsNumeral (['0'] ++ '.' :: (List.replicate (-point).toNat '0' ++ digits))
    apply IsNumeral.point
    · simp
    · exact isDecimal_zeros 1
    · exact List.forall_mem_append.mpr ⟨isDecimal_zeros _, hdigits⟩
  · split
    · apply IsNumeral.point
      · simp [hne]
      · exact List.forall_mem_append.mpr ⟨hdigits, isDecimal_zeros _⟩
      · exact isDecimal_zeros 1
    · apply IsNumeral.point
      · simp [hne]
        omega
      · exact fun c hc => hdigits c (List.mem_of_mem_take hc)
      · exact fun c hc => hdigits c (List.mem_of_mem_drop hc)

/-- Below the range of the layout, the power of ten is written behind a mark. -/
theorem Layout.exists_write (hne : digits ≠ []) (hdigits : ∀ c ∈ digits, Text.isDecimal c)
    (hleast : point - 1 < l.least) (hneg : point - 1 < 0) :
    ∃ mantissa power, IsNumeral mantissa ∧ IsNumeral power ∧
      l.write digits point = mantissa ++ 'e' :: '-' :: power := by
  simp only [write, if_neg (show ¬(l.least ≤ point - 1 ∧ point - 1 < l.limit) by omega),
    if_pos hneg]
  refine ⟨_, _, ?_, ?_, rfl⟩
  · have hfirst : ∀ c ∈ digits.take 1, Text.isDecimal c :=
      fun c hc => hdigits c (List.mem_of_mem_take hc)
    have hne' : digits.take 1 ≠ [] := by simp [hne]
    split
    · rw [List.append_nil]
      exact .whole hne' hfirst
    · exact .point hne' hfirst fun c hc => hdigits c (List.mem_of_mem_drop hc)
  · apply IsNumeral.whole
    · simp [List.leftpad, Nat.toDigits_ne_nil]
    · exact List.forall_mem_append.mpr ⟨isDecimal_zeros _, isDecimal_toDigits _⟩

end

/-! ## Decimals -/

theorem valueOf_zeros {digits : List Char} (h : ∀ c ∈ digits, c = '0') :
    Unsigned.valueOf digits = 0 := by
  rw [List.eq_replicate_of_mem h]
  generalize digits.length = n
  induction n with
  | zero => rfl
  | succ n ih => exact ih

/-- Not all the digits of a decimal are zeros, unless it is zero itself. -/
theorem Decimal.digits_ne_nil {d : Decimal} (h : 0 < d.digits) :
    ((Nat.toDigits 10 d.digits).reverse.dropWhile (· == '0')).reverse ≠ [] := by
  intro hnil
  rw [List.reverse_eq_nil_iff, List.dropWhile_eq_nil_iff] at hnil
  have hzeros : Unsigned.valueOf (Nat.toDigits 10 d.digits) = 0 :=
    valueOf_zeros fun c hc => by simpa using hnil c (List.mem_reverse.mpr hc)
  rw [Unsigned.valueOf_toDigits] at hzeros
  omega

theorem Decimal.isDecimal_digits (d : Decimal) :
    ∀ c ∈ ((Nat.toDigits 10 d.digits).reverse.dropWhile (· == '0')).reverse, Text.isDecimal c := by
  intro c hc
  have hmem := (List.dropWhile_sublist _).subset (List.mem_reverse.mp hc)
  exact isDecimal_toDigits _ c (List.mem_reverse.mp hmem)

/-- A decimal in the range of the layout is written as a numeral. -/
theorem Decimal.isNumeral_text {d : Decimal} (h : 0 < d.digits) (hleast : 1 / 10000 ≤ d.value)
    (hlimit : d.value < 10 ^ 16) : IsNumeral d.text := by
  obtain ⟨hlow, hhigh⟩ := value_bounds h
  apply Layout.isNumeral_write (digits_ne_nil h) (isDecimal_digits d)
  · have hlt : (10 : ℚ) ^ (-4 : ℤ) < 10 ^ (d.exponent + (Nat.toDigits 10 d.digits).length) :=
      lt_of_le_of_lt (by norm_num at hleast ⊢; exact hleast) hhigh
    rw [zpow_lt_zpow_iff_right₀ (by norm_num)] at hlt
    simp only [layout]
    omega
  · have hlt : (10 : ℚ) ^ (d.exponent + (Nat.toDigits 10 d.digits).length - 1) < 10 ^ (16 : ℤ) :=
      hlow.trans_lt (by exact_mod_cast hlimit)
    rw [zpow_lt_zpow_iff_right₀ (by norm_num)] at hlt
    exact hlt

/-- A decimal below it is written with an exponent. -/
theorem Decimal.exists_text {d : Decimal} (h : 0 < d.digits) (hleast : d.value < 1 / 10000) :
    ∃ mantissa power, IsNumeral mantissa ∧ IsNumeral power ∧
      d.text = mantissa ++ 'e' :: '-' :: power := by
  have hlt : (10 : ℚ) ^ (d.exponent + (Nat.toDigits 10 d.digits).length - 1) < 10 ^ (-4 : ℤ) :=
    (value_bounds h).1.trans_lt (by norm_num at hleast ⊢; exact hleast)
  rw [zpow_lt_zpow_iff_right₀ (by norm_num)] at hlt
  exact Layout.exists_write (digits_ne_nil h) (isDecimal_digits d) hlt (by omega)

/-! ## Values -/

/-- A ten-thousandth lies above the middle between the greatest value below it and the next one. -/
theorem half_step_lt {m k : Nat} (h : Normal m (-(k : ℤ)))
    (hlt : magnitude m (-(k : ℤ)) < 1 / 10000) :
    ((2 * m + 1) / (2 * 2 ^ k) : ℚ) < 1 / 10000 := by
  rw [magnitude_neg, div_lt_div_iff₀ (by positivity) (by norm_num), one_mul, mul_comm] at hlt
  rw [div_lt_div_iff₀ (by positivity) (by norm_num), one_mul, mul_comm]
  have hlt : 10000 * m < 2 ^ k := by exact_mod_cast hlt
  suffices hsuff : 10000 * (2 * m + 1) < 2 * 2 ^ k by exact_mod_cast hsuff
  obtain ⟨hm, hleast, -, hfull⟩ := h
  rw [precision] at hm hfull
  rw [minExponent] at hleast hfull
  -- the greatest value below it has the exponent `-66`
  rcases Nat.lt_or_ge 66 k with hk | hk
  · have hpow : 2 ^ 67 ≤ 2 ^ k := Nat.pow_le_pow_right (by decide) hk
    omega
  · rcases Nat.lt_or_eq_of_le hk with hk | rfl
    · have hpow : 2 ^ k ≤ 2 ^ 65 := Nat.pow_le_pow_right (by decide) (by omega)
      omega
    · omega

/-- A value with a fractional part is in the range of the layout upwards. -/
theorem half_step_lt_limit {m : Nat} (h : m < 2 ^ precision) (k : Nat) :
    ((2 * m + 1) / (2 * 2 ^ k) : ℚ) < 10 ^ 16 := by
  rw [precision] at h
  have hpow : (1 : ℚ) ≤ 2 ^ k := one_le_pow₀ (by norm_num)
  rw [div_lt_iff₀ (by positivity)]
  calc (2 * m + 1 : ℚ) < 10 ^ 16 * (2 * 1) := by exact_mod_cast (by omega)
    _ ≤ 10 ^ 16 * (2 * 2 ^ k) := by gcongr

/-- A number above zero that is too small for the range of the layout. -/
def Tiny (m : Nat) (e : Int) : Prop := 0 < m ∧ magnitude m e < 1 / 10000

/-- A value with no fractional part is zero or at least one. -/
theorem not_tiny_of_natAbs? {s : Bool} {m n : Nat} {e : Int}
    (h : (finite s m e).natAbs? = some n) : ¬Tiny m e := by
  rintro ⟨hm, hlt⟩
  have hm' : (1 : ℚ) ≤ m := by exact_mod_cast hm
  suffices hone : 1 ≤ magnitude m e by linarith
  by_cases he : 0 ≤ e
  · exact one_le_mul_of_one_le_of_one_le hm' (one_le_zpow₀ (by norm_num) he)
  · obtain ⟨k, hk, rfl⟩ := exists_eq_neg he
    rw [natAbs?, fraction_neg m hk] at h
    simp only [Option.ite_none_right_eq_some] at h
    have hle : 2 ^ k ≤ m := Nat.le_of_dvd hm (Nat.dvd_of_mod_eq_zero h.1)
    rw [magnitude_neg, one_le_div (by positivity)]
    exact_mod_cast hle

theorem text_whole {s : Bool} {m n : Nat} {e : Int} (hs : s = false ∨ m = 0)
    (h : (finite s m e).natAbs? = some n) :
    (finite s m e).text = String.ofList (Nat.toDigits 10 n) := by
  have hsign : (s && n != 0) = false := by
    rcases hs with rfl | rfl
    · rfl
    · simp only [natAbs?, fraction] at h
      split at h <;> simp at h <;> simp [← h]
  simp only [text, h, hsign]
  rfl

theorem text_part {m : Nat} {e : Int} (hm : 0 < m) (h : (finite false m e).natAbs? = none) :
    (finite false m e).text = String.ofList (shortest m e).text := by
  obtain ⟨n, rfl⟩ := Nat.exists_eq_succ_of_ne_zero (Nat.ne_of_gt hm)
  simp only [text, h]
  rfl

/-- A number that is not negative is written as a numeral, or it is tiny and written with an
exponent. -/
theorem text_cases {s : Bool} {m : Nat} {e : Int} (h : Normal m e) (hs : s = false ∨ m = 0) :
    ¬Tiny m e ∧ IsNumeral (finite s m e).text.toList ∨
    Tiny m e ∧ ∃ mantissa power, IsNumeral mantissa ∧ IsNumeral power ∧
      (finite s m e).text.toList = mantissa ++ 'e' :: '-' :: power := by
  cases hwhole : (finite s m e).natAbs? with
  | some n =>
    left
    rw [text_whole hs hwhole, String.toList_ofList]
    exact ⟨not_tiny_of_natAbs? hwhole, .whole Nat.toDigits_ne_nil (isDecimal_toDigits n)⟩
  | none =>
    have hpart : ¬0 ≤ e ∧ 0 < m := by
      simp only [natAbs?, fraction] at hwhole
      split at hwhole
      · simp [Nat.mod_one] at hwhole
      · refine ⟨‹_›, Nat.pos_of_ne_zero ?_⟩
        rintro rfl
        simp at hwhole
    obtain ⟨he, hm⟩ := hpart
    obtain rfl : s = false := hs.resolve_right (Nat.ne_of_gt hm)
    obtain ⟨k, hk, rfl⟩ := exists_eq_neg he
    obtain ⟨hdigits, hleast, hle⟩ := shortest_bounds hm h.lt hk
    rw [text_part hm hwhole, String.toList_ofList]
    rcases lt_or_ge (magnitude m (-(k : ℤ))) (1 / 10000) with hlt | hge
    · exact .inr ⟨⟨hm, hlt⟩, Decimal.exists_text hdigits (hle.trans_lt (half_step_lt h hlt))⟩
    · refine .inl ⟨fun htiny => absurd htiny.2 (not_lt.mpr hge), ?_⟩
      apply Decimal.isNumeral_text hdigits
      · have hpow := hleast (-4) (by norm_num at hge ⊢; exact hge)
        norm_num at hpow ⊢
        exact hpow
      · exact hle.trans_lt (half_step_lt_limit h.lt k)

end Number

/-! ## Tokens -/

/-- A numeral is followed by a mark, a minus sign and another numeral. -/
theorem spaced_exponent {mantissa power : List Char} (hm : IsNumeral mantissa)
    (hp : IsNumeral power) : Spaced (mantissa ++ 'e' :: '-' :: power)
      [⟨.number, mantissa, .number hm⟩, .word "e" (by decide), .symbol .minus,
        ⟨.number, power, .number hp⟩] := by
  have hpower : Spaced power [⟨.number, power, .number hp⟩] :=
    .last ⟨.number, power, .number hp⟩
  have hequals : '=' ∉ power.head? := by
    obtain ⟨c, cs, rfl, hc⟩ := Piece.exists_cons_of_isNumeral hp
    intro heq
    cases heq
    exact absurd hc (by decide)
  have hends : Ends .number mantissa ('e' :: '-' :: power) := by
    intro c hc
    cases hc
    exact ⟨by decide, by decide, by rintro ⟨⟩⟩
  exact .touch ⟨.number, mantissa, .number hm⟩ hends
    (.word (s := "e") (by decide) (.symbol .minus hequals hpower))

theorem tokenize_numeral {source : String} (h : IsNumeral source.toList) (file : String) :
    ∃ u, tokenize file source = .ok [u] ∧ u.kind = .number ∧ u.lexeme = source := by
  have hspaced : Spaced source.toList [.numeral source h] := .last (.numeral source h)
  have hlast : ∀ l ∈ [Lexeme.numeral source h].getLast?, ¬l.EndsInEscapedBlank := by
    intro l hl
    cases hl
    exact Lexeme.not_endsInEscapedBlank (Piece.not_mem_backslash_numeral h)
  obtain ⟨us, hscan, htokens⟩ := hspaced.exists_tokenize hlast file
  rcases htokens with _ | ⟨hu, ⟨⟩⟩
  exact ⟨_, hscan, hu.kind, hu.lexeme_numeral⟩

theorem tokenize_exponent {source : String} {mantissa power : List Char} (hm : IsNumeral mantissa)
    (hp : IsNumeral power) (h : source.toList = mantissa ++ 'e' :: '-' :: power) (file : String) :
    ∃ us, tokenize file source = .ok us ∧
      us.map Token.kind = [.number, .identifier, .symbol .minus, .number] ∧
      us.flatMap (·.lexeme.toList) = source.toList := by
  have hspaced := spaced_exponent hm hp
  rw [← h] at hspaced
  have hlast : ¬Lexeme.EndsInEscapedBlank ⟨.number, power, .number hp⟩ :=
    Lexeme.not_endsInEscapedBlank (Piece.not_mem_backslash_numeral hp)
  obtain ⟨us, hscan, htokens⟩ := hspaced.exists_tokenize (by
    intro l hl
    cases hl
    exact hlast) file
  refine ⟨us, hscan, ?_⟩
  rcases htokens with _ | ⟨hmantissa, _ | ⟨hmark, _ | ⟨hminus, _ | ⟨hpower, ⟨⟩⟩⟩⟩⟩
  constructor
  · simp only [List.map, hmantissa.kind, hmark.kind, hminus.kind, hpower.kind]
    rfl
  · simp only [List.flatMap_cons, List.flatMap_nil, hmantissa.lexeme, hmark.lexeme, hminus.lexeme,
      hpower.lexeme, h]
    simp [Lexeme.word, Lexeme.symbol, Symbol.chars]

theorem render_number (unit : String) {x : Number} {lexeme : String} {location : Location} :
    render unit [⟨.number x, lexeme, location⟩] = lexeme := by
  simp [render, renderFrom, Gap.text, Token.text]

/-- A number made by hand that is finite and not negative is written as a numeral, and then scanned
back to one number that is written alike, unless it lies between zero and a ten-thousandth. In that
case it is written with an exponent, and scanned to four tokens. -/
theorem tokenize_render_number {s : Bool} {m : Nat} {e : Int} (h : Number.Normal m e)
    (hs : s = false ∨ m = 0) (file unit : String) (location : Location) :
    let t := Token.make (.number (.finite s m e)) none location
    (IsNumeral t.lexeme.toList ↔ m = 0 ∨ 1 / 10000 ≤ Number.magnitude m e) ∧
    (m = 0 ∨ 1 / 10000 ≤ Number.magnitude m e → ∃ u, tokenize file (render unit [t]) = .ok [u] ∧
      u.kind = .number ∧ u.lexeme = t.lexeme) ∧
    (0 < m → Number.magnitude m e < 1 / 10000 → ∃ us, tokenize file (render unit [t]) = .ok us ∧
      us.map Token.kind = [.number, .identifier, .symbol .minus, .number] ∧
      us.flatMap (·.lexeme.toList) = t.lexeme.toList) := by
  intro t
  have hrender : render unit [t] = t.lexeme := render_number unit
  have hplain : m = 0 ∨ 1 / 10000 ≤ Number.magnitude m e ↔ ¬Number.Tiny m e := by
    rw [Number.Tiny, not_and_or, not_lt, not_lt, Nat.le_zero]
  rw [hrender, hplain]
  rcases Number.text_cases h hs with ⟨hlarge, hnumeral⟩ | ⟨htiny, mantissa, power, hm, hp, htext⟩
  · have hnumeral : IsNumeral t.lexeme.toList := hnumeral
    exact ⟨⟨fun _ => hlarge, fun _ => hnumeral⟩, fun _ => tokenize_numeral hnumeral file,
      fun hm hlt => absurd ⟨hm, hlt⟩ hlarge⟩
  · have htext : t.lexeme.toList = mantissa ++ 'e' :: '-' :: power := htext
    have hnumeral : ¬IsNumeral t.lexeme.toList := by
      intro hnumeral
      have hmark : 'e' ∉ t.lexeme.toList := hnumeral.not_mem (by decide) (by decide)
      simp [htext] at hmark
    exact ⟨⟨fun h => absurd h hnumeral, fun hlarge => absurd htiny hlarge⟩,
      fun hlarge => absurd htiny hlarge, fun _ _ => tokenize_exponent hm hp htext file⟩

/-- A ten-thousandth and the value just below it. -/
theorem tokenize_render_number_boundary :
    let t := Token.make (.number (.finite false 7378697629483821 (-66))) none .unknown
    let t' := Token.make (.number (.finite false 7378697629483820 (-66))) none .unknown
    (t.lexeme = "0.0001" ∧ ∃ u, tokenize "f" (render "\t" [t]) = .ok [u] ∧
      u.kind = .number ∧ u.lexeme = t.lexeme) ∧
    (t'.lexeme = "9.999999999999999e-05" ∧ ∃ us, tokenize "f" (render "\t" [t']) = .ok us ∧
      us.map Token.kind = [.number, .identifier, .symbol .minus, .number] ∧
      us.flatMap (·.lexeme.toList) = t'.lexeme.toList) := by
  have hread : Number.ofDecimal false 1 (-4) = .finite false 7378697629483821 (-66) := by
    decide +kernel
  have hread' : Number.ofDecimal false 9999999999999999 (-20) =
      .finite false 7378697629483820 (-66) := by
    decide +kernel
  have hlarge : (1 / 10000 : ℚ) ≤ Number.magnitude 7378697629483821 (-66) := by
    norm_num [Number.magnitude]
  have htiny : Number.magnitude 7378697629483820 (-66) < 1 / 10000 := by
    norm_num [Number.magnitude]
  intro t t'
  refine ⟨⟨by decide +kernel, ?_⟩, by decide +kernel, ?_⟩
  · have hnormal := Number.normal_ofDecimal hread
    exact (tokenize_render_number hnormal (.inl rfl) "f" "\t" .unknown).2.1 (.inr hlarge)
  · have hnormal := Number.normal_ofDecimal hread'
    exact (tokenize_render_number hnormal (.inl rfl) "f" "\t" .unknown).2.2 (by decide) htiny

/-- A hundred-thousandth is not written as it would be in a source text. -/
theorem hundred_thousandth_not_numeral : ∃ x, Number.ofString? "1e-05" = some x ∧
    let t := Token.make (.number x) none .unknown
    t.lexeme = "1e-05" ∧ ¬IsNumeral t.lexeme.toList ∧ tokenize "f" (render "  " [t]) = .ok
      [⟨.number (.ofNumeral ['1']), "1", ⟨"f", 1, 1, 0⟩⟩, ⟨.identifier "e", "e", ⟨"f", 1, 2, 1⟩⟩,
       ⟨.symbol .minus .none, "-", ⟨"f", 1, 3, 2⟩⟩,
       ⟨.number (.ofNumeral ['0', '5']), "05", ⟨"f", 1, 4, 3⟩⟩] := by
  refine ⟨.finite false 5902958103587057 (-69), by decide +kernel, ?_⟩
  intro t
  have hlexeme : t.lexeme = "1e-05" := by decide +kernel
  refine ⟨hlexeme, ?_, eq_ok_of_toOption (by decide +kernel)⟩
  intro hnumeral
  have hmark : 'e' ∉ t.lexeme.toList := hnumeral.not_mem (by decide) (by decide)
  rw [hlexeme] at hmark
  exact hmark (by decide)

end TraitMarkup
