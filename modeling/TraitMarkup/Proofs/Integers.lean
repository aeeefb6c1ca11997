import Mathlib.Data.List.Induction
import Mathlib.Data.List.TakeWhile
import Mathlib.Data.Nat.Digits.Defs
import TraitMarkup.Proofs.ExpressionText

/-!
# The integers that words spell

What a bare word means, stated without the reader: `Unsigned.IsSpelling` says which texts are digits
after an optional plus sign, with blanks around them, and `Unsigned.decimal` which number the digits
stand for, each in its place. The reader finds exactly these spellings (`Unsigned.digits?_eq_some`) and
exactly these numbers (`Unsigned.valueOf_eq`), and gives up on those with too many digits.
-/

namespace TraitMarkup

/-! ## Texts with blanks around them -/

namespace Text

theorem exists_trim_append (cs : List Char) : ∃ before after, cs = before ++ trim cs ++ after ∧
    (∀ c ∈ before, isBlank c) ∧ ∀ c ∈ after, isBlank c := by
  obtain ⟨after, hafter, hblank⟩ := exists_trimEnd_append (cs.dropWhile isBlank)
  refine ⟨cs.takeWhile isBlank, after, ?_, List.all_eq_true.mp List.all_takeWhile, hblank⟩
  rw [trim, List.append_assoc, ← hafter, List.takeWhile_append_dropWhile]

/-- What starts and ends with no blank is all that trimming leaves. -/
theorem trim_append {before core after : List Char} (hbefore : ∀ c ∈ before, isBlank c)
    (hafter : ∀ c ∈ after, isBlank c) (hfirst : ∀ c ∈ core.head?, isBlank c = false)
    (hlast : ∀ c ∈ core.getLast?, isBlank c = false) : trim (before ++ core ++ after) = core := by
  rcases List.eq_nil_or_concat core with rfl | ⟨init, c, rfl⟩
  · have hall : ∀ c ∈ before ++ [] ++ after, isBlank c := by
      simpa [or_imp, forall_and] using ⟨hbefore, hafter⟩
    rw [trim, List.dropWhile_eq_nil_iff.mpr hall]
    rfl
  · rw [List.concat_eq_append] at hfirst hlast ⊢
    have hdrop : (init ++ [c] ++ after).dropWhile isBlank = init ++ [c] ++ after := by
      obtain ⟨d, ds, hcons⟩ := List.exists_cons_of_ne_nil (show init ++ [c] ≠ [] by simp)
      rw [hcons] at hfirst ⊢
      exact List.dropWhile_cons_of_neg (by simp [hfirst d rfl])
    rw [trim, List.append_assoc, List.dropWhile_append_of_pos hbefore, hdrop, trimEnd_append hafter]
    exact trimEnd_concat_solid (hlast c (by simp)) init

end Text

namespace Unsigned

/-! ## Spellings -/

/-- A text is the given digits from `0` to `9`, of which there are some, perhaps after a plus sign,
with blanks around them. -/
structure IsSpelling (text : String) (digits : List Char) : Prop where
  nonempty : digits ≠ []
  range : ∀ c ∈ digits, '0' ≤ c ∧ c ≤ '9'
  layout : ∃ before sign after, text.toList = before ++ (sign ++ digits) ++ after ∧
    (sign = [] ∨ sign = ['+']) ∧ (∀ c ∈ before, Text.isBlank c) ∧ ∀ c ∈ after, Text.isBlank c

theorem isDigit_iff {c : Char} : c.isDigit ↔ '0' ≤ c ∧ c ≤ '9' := by
  simp [Char.isDigit, Char.le_def]

theorem IsSpelling.isDigit {text : String} {digits : List Char} (h : IsSpelling text digits) :
    ∀ c ∈ digits, c.isDigit := fun c hc => isDigit_iff.mpr (h.range c hc)

theorem not_isBlank_of_isDigit {c : Char} (h : c.isDigit) : Text.isBlank c = false :=
  Text.not_isBlank_of_isDecimal (Text.isDecimal_of_isDigit h)

theorem IsSpelling.trim_eq {text : String} {digits : List Char} (h : IsSpelling text digits) :
    Text.trim text.toList = digits ∨ Text.trim text.toList = '+' :: digits := by
  obtain ⟨before, sign, after, htext, hsign, hbefore, hafter⟩ := h.layout
  have hlast : ∀ c ∈ (sign ++ digits).getLast?, Text.isBlank c = false := by
    intro c hc
    rw [List.getLast?_append_of_ne_nil _ h.nonempty] at hc
    exact not_isBlank_of_isDigit (h.isDigit c (List.mem_of_getLast? hc))
  have hfirst : ∀ c ∈ (sign ++ digits).head?, Text.isBlank c = false := by
    intro c hc
    rcases hsign with rfl | rfl
    · exact not_isBlank_of_isDigit (h.isDigit c (List.mem_of_head? hc))
    · cases hc
      rfl
  rw [htext, Text.trim_append hbefore hafter hfirst hlast]
  rcases hsign with rfl | rfl
  · exact .inl rfl
  · exact .inr rfl

/-- The reader finds the digits of every spelling, and of nothing else. -/
theorem digits?_eq_some {text : String} {digits : List Char} :
    digits? text.toList = some digits ↔ IsSpelling text digits := by
  constructor
  · intro h
    obtain ⟨before, after, htext, hbefore, hafter⟩ := Text.exists_trim_append text.toList
    simp only [digits?, Option.ite_none_right_eq_some, Option.some.injEq] at h
    obtain ⟨⟨hne, hall⟩, hdigits⟩ := h
    rw [hdigits] at hne hall
    refine ⟨hne, fun c hc => isDigit_iff.mp (List.all_eq_true.mp hall c hc), before, ?_⟩
    split at hdigits
    · rename_i ds htrim
      subst hdigits
      rw [htrim] at htext
      exact ⟨['+'], after, htext, .inr rfl, hbefore, hafter⟩
    · subst hdigits
      exact ⟨[], after, htext, .inl rfl, hbefore, hafter⟩
  · intro h
    have hall : digits ≠ [] ∧ digits.all Char.isDigit :=
      ⟨h.nonempty, List.all_eq_true.mpr h.isDigit⟩
    rw [digits?]
    rcases h.trim_eq with htrim | htrim
    · rw [htrim]
      split
      · exact absurd (h.isDigit '+' List.mem_cons_self) (by decide)
      · exact if_pos hall
    · rw [htrim]
      exact if_pos hall

/-! ## Values -/

/-- The number that digits stand for in base ten, the last of them for units. -/
def decimal (digits : List Char) : Nat :=
  Nat.ofDigits 10 (digits.reverse.map fun c => c.toNat - '0'.toNat)

theorem decimal_concat (digits : List Char) (c : Char) :
    decimal (digits ++ [c]) = 10 * decimal digits + (c.toNat - '0'.toNat) := by
  simp [decimal, Nat.ofDigits_cons, Nat.add_comm]

theorem valueOf_eq (digits : List Char) : valueOf digits = decimal digits := by
  induction digits using List.reverseRecOn with
  | nil => rfl
  | append_singleton digits c ih =>
    rw [decimal_concat, ← ih, valueOf, List.foldl_append]
    rfl

/-- A text spells the integer `n` of sixteen bits, in so few digits that it is read. -/
def Denotes (text : String) (n : Nat) : Prop :=
  ∃ digits, IsSpelling text digits ∧ digits.length ≤ 4300 ∧ decimal digits = n ∧ n ≤ 65535

/-- A text spells an integer in `k` digits, which is too many to read. -/
def Exceeds (text : String) (k : Nat) : Prop :=
  ∃ digits, IsSpelling text digits ∧ 4300 < digits.length ∧ digits.length = k

/-- A text spells no integer that could be read or would have to be refused. -/
def Foreign (text : String) : Prop := (∀ n, ¬Denotes text n) ∧ ∀ k, ¬Exceeds text k

/-! ## Reading -/

section

variable {text : String} {n k : Nat}

theorem Denotes.toNat_ofNat (h : Denotes text n) : (UInt16.ofNat n).toNat = n := by
  obtain ⟨-, -, -, -, hvalue⟩ := h
  exact UInt16.toNat_ofNat_of_lt' (Nat.lt_of_le_of_lt hvalue (by decide))

/-- There is an expression for every integer of sixteen bits. -/
theorem Denotes.ofInt (h : Denotes text n) :
    Expression.ofInt n = .ok (.int (UInt16.ofNat n)) := by
  obtain ⟨-, -, -, -, hvalue⟩ := h
  rw [Expression.ofInt, if_pos (by omega), Int.toNat_natCast]

theorem Denotes.read (h : Denotes text n) : read text = .ok (some (UInt16.ofNat n)) := by
  obtain ⟨digits, hspelling, hlength, rfl, hvalue⟩ := h
  simp only [Unsigned.read, digits?_eq_some.mpr hspelling, valueOf_eq, maxDigits]
  rw [if_neg (Nat.not_lt.mpr hlength), if_pos hvalue]

theorem Exceeds.read (h : Exceeds text k) : read text = .error ⟨k⟩ := by
  obtain ⟨digits, hspelling, hlength, rfl⟩ := h
  simp only [Unsigned.read, digits?_eq_some.mpr hspelling, maxDigits]
  exact if_pos hlength

/-- A text spells an integer of sixteen bits, or it has too many digits, or it is read as none. -/
theorem denotes_or_exceeds_or_none (text : String) :
    (∃ n, Denotes text n) ∨ (∃ k, Exceeds text k) ∨ read text = .ok none := by
  cases hdigits : digits? text.toList with
  | none =>
    right; right
    rw [read, hdigits]
  | some digits =>
    have hspelling := digits?_eq_some.mp hdigits
    by_cases hlength : 4300 < digits.length
    · exact .inr (.inl ⟨_, digits, hspelling, hlength, rfl⟩)
    · by_cases hvalue : decimal digits ≤ 65535
      · exact .inl ⟨_, digits, hspelling, Nat.not_lt.mp hlength, rfl, hvalue⟩
      · right; right
        simp only [read, hdigits, valueOf_eq, maxDigits]
        rw [if_neg hlength, if_neg hvalue]

theorem read_eq_some {u : UInt16} : read text = .ok (some u) ↔ Denotes text u.toNat := by
  constructor
  · intro h
    rcases denotes_or_exceeds_or_none text with ⟨n, hn⟩ | ⟨k, hk⟩ | hnone
    · rw [hn.read] at h
      cases h
      rwa [hn.toNat_ofNat]
    · rw [hk.read] at h
      cases h
    · rw [hnone] at h
      cases h
  · intro h
    rw [h.read, UInt16.ofNat_toNat]

theorem read_eq_error {e : TooLong} : read text = .error e ↔ Exceeds text e.digits := by
  constructor
  · intro h
    rcases denotes_or_exceeds_or_none text with ⟨n, hn⟩ | ⟨k, hk⟩ | hnone
    · rw [hn.read] at h
      cases h
    · rw [hk.read] at h
      cases h
      exact hk
    · rw [hnone] at h
      cases h
  · exact Exceeds.read

theorem read_eq_none : read text = .ok none ↔ Foreign text := by
  constructor
  · intro h
    constructor
    · intro n hn
      rw [hn.read] at h
      cases h
    · intro k hk
      rw [hk.read] at h
      cases h
  · intro ⟨hdenotes, hexceeds⟩
    rcases denotes_or_exceeds_or_none text with ⟨n, hn⟩ | ⟨k, hk⟩ | hnone
    · exact absurd hn (hdenotes n)
    · exact absurd hk (hexceeds k)
    · exact hnone

theorem expression_eq_error {e : TooLong} :
    expression text = .error e ↔ read text = .error e := by
  rw [expression]
  cases read text <;> simp [Except.map]

theorem expression_eq_ok {e : Expression} : expression text = .ok e ↔
    (∃ u, read text = .ok (some u) ∧ e = .int u) ∨ read text = .ok none ∧ e = .raw text := by
  rw [expression]
  rcases read text with err | (_ | u) <;> simp [Except.map, eq_comm]

end

/-- A text is read as an integer exactly if it spells one of sixteen bits in at most 4300 digits, it
is refused exactly if it has more digits than that, and everything else is read as none. So a word
means the integer that it spells, of which there is always an expression, or itself. -/
theorem read_iff_spelling (text : String) :
    (∀ n : Nat, (∃ u : UInt16, u.toNat = n ∧ read text = .ok (some u)) ↔ Denotes text n) ∧
    (∀ e : TooLong, read text = .error e ↔ Exceeds text e.digits) ∧
    (read text = .ok none ↔ Foreign text) ∧
    (∀ e : Expression, expression text = .ok e ↔
      (∃ n : Nat, Denotes text n ∧ Expression.ofInt n = .ok e) ∨ e = .raw text ∧ Foreign text) ∧
    (∀ e : TooLong, expression text = .error e ↔ Exceeds text e.digits) ∧
    ∀ n : Nat, Denotes text n →
      ∃ u : UInt16, u.toNat = n ∧ Expression.ofInt n = .ok (.int u) := by
  refine ⟨?_, fun e => read_eq_error, read_eq_none, ?_, ?_, ?_⟩
  · intro n
    constructor
    · intro ⟨u, hu, hread⟩
      exact hu ▸ read_eq_some.mp hread
    · intro h
      exact ⟨UInt16.ofNat n, h.toNat_ofNat, h.read⟩
  · intro e
    rw [expression_eq_ok]
    constructor
    · rintro (⟨u, hread, rfl⟩ | ⟨hread, rfl⟩)
      · have h := read_eq_some.mp hread
        refine .inl ⟨u.toNat, h, ?_⟩
        rw [h.ofInt, UInt16.ofNat_toNat]
      · exact .inr ⟨rfl, read_eq_none.mp hread⟩
    · rintro (⟨n, h, hint⟩ | ⟨rfl, hforeign⟩)
      · rw [h.ofInt] at hint
        cases hint
        exact .inl ⟨_, h.read, rfl⟩
      · exact .inr ⟨read_eq_none.mpr hforeign, rfl⟩
  · intro e
    rw [expression_eq_error, read_eq_error]
  · intro n h
    exact ⟨UInt16.ofNat n, h.toNat_ofNat, h.ofInt⟩

end Unsigned

end TraitMarkup
