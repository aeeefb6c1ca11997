import TraitMarkup.Piece

/-!
# Classes of characters

The scanner asks of a character in a fixed order whether it opens a comment, a literal, a number, a
word or a symbol, and whether it is blank. The lemmas below say that the order does not matter: the
classes are apart, so each question has the same answer wherever it stands (`Piece.read_blank`,
`Piece.read_decimal` and their neighbours).
-/

namespace TraitMarkup

namespace Text

/-! ## Tables of ranges -/

/-- Whether two tables have no code point in common, found in one pass along both. -/
def Ranges.apart : Ranges → Ranges → Bool
  | [], _ => true
  | (first, last) :: rest, others =>
    match others.dropWhile (·.2 < first) with
    | [] => true
    | next :: others => last < next.1 && apart rest (next :: others)

theorem Ranges.has_cons {first last n : Nat} {rest : Ranges} :
    Ranges.has ((first, last) :: rest) n ↔ first ≤ n ∧ (n ≤ last ∨ rest.has n) := by
  simp only [Ranges.has]
  split
  · simp; omega
  · simp; omega

/-- Ranges that end below a code point play no part in the search for it. -/
theorem Ranges.has_dropWhile {others : Ranges} {first n : Nat} (hn : first ≤ n)
    (h : others.has n) : Ranges.has (others.dropWhile (·.2 < first)) n := by
  induction others with
  | nil => exact h
  | cons range others ih =>
    rw [List.dropWhile_cons]
    split
    · rename_i hlast
      obtain ⟨-, hr | hr⟩ := has_cons.mp h
      · simp only [decide_eq_true_eq] at hlast
        omega
      · exact ih hr
    · exact h

theorem Ranges.not_has_of_apart {ranges others : Ranges} {n : Nat} (ha : ranges.apart others)
    (h : ranges.has n) : others.has n = false := by
  rw [Bool.eq_false_iff]
  intro ho
  induction ranges generalizing others with
  | nil => cases h
  | cons range rest ih =>
    obtain ⟨hfirst, hr⟩ := has_cons.mp h
    have hd := has_dropWhile hfirst ho
    simp only [apart] at ha
    split at ha
    · rename_i heq
      rw [heq] at hd
      cases hd
    · rename_i next others' heq
      rw [heq] at hd
      simp only [Bool.and_eq_true, decide_eq_true_eq] at ha
      obtain hr | hr := hr
      · have := (has_cons.mp hd).1
        omega
      · exact ih ha.2 hr hd

theorem Ranges.has_of_mem {ranges : Ranges} {range : Nat × Nat} {n : Nat}
    (ho : ranges.Pairwise (·.1 ≤ ·.1)) (hm : range ∈ ranges) (h : range.1 ≤ n ∧ n ≤ range.2) :
    ranges.has n := by
  induction ho with
  | nil => cases hm
  | cons hfirst _ ih =>
    obtain rfl | hm := List.mem_cons.mp hm
    · exact has_cons.mpr ⟨h.1, .inl h.2⟩
    · exact has_cons.mpr ⟨Nat.le_trans (hfirst _ hm) h.1, .inr (ih hm)⟩

/-- The decimal digits as a table. -/
def decimalRanges : Ranges := zeroDigits.map fun z => (z, z + 9)

theorem has_decimalRanges {c : Char} (h : isDecimal c) : decimalRanges.has c.toNat := by
  simp only [isDecimal, decimalValue?, Option.isSome_map, List.find?_isSome] at h
  obtain ⟨z, hz, hc⟩ := h
  have ho : zeroDigits.Pairwise (· ≤ ·) := by decide +kernel
  refine Ranges.has_of_mem ?_ (List.mem_map_of_mem hz) (by simpa using hc)
  exact ho.map _ fun _ _ hle => hle

/-! ## Blanks, digits and letters are apart -/

variable {c : Char}

theorem not_isLetter_of_isBlank (h : isBlank c) : isLetter c = false := by
  have ha : blankRanges.apart letterRanges := by decide +kernel
  exact Ranges.not_has_of_apart ha h

theorem not_isNumeral_of_isBlank (h : isBlank c) : isNumeral c = false := by
  have ha : blankRanges.apart numeralRanges := by decide +kernel
  exact Ranges.not_has_of_apart ha h

theorem not_isLetter_of_isDecimal (h : isDecimal c) : isLetter c = false := by
  have ha : decimalRanges.apart letterRanges := by decide +kernel
  exact Ranges.not_has_of_apart ha (has_decimalRanges h)

theorem not_isBlank_of_isDecimal (h : isDecimal c) : isBlank c = false := by
  have ha : decimalRanges.apart blankRanges := by decide +kernel
  exact Ranges.not_has_of_apart ha (has_decimalRanges h)

end Text

/-- A character of a class is none outside it. -/
theorem ne_of_class {p : Char → Bool} {c d : Char} (h : p c) (hd : p d = false) : c ≠ d := by
  rintro rfl
  rw [h] at hd
  cases hd

/-- Where a class excludes another, the other excludes it. -/
theorem not_class_of_class {p q : Char → Bool} {c : Char} (h : p c → q c = false) (hq : q c) :
    p c = false := by
  rw [Bool.eq_false_iff]
  intro hp
  rw [h hp] at hq
  cases hq

namespace Word

variable {c : Char}

theorem not_isContinue_of_isBlank (h : Text.isBlank c) : isContinue c = false := by
  have hu : c ≠ '_' := ne_of_class h (by decide)
  have hl : c ≠ '(' := ne_of_class h (by decide)
  have hr : c ≠ ')' := ne_of_class h (by decide)
  simp [isContinue, Text.not_isLetter_of_isBlank h, Text.not_isNumeral_of_isBlank h, hu, hl, hr]

theorem not_isBlank_of_isContinue (h : isContinue c) : Text.isBlank c = false :=
  not_class_of_class not_isContinue_of_isBlank h

theorem not_isStart_of_isDecimal (h : Text.isDecimal c) : isStart c = false := by
  have hu : c ≠ '_' := ne_of_class h (by decide)
  simp [isStart, Text.not_isLetter_of_isDecimal h, hu]

theorem not_isStart_of_isBlank (h : Text.isBlank c) : isStart c = false :=
  not_class_of_class (fun hs => not_isBlank_of_isContinue (isContinue_of_isStart hs)) h

end Word

namespace Symbol

theorem ofChar?_eq_some {c : Char} {s : Symbol} : ofChar? c = some s ↔ s.chars = [c] := by
  constructor
  · intro h
    unfold ofChar? at h
    split at h <;> cases h <;> rfl
  · cases s <;> rintro ⟨⟩ <;> rfl

theorem chars_withEquals? {s joined : Symbol} (h : s.withEquals? = some joined) :
    joined.chars = s.chars ++ ['='] := by
  cases s <;> cases h <;> rfl

/-- A symbol is one character, or one that joins with an equals sign after it. -/
theorem chars_cases (s : Symbol) :
    (∃ c, s.chars = [c]) ∨ ∃ (t : Symbol) (c : Char), t.withEquals? = some s ∧ t.chars = [c] := by
  cases s with
  | equalTo => exact .inr ⟨.equals, _, rfl, rfl⟩
  | atMost => exact .inr ⟨.leftAngle, _, rfl, rfl⟩
  | atLeast => exact .inr ⟨.rightAngle, _, rfl, rfl⟩
  | notEqual => exact .inr ⟨.bang, _, rfl, rfl⟩
  | _ => exact .inl ⟨_, rfl⟩

/-- Symbols are made of characters that no other rule looks for. -/
theorem of_mem_chars {s : Symbol} {c : Char} (h : c ∈ s.chars) :
    c ≠ '#' ∧ c ≠ '\n' ∧ c ≠ '"' ∧ c ≠ '\'' ∧ c ≠ '\\' ∧ Text.isDecimal c = false ∧
      Word.isStart c = false ∧ Text.isBlank c = false := by
  have hall : s.chars.all fun c => c != '#' && c != '\n' && c != '"' && c != '\'' && c != '\\' &&
      !Text.isDecimal c && !Word.isStart c && !Text.isBlank c := by
    cases s <;> decide
  simpa [and_assoc] using List.all_eq_true.mp hall c h

theorem ofChar?_of_isBlank {c : Char} (h : Text.isBlank c) : ofChar? c = none := by
  rw [Option.eq_none_iff_forall_ne_some]
  intro s hs
  have hmem : c ∈ s.chars := by simp [ofChar?_eq_some.mp hs]
  have := of_mem_chars hmem
  simp [h] at this

end Symbol

/-! ## What a piece that starts with a given character is -/

namespace Piece

variable {c : Char} (rest : List Char)

theorem read_hash : read '#' rest =
    (.comment ('#' :: rest.takeWhile (· != '\n')), rest.dropWhile (· != '\n')) := rfl

theorem read_newline : read '\n' rest = (.newline, rest) := rfl

theorem read_quote (h : c = '"' ∨ c = '\'') : read c rest = readLiteral c rest := by
  obtain rfl | rfl := h <;> rfl

theorem read_decimal (h : Text.isDecimal c) : read c rest = readNumber (c :: rest) := by
  have hh : c ≠ '#' := ne_of_class h (by decide)
  have hn : c ≠ '\n' := ne_of_class h (by decide)
  have hd : c ≠ '"' := ne_of_class h (by decide)
  have hs : c ≠ '\'' := ne_of_class h (by decide)
  simp [read, hh, hn, hd, hs, h]

theorem read_backslash : read '\\' rest = readWord [] ('\\' :: rest) := rfl

theorem read_start (h : Word.isStart c) : read c rest = readWord [] (c :: rest) := by
  have hh : c ≠ '#' := ne_of_class h (by decide)
  have hn : c ≠ '\n' := ne_of_class h (by decide)
  have hd : c ≠ '"' := ne_of_class h (by decide)
  have hs : c ≠ '\'' := ne_of_class h (by decide)
  have hdec : Text.isDecimal c = false := not_class_of_class Word.not_isStart_of_isDecimal h
  simp [read, hh, hn, hd, hs, hdec, h]

theorem read_symbol {s : Symbol} (h : s.chars = [c]) : read c rest = readSymbol s rest := by
  have hmem : c ∈ s.chars := by simp [h]
  obtain ⟨hh, hn, hd, hs, hb, hdec, hstart, -⟩ := Symbol.of_mem_chars hmem
  simp [read, hh, hn, hd, hs, hb, hdec, hstart, Symbol.ofChar?_eq_some.mpr h]

theorem read_blank (h : Text.isBlank c) (hn : c ≠ '\n') : read c rest = (.blank c, rest) := by
  have hh : c ≠ '#' := ne_of_class h (by decide)
  have hd : c ≠ '"' := ne_of_class h (by decide)
  have hs : c ≠ '\'' := ne_of_class h (by decide)
  have hb : c ≠ '\\' := ne_of_class h (by decide)
  have hdec : Text.isDecimal c = false := not_class_of_class Text.not_isBlank_of_isDecimal h
  simp [read, hh, hn, hd, hs, hb, hdec, Word.not_isStart_of_isBlank h, Symbol.ofChar?_of_isBlank h,
    h]

end Piece

end TraitMarkup
