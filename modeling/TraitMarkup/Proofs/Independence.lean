import TraitMarkup.Proofs.ExpressionText
import TraitMarkup.Proofs.LineByLine

/-!
# Lines by themselves

What a source gives for one of its lines comes from the text of that line alone
(`Extraction.ofLine`), with one exception. A bare word that spells an integer with too many digits
cannot be read at all, and it is not only the line with such a word (`Overlong`) that is lost, but
every line after it.
-/

namespace TraitMarkup

variable {file text : String} {ts : List Token}

/-! ## Integers with too many digits -/

theorem Unsigned.expression_of_digits {ds : List Char} (h : digits? text.toList = some ds)
    (hlong : maxDigits < ds.length) : expression text = .error ⟨ds.length⟩ := by
  rw [expression, read, h]
  simp only [if_pos hlong]
  rfl

theorem Phrase.word_tooLong {e : Unsigned.TooLong} (h : Unsigned.expression text = .error e) :
    word text ts = .error ⟨.tooLong e, ts⟩ := by
  rw [word, h]

/-- A word with too many digits stops a reduction that comes to it. -/
theorem Standalone.exists_tooLong {ds : List Char} (h : Standalone ts text)
    (hds : Unsigned.digits? text.toList = some ds) (hlong : Unsigned.maxDigits < ds.length) :
    ∃ e, reduce ts = .error (.tooLong e) := by
  have herror := Unsigned.expression_of_digits hds hlong
  induction h with
  | @name t text rest ht halone =>
    have hread : Phrase.read t rest = .error ⟨.tooLong ⟨ds.length⟩, rest⟩ := by
      rw [Phrase.read_name ht, Phrase.name_alone halone, Phrase.word_tooLong herror]
    exact ⟨_, reduce_cons_error hread⟩
  | @number t rest ht =>
    have hread : Phrase.read t rest = .error ⟨.tooLong ⟨ds.length⟩, rest⟩ := by
      rw [Phrase.read_number ht, Phrase.word_tooLong herror]
    exact ⟨_, reduce_cons_error hread⟩
  | later hforms _ ih =>
    obtain ⟨e, he⟩ := ih hds herror
    obtain ⟨t, us, rfl, hread⟩ := Phrase.read_of_forms hforms
    refine ⟨e, ?_⟩
    rw [List.cons_append, reduce_cons_ok hread, he]
    rfl

/-- Nothing else stops a reduction in this way. -/
theorem exists_standalone_of_tooLong {e : Unsigned.TooLong} (h : reduce ts = .error (.tooLong e)) :
    ∃ word ds, Standalone ts word ∧ Unsigned.digits? word.toList = some ds ∧
      Unsigned.maxDigits < ds.length := by
  rcases phrases_or_error ts with ⟨ps, hps⟩ | ⟨err, herr, -⟩ | hlong
  · rw [hps.reduce_eq] at h
    cases h
  · rw [herr] at h
    cases h
  · exact hlong

/-! ## Lines that cannot be looked at -/

/-- A line with a bare word, where an expression has to start, that spells an integer with more
digits than are read. -/
def Overlong (file text : String) : Prop :=
  ∃ line word digits, scanLine file text = .ok line ∧ Standalone line.members word ∧
    Unsigned.digits? word.toList = some digits ∧ 4300 < digits.length

theorem overlong_iff : Overlong file text ↔ ∃ e, extractLine file text = .error (.tooLong e) := by
  unfold extractLine
  constructor
  · rintro ⟨line, word, ds, hscan, halone, hds, hlong⟩
    obtain ⟨e, he⟩ := halone.exists_tooLong hds hlong
    exact ⟨e, by simp only [hscan, reduceLine_eq_error he]⟩
  · rintro ⟨e, he⟩
    cases hscan : scanLine file text with
    | error err =>
      simp only [hscan] at he
      cases he
    | ok line =>
      simp only [hscan] at he
      cases hreduce : reduce line.members with
      | ok xs =>
        obtain ⟨hne, hline⟩ := reduceLine_eq_ok hreduce
        simp only [hline] at he
        cases he
      | error failure =>
        simp only [reduceLine_eq_error hreduce] at he
        cases failure with
        | refused err => cases he
        | tooLong err =>
          obtain ⟨word, ds, halone, hds, hlong⟩ := exists_standalone_of_tooLong hreduce
          exact ⟨line, word, ds, hscan, halone, hds, hlong⟩

instance (file text : String) : Decidable (Overlong file text) :=
  match h : extractLine file text with
  | .error (.tooLong e) => isTrue (overlong_iff.mpr ⟨e, h⟩)
  | .error (.line f) => isFalse fun hlong => by
    obtain ⟨e, he⟩ := overlong_iff.mp hlong
    cases h.symm.trans he
  | .ok l => isFalse fun hlong => by
    obtain ⟨e, he⟩ := overlong_iff.mp hlong
    cases h.symm.trans he

/-- A line that is nothing but too many digits. -/
theorem overlong_of_isDigit (h : ∀ c ∈ text.toList, c.isDigit) (hlong : 4300 < text.toList.length)
    (file : String) : Overlong file text := by
  have hne : text.toList ≠ [] := List.ne_nil_of_length_pos (by omega)
  have hnumeral : IsNumeral text.toList :=
    .whole hne fun c hc => Text.isDecimal_of_isDigit (h c hc)
  have hmember : MemberText text.toList [.numeral text hnumeral] :=
    .of_ends (.last (.numeral text hnumeral)) (by simp [Lexeme.numeral]) rfl
      (Lexeme.not_endsInEscapedBlank (Piece.not_mem_backslash_numeral hnumeral))
  obtain ⟨⟨indent, members, hmembers⟩, hscan, -, htokens⟩ :=
    hmember.exists_scanLine (n := 0) rfl file
  have hdigits : Unsigned.digits? text.toList = some text.toList := by
    rw [Unsigned.digits?_eq]
    · exact if_pos ⟨hne, List.all_eq_true.mpr h⟩
    · exact fun c hc => Text.not_isBlank_of_isDecimal (Text.isDecimal_of_isDigit (h c hc))
    · exact fun hplus => absurd (h _ hplus) (by decide)
  cases htokens with
  | @cons u _ us _ hu hnil =>
    cases hnil
    have hword := Standalone.number [] hu.kind
    rw [hu.lexeme_numeral] at hword
    exact ⟨_, text, text.toList, hscan, hword, hdigits, hlong⟩

/-! ## Extracting line by line -/

namespace Extraction

/-- What a numbered line gives. -/
def ofLine (file : String) (line : Nat × String) :
    List (Nat × Except LineFailure (Line Expression)) :=
  match extractLine file line.2 with
  | .ok l => [(line.1, .ok l)]
  | .error (.line f) => if f.isBlank then [] else [(line.1, .error f)]
  | .error (.tooLong _) => []

/-- What an extraction gives for the line of a number. -/
def pairsOf (x : Extraction) (number : Nat) : List (Nat × Except LineFailure (Line Expression)) :=
  x.lines.filter (·.1 == number)

variable {line : Nat × String} {ls rest : List (Nat × String)}

theorem ofLines_overlong (h : Overlong file line.2) (rest : List (Nat × String)) :
    (ofLines file (line :: rest)).lines = [] ∧ (ofLines file (line :: rest)).stop ≠ none := by
  obtain ⟨e, he⟩ := overlong_iff.mp h
  rw [ofLines, he]
  exact ⟨rfl, nofun⟩

theorem ofLine_overlong (h : Overlong file line.2) : ofLine file line = [] := by
  obtain ⟨e, he⟩ := overlong_iff.mp h
  rw [ofLine, he]

theorem ofLines_cons (h : ¬Overlong file line.2) (rest : List (Nat × String)) :
    (ofLines file (line :: rest)).lines = ofLine file line ++ (ofLines file rest).lines ∧
      (ofLines file (line :: rest)).stop = (ofLines file rest).stop := by
  rw [ofLines, ofLine]
  cases hline : extractLine file line.2 with
  | ok l => exact ⟨rfl, rfl⟩
  | error failure =>
    cases failure with
    | line f =>
      cases hblank : f.isBlank with
      | true => simp [hblank]
      | false => simp [hblank]
    | tooLong e => exact absurd (overlong_iff.mpr ⟨e, hline⟩) h

theorem stop_ofLines : (ofLines file ls).stop = none ↔ ∀ line ∈ ls, ¬Overlong file line.2 := by
  induction ls with
  | nil => simp [ofLines]
  | cons line ls ih =>
    rw [List.forall_mem_cons]
    by_cases h : Overlong file line.2
    · exact iff_of_false (ofLines_overlong h ls).2 fun hall => hall.1 h
    · rw [(ofLines_cons h ls).2, ih]
      exact (and_iff_right h).symm

theorem number_of_mem_ofLine {p : Nat × Except LineFailure (Line Expression)}
    (h : p ∈ ofLine file line) : p.1 = line.1 := by
  unfold ofLine at h
  split at h
  · cases List.mem_singleton.mp h
    rfl
  · split at h
    · cases h
    · cases List.mem_singleton.mp h
      rfl
  · cases h

theorem filter_ofLine_self (file : String) (line : Nat × String) :
    (ofLine file line).filter (·.1 == line.1) = ofLine file line := by
  rw [List.filter_eq_self]
  intro p hp
  exact beq_iff_eq.mpr (number_of_mem_ofLine hp)

theorem filter_ofLine_other {number : Nat} (h : line.1 ≠ number) :
    (ofLine file line).filter (·.1 == number) = [] := by
  rw [List.filter_eq_nil_iff]
  intro p hp hnumber
  exact h ((number_of_mem_ofLine hp).symm.trans (beq_iff_eq.mp hnumber))

variable {number : Nat}

theorem pairsOf_overlong (h : Overlong file line.2) (rest : List (Nat × String)) :
    (ofLines file (line :: rest)).pairsOf number = [] := by
  rw [pairsOf, (ofLines_overlong h rest).1]
  rfl

theorem pairsOf_cons (h : ¬Overlong file line.2) (rest : List (Nat × String)) :
    (ofLines file (line :: rest)).pairsOf number =
      (ofLine file line).filter (·.1 == number) ++ (ofLines file rest).pairsOf number := by
  rw [pairsOf, (ofLines_cons h rest).1, List.filter_append]
  rfl

/-- Other lines give nothing for the line of a number. -/
theorem pairsOf_eq_nil (h : ∀ line ∈ ls, line.1 ≠ number) :
    (ofLines file ls).pairsOf number = [] := by
  induction ls with
  | nil => rfl
  | cons line ls ih =>
    obtain ⟨hline, hls⟩ := List.forall_mem_cons.mp h
    by_cases hlong : Overlong file line.2
    · exact pairsOf_overlong hlong ls
    · rw [pairsOf_cons hlong, filter_ofLine_other hline, ih hls]
      rfl

/-- They do not get into its way either, unless one before it cannot be looked at. -/
theorem pairsOf_append (h : ∀ line ∈ ls, line.1 ≠ number)
    (hshort : ∀ line ∈ ls, ¬Overlong file line.2) (rest : List (Nat × String)) :
    (ofLines file (ls ++ rest)).pairsOf number = (ofLines file rest).pairsOf number := by
  induction ls with
  | nil => rfl
  | cons line ls ih =>
    obtain ⟨hline, hls⟩ := List.forall_mem_cons.mp h
    obtain ⟨hlong, hshort⟩ := List.forall_mem_cons.mp hshort
    rw [List.cons_append, pairsOf_cons hlong, filter_ofLine_other hline, ih hls hshort]
    rfl

theorem pairsOf_append_overlong (h : ∀ line ∈ ls, line.1 ≠ number)
    (hlong : ∃ line ∈ ls, Overlong file line.2) (rest : List (Nat × String)) :
    (ofLines file (ls ++ rest)).pairsOf number = [] := by
  induction ls with
  | nil =>
    obtain ⟨line, hmem, -⟩ := hlong
    cases hmem
  | cons line ls ih =>
    obtain ⟨hline, hls⟩ := List.forall_mem_cons.mp h
    by_cases hfirst : Overlong file line.2
    · exact pairsOf_overlong hfirst (ls ++ rest)
    · have hlater : ∃ other ∈ ls, Overlong file other.2 := by
        obtain ⟨other, hmem, hother⟩ := hlong
        rcases List.mem_cons.mp hmem with rfl | hmem
        · exact absurd hother hfirst
        · exact ⟨other, hmem, hother⟩
      rw [List.cons_append, pairsOf_cons hfirst, filter_ofLine_other hline, ih hls hlater]
      rfl

theorem pairsOf_self (h : ∀ other ∈ rest, other.1 ≠ line.1) :
    (ofLines file (line :: rest)).pairsOf line.1 = ofLine file line := by
  by_cases hlong : Overlong file line.2
  · rw [pairsOf_overlong hlong, ofLine_overlong hlong]
  · rw [pairsOf_cons hlong, filter_ofLine_self, pairsOf_eq_nil h, List.append_nil]

end Extraction

/-! ## The lines of a source -/

section

variable {source : String} {k i : Nat} {line : Nat × String}

theorem getElem?_numberedLines (source : String) (i : Nat) : (numberedLines source)[i]? =
    (Text.lines source.toList)[i]?.map fun a => (i + 1, String.ofList a) := by
  rw [numberedLines, List.getElem?_mapIdx]

theorem number_of_getElem? (h : (numberedLines source)[i]? = some line) : line.1 = i + 1 := by
  rw [getElem?_numberedLines, Option.map_eq_some_iff] at h
  obtain ⟨a, -, rfl⟩ := h
  rfl

theorem number_of_mem_take (h : line ∈ (numberedLines source).take k) : line.1 ≤ k := by
  obtain ⟨i, hi, hline⟩ := List.getElem_of_mem h
  rw [List.length_take] at hi
  rw [List.getElem_take] at hline
  have hnumber := number_of_getElem? (List.getElem?_eq_some_iff.mpr ⟨by omega, hline⟩)
  omega

theorem number_of_mem_drop (h : line ∈ (numberedLines source).drop k) : k < line.1 := by
  obtain ⟨i, hi⟩ := List.getElem?_of_mem h
  rw [List.getElem?_drop] at hi
  have hnumber := number_of_getElem? hi
  omega

theorem map_snd_numberedLines (source : String) :
    (numberedLines source).map Prod.snd = (Text.lines source.toList).map String.ofList := by
  apply List.ext_getElem?
  intro i
  rw [List.getElem?_map, getElem?_numberedLines, List.getElem?_map, Option.map_map]
  rfl

theorem exists_overlong_iff {ls : List (Nat × String)} {as : List (List Char)}
    (h : ls.map Prod.snd = as.map String.ofList) :
    (∃ line ∈ ls, Overlong file line.2) ↔ ∃ a ∈ as, Overlong file (String.ofList a) := by
  have hmem : ∀ text, text ∈ ls.map Prod.snd ↔ text ∈ as.map String.ofList := by simp [h]
  simp only [List.mem_map] at hmem
  constructor
  · rintro ⟨line, hline, hlong⟩
    obtain ⟨a, ha, htext⟩ := (hmem line.2).mp ⟨line, hline, rfl⟩
    exact ⟨a, ha, htext ▸ hlong⟩
  · rintro ⟨a, ha, hlong⟩
    obtain ⟨line, hline, htext⟩ := (hmem _).mpr ⟨a, ha, rfl⟩
    exact ⟨line, hline, htext ▸ hlong⟩

theorem exists_overlong_take (k : Nat) :
    (∃ line ∈ (numberedLines source).take k, Overlong file line.2) ↔
      ∃ a ∈ (Text.lines source.toList).take k, Overlong file (String.ofList a) := by
  apply exists_overlong_iff
  rw [List.map_take, map_snd_numberedLines, List.map_take]

/-- What a source gives for a line before which there is none that cannot be looked at. -/
theorem pairsOf_extractLines
    (h : ∀ a ∈ (Text.lines source.toList).take k, ¬Overlong file (String.ofList a)) :
    (extractLines file source).pairsOf (k + 1) =
      ((Text.lines source.toList)[k]?.map fun a =>
        Extraction.ofLine file (k + 1, String.ofList a)).getD [] := by
  have hshort : ∀ line ∈ (numberedLines source).take k, ¬Overlong file line.2 := by
    intro line hline hlong
    obtain ⟨a, ha, ha'⟩ := (exists_overlong_take k).mp ⟨line, hline, hlong⟩
    exact h a ha ha'
  have hother : ∀ line ∈ (numberedLines source).take k, line.1 ≠ k + 1 := fun line hline =>
    Nat.ne_of_lt (Nat.lt_succ_of_le (number_of_mem_take hline))
  rw [extractLines, ← List.take_append_drop k (numberedLines source),
    Extraction.pairsOf_append hother hshort]
  have hget := getElem?_numberedLines source k
  cases hk : (Text.lines source.toList)[k]? with
  | none =>
    rw [hk, Option.map_none, List.getElem?_eq_none_iff] at hget
    rw [List.drop_eq_nil_of_le hget]
    rfl
  | some a =>
    rw [hk, Option.map_some, List.getElem?_eq_some_iff] at hget
    obtain ⟨hlt, hline⟩ := hget
    rw [List.drop_eq_getElem_cons hlt, hline]
    apply Extraction.pairsOf_self
    intro line hline
    exact Nat.ne_of_gt (number_of_mem_drop hline)

/-- After a line that cannot be looked at there is nothing. -/
theorem pairsOf_extractLines_overlong
    (h : ∃ a ∈ (Text.lines source.toList).take k, Overlong file (String.ofList a)) :
    (extractLines file source).pairsOf (k + 1) = [] := by
  rw [extractLines, ← List.take_append_drop k (numberedLines source)]
  apply Extraction.pairsOf_append_overlong
  · intro line hline
    exact Nat.ne_of_lt (Nat.lt_succ_of_le (number_of_mem_take hline))
  · exact (exists_overlong_take k).mpr h

/-- Only such lines cut an extraction short. -/
theorem stop_extractLines : (extractLines file source).stop = none ↔
    ∀ a ∈ Text.lines source.toList, ¬Overlong file (String.ofList a) := by
  have hexists : (∃ line ∈ numberedLines source, Overlong file line.2) ↔
      ∃ a ∈ Text.lines source.toList, Overlong file (String.ofList a) :=
    exists_overlong_iff (map_snd_numberedLines source)
  rw [extractLines, Extraction.stop_ofLines]
  simpa using not_congr hexists

/-- The line of a number gives the same in all sources that have it, whatever their other lines are,
as long as none before it has a bare integer with too many digits. After a line that has one there
is nothing, and only such lines cut an extraction short. -/
theorem extractLines_independent (file source source' : String) (k : Nat) :
    ((Text.lines source.toList)[k]? = (Text.lines source'.toList)[k]? →
      (∀ a ∈ (Text.lines source.toList).take k, ¬Overlong file (String.ofList a)) →
      (∀ a ∈ (Text.lines source'.toList).take k, ¬Overlong file (String.ofList a)) →
      (extractLines file source).pairsOf (k + 1) = (extractLines file source').pairsOf (k + 1)) ∧
    ((∃ a ∈ (Text.lines source.toList).take k, Overlong file (String.ofList a)) →
      (extractLines file source).pairsOf (k + 1) = []) ∧
    ((extractLines file source).stop = none ↔
      ∀ a ∈ Text.lines source.toList, ¬Overlong file (String.ofList a)) := by
  refine ⟨?_, pairsOf_extractLines_overlong, stop_extractLines⟩
  intro hline h h'
  rw [pairsOf_extractLines h, pairsOf_extractLines h', hline]

/-- A line that fails and one that does not, before the same line. -/
theorem extractLines_independent_failing :
    let source := "@\n b=1\n\\"
    let source' := "x=\n b=1"
    (Text.lines source.toList)[1]? = (Text.lines source'.toList)[1]? ∧
      (∀ a ∈ (Text.lines source'.toList).take 1, ¬Overlong "f" (String.ofList a)) ∧
      (extractLines "f" source).pairsOf 2 = (extractLines "f" source').pairsOf 2 ∧
      (extractLines "f" source).stop = none := by
  intro source source'
  have hline : (Text.lines source.toList)[1]? = (Text.lines source'.toList)[1]? := by decide
  have h' : ∀ a ∈ (Text.lines source'.toList).take 1, ¬Overlong "f" (String.ofList a) := by
    decide +kernel
  obtain ⟨hpairs, -, hstop⟩ := extractLines_independent "f" source source' 1
  exact ⟨hline, h', hpairs hline (by decide +kernel) h', hstop.mpr (by decide +kernel)⟩

/-- A line of digits, in the place of another line, takes away what comes after it. -/
theorem extractLines_digits_before :
    let digits := String.ofList (List.replicate 4301 '1')
    '\n' ∉ digits.toList ∧
      (extractLines "f" (digits ++ "\nb")).pairsOf 2 ≠ (extractLines "f" "a\nb").pairsOf 2 ∧
      (extractLines "f" (digits ++ "\nb")).stop ≠ none := by
  intro digits
  have hones : ∀ c ∈ digits.toList, c = '1' := by
    intro c hc
    rw [String.toList_ofList] at hc
    exact List.eq_of_mem_replicate hc
  have hlength : 4300 < digits.toList.length := by
    rw [String.toList_ofList, List.length_replicate]
    decide
  -- From here on the digits are not to be looked at one by one.
  clear_value digits
  have hlong : Overlong "f" (1, digits).2 := by
    apply overlong_of_isDigit _ hlength
    intro c hc
    rw [hones c hc]
    decide
  have hnewline : '\n' ∉ digits.toList := fun hmem => absurd (hones _ hmem) (by decide)
  have hlines : numberedLines (digits ++ "\nb") = [(1, digits), (2, "b")] := by
    have htext : (digits ++ "\nb").toList = digits.toList ++ '\n' :: ['b'] := String.toList_append
    rw [numberedLines, htext, Text.lines_append hnewline]
    simp only [Text.lines_of_not_mem (a := ['b']) (by decide), List.mapIdx_cons, List.mapIdx_nil,
      String.ofList_toList]
  refine ⟨hnewline, ?_, ?_⟩
  · rw [extractLines, hlines, Extraction.pairsOf_overlong hlong]
    decide +kernel
  · rw [extractLines, hlines]
    exact (Extraction.ofLines_overlong hlong _).2

end

end TraitMarkup
