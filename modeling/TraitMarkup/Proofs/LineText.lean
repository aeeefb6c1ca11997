import TraitMarkup.Extraction
import TraitMarkup.Proofs.Alike
import TraitMarkup.Proofs.RoundTrip
import TraitMarkup.Proofs.SingleLine

/-!
# The text of a line

A line of tokens that is written back, with its indent in spaces and its members one space apart, is
scanned to the same tokens again, unless the last one ends with a blank (`scanLine_text`). Quotes and
escapes may be written in another way, but not so that a reduction could tell.
-/

namespace TraitMarkup

variable {file : String} {p : Position}

/-! ## Members one space apart -/

section

variable {α : Type} (text : α → String)

theorem toList_join_cons (a b : α) (as : List α) :
    (Line.join text (a :: b :: as)).toList =
      (text a).toList ++ ' ' :: (Line.join text (b :: as)).toList := by
  simp [Line.join]

theorem toList_join_singleton (a : α) : (Line.join text [a]).toList = (text a).toList := by
  simp [Line.join]

theorem Line.toList_text (l : Line α) :
    (l.text text).toList = List.replicate l.indent ' ' ++ (join text l.members).toList := by
  rw [Line.text, String.toList_append, String.toList_ofList]

end

section

variable {u v : Token} {us : List Token}

/-- The texts of tokens are scanned to the tokens again. -/
theorem place_join (hs : ∀ u ∈ us, Spells u.body u.text.toList) :
    List.Forall₂ Token.Copies us
        (place file p (pieces (Line.join Token.text us).toList)).tokens ∧
      (place file p (pieces (Line.join Token.text us).toList)).error = none := by
  induction us generalizing p with
  | nil =>
    have hnil : (Line.join Token.text []).toList = [] := by simp [Line.join]
    rw [hnil, pieces_nil]
    exact ⟨.nil, rfl⟩
  | cons u us ih =>
    obtain ⟨hu, hs⟩ := List.forall_mem_cons.mp hs
    cases us with
    | nil =>
      rw [toList_join_singleton, ← List.append_nil u.text.toList,
        place_lexeme hu (ends_of_separator (by simp)), pieces_nil]
      exact ⟨.cons (u.copies_text _) .nil, rfl⟩
    | cons v us =>
      have hends : Ends u.body.kind u.text.toList
          (' ' :: (Line.join Token.text (v :: us)).toList) := by
        apply ends_of_separator
        intro c hc
        cases hc
        exact .inl (by decide)
      rw [toList_join_cons, place_lexeme hu hends, place_blank (by decide)]
      obtain ⟨hcopies, herror⟩ := ih hs
      exact ⟨.cons (u.copies_text _) hcopies, herror⟩

theorem exists_join_cons (hs : ∀ u ∈ us, Spells u.body u.text.toList) (hne : us ≠ []) :
    ∃ c cs, (Line.join Token.text us).toList = c :: cs ∧ Text.isBlank c = false := by
  cases us with
  | nil => exact absurd rfl hne
  | cons u us =>
    obtain ⟨c, cs, hu, hc, -⟩ := (hs u List.mem_cons_self).form.exists_cons
    cases us with
    | nil =>
      rw [toList_join_singleton]
      exact ⟨c, cs, hu, hc⟩
    | cons v us =>
      rw [toList_join_cons, hu]
      exact ⟨c, _, rfl, hc⟩

theorem exists_join_concat (hs : ∀ u ∈ us, Spells u.body u.text.toList) (hne : us ≠ [])
    (hb : ¬(us.getLast hne).EndsBlank) :
    ∃ cs c, (Line.join Token.text us).toList = cs ++ [c] ∧ Text.isBlank c = false := by
  induction us with
  | nil => exact absurd rfl hne
  | cons u us ih =>
    obtain ⟨hu, hs⟩ := List.forall_mem_cons.mp hs
    cases us with
    | nil =>
      rw [toList_join_singleton]
      exact Token.exists_concat hu hb
    | cons v us =>
      obtain ⟨cs, c, hcs, hc⟩ := ih hs (List.cons_ne_nil v us) hb
      refine ⟨u.text.toList ++ ' ' :: cs, c, ?_, hc⟩
      rw [toList_join_cons, hcs, List.append_assoc]
      rfl

end

/-! ## Scanning a line that is written back -/

theorem LineScan.members_eq {s : LineScan} {l : Line Token} (h : s.result file = .ok l) :
    l.members = s.tokens := by
  unfold result at h
  split at h
  · cases h
  · split at h
    · cases h
    · cases h
      rfl

theorem LineScan.spells {cs : List Char} :
    ∀ u ∈ (ofChars file cs).tokens, Spells u.body u.lexeme.toList := by
  intro u hu
  unfold ofChars at hu
  simp only at hu
  split at hu
  · cases hu
  · obtain ⟨body, l, hl, rfl, hlexeme⟩ := exists_piece_of_mem_place hu
    rw [hlexeme, String.toList_ofList]
    exact (cut_pieces _).spells hl

theorem spells_of_scanLine {text : String} {l : Line Token} (h : scanLine file text = .ok l) :
    ∀ u ∈ l.members, Spells u.body u.lexeme.toList := by
  rw [LineScan.members_eq h]
  exact LineScan.spells

/-- A text with an indent in spaces, and nothing to trim at its end, is scanned from behind the
indent on. -/
theorem scanLine_indented {text : String} {n : Nat} {cs : List Char}
    (htext : text.toList = List.replicate n ' ' ++ cs)
    (hfirst : ∃ c rest, cs = c :: rest ∧ Text.isBlank c = false)
    (hlast : ∃ pre c, cs = pre ++ [c] ∧ Text.isBlank c = false) (file : String) :
    scanLine file text = LineScan.result file
      ⟨place file (Position.start.after (List.replicate n ' ')) (pieces cs), n⟩ := by
  have hspaces : ∀ c ∈ List.replicate n ' ', Text.isBlank c := by
    intro c hc
    rw [List.eq_of_mem_replicate hc]
    decide
  have htrim : trimmed text = List.replicate n ' ' ++ cs := by
    obtain ⟨pre, c, rfl, hc⟩ := hlast
    rw [trimmed, htext, ← List.append_assoc, Text.trimEnd_concat_solid hc]
  have hindent : (trimmed text).takeWhile Text.isBlank = List.replicate n ' ' := by
    obtain ⟨c, rest, rfl, hc⟩ := hfirst
    rw [htrim, List.takeWhile_append_of_pos hspaces, List.takeWhile_cons_of_neg (by simp [hc]),
      List.append_nil]
  rw [scanLine_eq hindent, htrim, place_blanks hspaces]

/-- The text of a line is scanned to the line again. -/
theorem scanLine_text {l : Line Token} (hs : ∀ u ∈ l.members, Spells u.body u.text.toList)
    (hb : ¬(l.members.getLast l.nonempty).EndsBlank) (file : String) :
    ∃ l', scanLine file (l.text Token.text) = .ok l' ∧ l.indent = l'.indent ∧
      List.Forall₂ Token.Copies l.members l'.members := by
  have hscan := scanLine_indented (l.toList_text Token.text) (exists_join_cons hs l.nonempty)
    (exists_join_concat hs l.nonempty hb) file
  obtain ⟨hcopies, herror⟩ := place_join hs
  have hne : (place file (Position.start.after (List.replicate l.indent ' '))
      (pieces (Line.join Token.text l.members).toList)).tokens ≠ [] := by
    intro hnil
    rw [hnil, List.forall₂_nil_right_iff] at hcopies
    exact l.nonempty hcopies
  refine ⟨⟨l.indent, _, hne⟩, ?_, rfl, hcopies⟩
  rw [hscan]
  exact LineScan.result_eq_ok herror rfl rfl

/-! ## Extracting a line that is written back -/

theorem Token.Copies.alike {u v : Token} (h : u.Copies v) : u.Alike v := by
  refine ⟨h.body, ?_⟩
  obtain ⟨body, lexeme, location⟩ := u
  obtain ⟨body', lexeme', location'⟩ := v
  obtain rfl : body = body' := h.body
  cases body with
  | marker | string | identifier => rfl
  | symbol | number => exact h.lexeme

/-- The same failure of a reduction, with the same message. -/
inductive ExtractFailure.Same : ExtractFailure → ExtractFailure → Prop where
  | refused {e e' : ReduceError} : e.cause.name = e'.cause.name → e.message = e'.message →
      Same (.line (.ofReduce e)) (.line (.ofReduce e'))
  | tooLong (e : Unsigned.TooLong) : Same (.tooLong e) (.tooLong e)

theorem extractLine_agree {text text' file' : String} {l l' : Line Token}
    (h : scanLine file text = .ok l) (h' : scanLine file' text' = .ok l')
    (hagree : Agree ReduceFailure.Alike Eq (reduceLine l) (reduceLine l')) :
    Agree ExtractFailure.Same Eq (extractLine file text) (extractLine file' text') := by
  simp only [extractLine, h, h']
  generalize reduceLine l = x at hagree
  generalize reduceLine l' = y at hagree
  cases hagree with
  | ok heq => exact .ok heq
  | error he =>
    cases he with
    | refused he => exact .error (.refused (congrArg _ he.cause) he.message)
    | tooLong e => exact .error (.tooLong e)

/-- What is extracted from a text are the expressions of phrases into which its tokens split. -/
theorem extractLine_eq_ok {text : String} {l : Line Expression} : extractLine file text = .ok l ↔
    ∃ tokens, scanLine file text = .ok tokens ∧ tokens.indent = l.indent ∧
      ∃ ps, Phrases tokens.members ps ∧ ps.map Prod.snd = l.members := by
  constructor
  · intro h
    unfold extractLine at h
    cases hscan : scanLine file text with
    | error e =>
      rw [hscan] at h
      cases h
    | ok tokens =>
      simp only [hscan] at h
      cases hreduce : reduce tokens.members with
      | error failure =>
        simp only [reduceLine_eq_error hreduce] at h
        cases failure <;> cases h
      | ok es =>
        obtain ⟨hne, hline⟩ := reduceLine_eq_ok hreduce
        simp only [hline] at h
        cases h
        exact ⟨tokens, rfl, rfl, reduce_eq_ok.mp hreduce⟩
  · rintro ⟨tokens, hscan, hindent, hphrases⟩
    obtain ⟨hne, hline⟩ := reduceLine_eq_ok (reduce_eq_ok.mpr hphrases)
    simp only [extractLine, hscan, hline, hindent]

/-- A line that is written back is scanned to an equal line, with its numbers as they were written,
and what is extracted from it is the same, or it is refused with the same message. This holds of all
lines that do not end with a name that ends with a blank. -/
theorem extractLine_text {text : String} {l : Line Token} (h : scanLine file text = .ok l)
    (hb : ¬(l.members.getLast l.nonempty).EndsBlank) (file' : String) :
    (∃ l', scanLine file' (l.text Token.text) = .ok l' ∧ l.indent = l'.indent ∧
      List.Forall₂ Token.Same l.members l'.members) ∧
    Agree ExtractFailure.Same Eq (extractLine file text)
      (extractLine file' (l.text Token.text)) := by
  have hs : ∀ u ∈ l.members, Spells u.body u.text.toList := by
    intro u hu
    exact Token.spells_text (spells_of_scanLine h u hu)
  obtain ⟨l', hl', hindent, hcopies⟩ := scanLine_text hs hb file'
  constructor
  · exact ⟨l', hl', hindent, hcopies.imp fun _ _ => Token.Copies.same⟩
  · apply extractLine_agree h hl'
    exact reduceLine_agree hindent (hcopies.imp fun _ _ => Token.Copies.alike)

theorem extractLine_text_requoted :
    let text := "\ta= '#'\n1.50 = # c"
    ∃ l, scanLine "f" text = .ok l ∧ l.text Token.text = " a = \"#\" 1.50 =" ∧
      (∃ l', scanLine "g" " a = \"#\" 1.50 =" = .ok l' ∧
        List.Forall₂ Token.Same l.members l'.members) ∧
      Agree ExtractFailure.Same Eq (extractLine "f" text)
        (extractLine "g" " a = \"#\" 1.50 =") := by
  intro text
  let l : Line Token := ⟨1, [⟨.identifier "a", "a", ⟨"f", 1, 2, 1⟩⟩,
    ⟨.symbol .equals .none, "=", ⟨"f", 1, 3, 2⟩⟩, ⟨.string "#", "'#'", ⟨"f", 1, 5, 4⟩⟩,
    ⟨.number (.ofNumeral ['1', '.', '5', '0']), "1.50", ⟨"f", 2, 1, 8⟩⟩,
    ⟨.symbol .equals .none, "=", ⟨"f", 2, 6, 13⟩⟩], List.cons_ne_nil _ _⟩
  have h : scanLine "f" text = .ok l :=
    LineScan.result_eq_ok (by decide +kernel) (by decide +kernel) (by decide +kernel)
  have htext : l.text Token.text = " a = \"#\" 1.50 =" := by decide +kernel
  obtain ⟨⟨l', hl', -, hsame⟩, hagree⟩ := extractLine_text h (by decide) "g"
  rw [htext] at hl' hagree
  exact ⟨l, h, htext, ⟨l', hl', hsame⟩, hagree⟩

end TraitMarkup
