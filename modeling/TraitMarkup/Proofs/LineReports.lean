import TraitMarkup.Proofs.BareLines
import TraitMarkup.Proofs.Faults
import TraitMarkup.Proofs.Independence
import TraitMarkup.Proofs.ReadBack
import TraitMarkup.Proofs.Refusals
import TraitMarkup.Report

/-!
# Reports line by line

A report has one line for each line of the source that gives something. Nothing that is made of a
text on one line takes more than one: not its tokens (`Token.oneLine_of_spells`), not their
expressions (`Phrases.oneLine`), and not the messages about what is wrong with it
(`Fault.oneLine`, `ReduceError.oneLine`).
-/

namespace TraitMarkup

open Token (Kind Body Payload)

/-- A text without a line feed. -/
def OneLine (s : String) : Prop := '\n' ∉ s.toList

instance (s : String) : Decidable (OneLine s) := inferInstanceAs (Decidable ('\n' ∉ s.toList))

@[simp] theorem oneLine_append {s s' : String} : OneLine (s ++ s') ↔ OneLine s ∧ OneLine s' := by
  simp [OneLine]

@[simp] theorem oneLine_ofList {cs : List Char} : OneLine (String.ofList cs) ↔ '\n' ∉ cs := by
  rw [OneLine, String.toList_ofList]

@[simp] theorem oneLine_toString {s : String} : OneLine (toString s) ↔ OneLine s := .rfl

/-! ## Words -/

theorem mem_of_mem_unescape {c : Char} {l : List Char} (h : c ∈ unescape l) : c ∈ l := by
  fun_induction unescape l with
  | case1 => exact h
  | case2 d cs ih =>
    rcases List.mem_cons.mp h with rfl | h
    · exact List.mem_cons_of_mem _ List.mem_cons_self
    · exact List.mem_cons_of_mem _ (List.mem_cons_of_mem _ (ih h))
  | case3 d cs _ ih =>
    rcases List.mem_cons.mp h with rfl | h
    · exact List.mem_cons_self
    · exact List.mem_cons_of_mem _ (ih h)

namespace Word

theorem newline_not_mem_escapeUnless {safe : Char → Bool} {c : Char} (h : c ≠ '\n') :
    '\n' ∉ escapeUnless safe c := by
  unfold escapeUnless
  split <;> simp [Ne.symm h]

theorem newline_not_mem_flatMap {safe : Char → Bool} {cs : List Char} (h : '\n' ∉ cs) :
    '\n' ∉ cs.flatMap (escapeUnless safe) := by
  intro hmem
  obtain ⟨c, hc, hmem⟩ := List.mem_flatMap.mp hmem
  exact newline_not_mem_escapeUnless (fun heq => h (heq ▸ hc)) hmem

theorem oneLine_escape {s : String} (h : OneLine s) : OneLine (escape s) := by
  rw [escape, oneLine_ofList]
  unfold OneLine at h
  cases hs : s.toList with
  | nil => simp [escapeChars]
  | cons c cs =>
    rw [hs, List.mem_cons, not_or] at h
    rw [escapeChars, List.mem_append, not_or]
    exact ⟨newline_not_mem_escapeUnless (Ne.symm h.1), newline_not_mem_flatMap h.2⟩

theorem oneLine_quote {s : String} (h : OneLine s) : OneLine (quote s) := by
  rw [quote, oneLine_ofList, quoteChars]
  simp [newline_not_mem_flatMap h]

end Word

/-! ## Tokens -/

/-- A token whose text and whose word take no more than one line. -/
structure Token.OneLine (u : Token) : Prop where
  text : TraitMarkup.OneLine u.text
  word : ∀ s, u.word? = some s → TraitMarkup.OneLine s

theorem Token.OneLine.name {u : Token} {s : String} (h : u.OneLine) (hs : u.name? = some s) :
    TraitMarkup.OneLine s :=
  h.word s (word?_of_name? hs)

theorem Token.oneLine_of_spells {u : Token} (h : Spells u.body u.lexeme.toList)
    (hl : TraitMarkup.OneLine u.lexeme) : u.OneLine := by
  cases hbody : u.body with
  | marker m carried =>
    rw [hbody] at h
    cases h.form
  | symbol s carried => exact ⟨by rwa [text, hbody], by simp [word?, hbody]⟩
  | number x => exact ⟨by rwa [text, hbody], by simpa [word?, hbody] using hl⟩
  | identifier s =>
    have hs : TraitMarkup.OneLine s := by
      rw [TraitMarkup.OneLine, (toList_of_identifier h hbody).2]
      exact fun hmem => hl (mem_of_mem_unescape hmem)
    refine ⟨?_, by simpa [word?, hbody] using hs⟩
    rw [text, hbody]
    exact Word.oneLine_escape hs
  | string s =>
    have hs : TraitMarkup.OneLine s := by
      obtain ⟨quote, l, -, -, hlexeme, hcontent⟩ := toList_of_string h hbody
      rw [TraitMarkup.OneLine, hcontent]
      intro hmem
      apply hl
      rw [hlexeme]
      simp [mem_of_mem_unescape hmem]
    refine ⟨?_, by simpa [word?, hbody] using hs⟩
    rw [text, hbody]
    exact Word.oneLine_quote hs

theorem Cut.mem_of_mem_token {cs : List Char} {ps : List Piece} (h : Cut cs ps) {body : Body}
    {l : List Char} (hm : .token body l ∈ ps) : l ⊆ cs := by
  induction h with
  | nil => cases hm
  | blank _ _ _ ih | newline _ ih =>
    cases hm with
    | tail _ hm => exact List.subset_cons_of_subset _ (ih hm)
  | comment _ _ _ ih =>
    cases hm with
    | tail _ hm => exact List.subset_append_of_subset_right _ (ih hm)
  | token _ _ _ ih =>
    cases hm with
    | head => exact List.subset_append_left _ _
    | tail _ hm => exact List.subset_append_of_subset_right _ (ih hm)
  | breach => simp at hm

variable {file : String} {p : Position}

theorem oneLine_of_mem_place {cs : List Char} (hcs : '\n' ∉ cs) {u : Token}
    (hu : u ∈ (place file p (pieces cs)).tokens) : u.OneLine := by
  obtain ⟨body, l, hl, rfl, hlexeme⟩ := exists_piece_of_mem_place hu
  apply Token.oneLine_of_spells
  · rw [hlexeme, String.toList_ofList]
    exact (cut_pieces cs).spells hl
  · rw [hlexeme, oneLine_ofList]
    exact fun hmem => hcs ((cut_pieces cs).mem_of_mem_token hl hmem)

/-! ## Scan errors -/

theorem ScanError.Cause.oneLine_name (cause : ScanError.Cause) : OneLine cause.name := by
  unfold name
  split <;> decide

theorem ScanError.Cause.oneLine_text {cause : ScanError.Cause} (h : OneLine cause.message) :
    OneLine cause.text := by
  have hcolon : OneLine ": " := by decide
  have hname := cause.oneLine_name
  unfold text
  split <;> simp [*]

theorem Fault.oneLine {before rest : List Char} {cause : ScanError.Cause}
    (h : Fault before rest cause) (hrest : '\n' ∉ rest) : OneLine cause.text := by
  apply ScanError.Cause.oneLine_text
  cases h with
  | @invalid c rest =>
    have hc : '\n' ≠ c := fun heq => hrest (heq ▸ List.mem_cons_self)
    simpa [ScanError.Cause.message, OneLine] using hc
  | @unterminated q rest hq hescaped =>
    rw [ScanError.Cause.message, oneLine_ofList]
    exact fun hmem => hrest (List.mem_cons_of_mem _ (mem_of_mem_unescape hmem))
  | dangling => decide
  | indent _ hname =>
    unfold ScanError.Cause.message
    split
    all_goals first | decide | simp [ScanError.Cause.name] at hname

theorem oneLine_of_error_place {cs : List Char} (hcs : '\n' ∉ cs) {e : ScanError}
    (h : (place file p (pieces cs)).error = some e) : OneLine e.text := by
  induction cs using pieces_induction generalizing p with
  | nil =>
    rw [pieces_nil] at h
    cases h
  | blank c rest hb hn ih =>
    rw [place_blank hb] at h
    exact ih (fun hmem => hcs (List.mem_cons_of_mem _ hmem)) h
  | newline rest ih => exact absurd List.mem_cons_self hcs
  | comment text rest ht hr ih =>
    rw [List.cons_append, pieces_cons, Piece.read_comment ht hr] at h
    exact ih (fun hmem => hcs (List.mem_append_right _ hmem)) h
  | token body l rest hs hr ih =>
    rw [place_lexeme hs hr] at h
    exact ih (fun hmem => hcs (List.mem_append_right _ hmem)) h
  | breach c cs b rest hread =>
    obtain ⟨rest', hsplit, hfault, -⟩ := Piece.blames_of_read hread []
    rw [pieces_cons, hread] at h
    cases h
    apply hfault.oneLine
    rw [hsplit, List.mem_append, not_or] at hcs
    exact hcs.2

/-! ## Expressions -/

theorem Expression.oneLine_int (n : UInt16) : OneLine (int n).text := by
  rw [text, Nat.toString_eq_ofList_toDigits, oneLine_ofList]
  exact fun hmem => absurd (Unsigned.isDigit_toDigits _ hmem) (by decide)

theorem Unsigned.oneLine_expression {word : String} {e : Expression} (h : expression word = .ok e)
    (hword : OneLine word) : OneLine e.text := by
  rcases expression_cases h with ⟨rfl, -⟩ | ⟨n, rfl⟩
  · exact hword
  · exact Expression.oneLine_int n

theorem Forms.oneLine {following phrase : List Token} {e : Expression}
    (h : Forms following phrase e) (hphrase : ∀ u ∈ phrase, u.OneLine) : OneLine e.text := by
  have hpoint : OneLine "." := by decide
  have hdollar : OneLine "$" := by decide
  cases h with
  | attr hk _ hv =>
    have hequals : OneLine "=" := by decide
    have hkey := (hphrase _ (by simp)).name hk
    have hvalue := Word.oneLine_quote ((hphrase _ (by simp)).word _ hv)
    simp [Expression.text, hequals, hkey, hvalue]
  | trait ho _ hn =>
    have hobject := (hphrase _ (by simp)).name ho
    have hname := (hphrase _ (by simp)).name hn
    simp [Expression.text, hpoint, hobject, hname]
  | selector _ ho _ hn =>
    have hobject := (hphrase _ (by simp)).name ho
    have hname := (hphrase _ (by simp)).name hn
    simp [Expression.text, hpoint, hdollar, hobject, hname]
  | emptySelector _ ho _ _ _ hn =>
    have hobject := (hphrase _ (by simp)).name ho
    have hname := (hphrase _ (by simp)).name hn
    have hbrackets : OneLine "<" ∧ OneLine "" ∧ OneLine ">." := by decide
    simp [Expression.text, hdollar, hobject, hname, hbrackets]
  | givenSelector _ ho _ ha _ _ hn =>
    have hobject := (hphrase _ (by simp)).name ho
    have hname := (hphrase _ (by simp)).name hn
    have hargument := (hphrase _ (by simp)).word _ ha
    have hbrackets : OneLine "<" ∧ OneLine ">." := by decide
    simp [Expression.text, hdollar, hobject, hname, hargument, hbrackets]
  | name ht _ he => exact Unsigned.oneLine_expression he ((hphrase _ (by simp)).name ht)
  | @number t e ht he =>
    exact Unsigned.oneLine_expression he ((hphrase t (by simp)).word _ (Token.word?_of_number ht))
  | @string t text ht =>
    have hword : t.word? = some text := by rw [Token.word?, ht]
    exact (hphrase t (by simp)).word text hword
  | colon => decide
  | @arithmetic _ _ op => cases op <;> decide
  | @relational _ _ op => cases op <;> decide

theorem Phrases.oneLine {ts : List Token} {ps : List (List Token × Expression)} (h : Phrases ts ps)
    (hts : ∀ u ∈ ts, u.OneLine) : ∀ e ∈ ps.map Prod.snd, OneLine e.text := by
  induction h with
  | nil => simp
  | cons hf _ ih =>
    rw [List.forall_mem_append] at hts
    exact List.forall_mem_cons.mpr ⟨hf.oneLine hts.1, ih hts.2⟩

/-! ## Reduction errors -/

theorem oneLine_expectations : ∀ expected ∈ Phrase.expectations, OneLine expected := by decide

theorem ReduceError.oneLine {e : ReduceError} (h : Phrase.Objection e.cause)
    (htoken : e.token.OneLine) : OneLine e.text := by
  have htext := htoken.text
  have hmarks : OneLine ": " ∧ OneLine "'" ∧ OneLine "' (" ∧ OneLine ")" := by decide
  have hname : OneLine e.cause.name := by
    unfold Cause.name
    split <;> decide
  have hmessage : OneLine e.message := by
    obtain ⟨cause, token⟩ := e
    cases h with
    | invalid hmem =>
      have hexpected := oneLine_expectations _ hmem
      simp [message, hexpected, htext, hmarks]
    | endsEarly hmem =>
      have hexpected := oneLine_expectations _ hmem
      have hends : OneLine "line ends at '" := by decide
      simp [message, hexpected, htext, hmarks, hends]
    | unsupported =>
      have hkind : OneLine token.kind.name := by
        rcases token.kind with (_ | _) | s | _ | _ | _
        all_goals first | decide | cases s <;> decide
      have hcannot : OneLine " cannot be reduced to an expression" := by decide
      simp [message, hkind, hcannot]
    | reserved =>
      have hreserved : OneLine "' is reserved and not yet implemented" := by decide
      simp [message, htext, hmarks, hreserved]
  simp [text, hname, hmessage, hmarks]

theorem objection_of_reduce {ts : List Token} {e : ReduceError}
    (h : reduce ts = .error (.refused e)) : Phrase.Objection e.cause := by
  rcases phrases_or_error ts with ⟨ps, hps⟩ | ⟨err, herr, hcause⟩ | ⟨word, ds, hword, hds, hlong⟩
  · rw [hps.reduce_eq] at h
    cases h
  · rw [herr] at h
    cases h
    exact hcause
  · obtain ⟨err, herr⟩ := hword.exists_tooLong hds hlong
    rw [herr] at h
    cases h

theorem Refused.mem {ts : List Token} {e : ReduceError} (h : Refused ts e) : e.token ∈ ts := by
  cases h with
  | early _ _ _ hlast => exact List.mem_of_getLast? hlast
  | wrong pre _ hsplit =>
    rw [hsplit]
    exact List.mem_append_right _ List.mem_cons_self

theorem oneLine_of_reduce {ts : List Token} {e : ReduceError}
    (h : reduce ts = .error (.refused e)) (hts : ∀ u ∈ ts, u.OneLine) : OneLine e.text :=
  ReduceError.oneLine (objection_of_reduce h) (hts _ (refused_of_reduce h).mem)

/-! ## Lines -/

theorem newline_not_mem_trimmed {text : String} (h : OneLine text) : '\n' ∉ trimmed text :=
  fun hmem => h (Text.mem_of_mem_trimEnd hmem)

/-- What is scanned as a line is put in its places, unless its indent is refused. -/
theorem LineScan.ofChars_cases (file : String) (cs : List Char) :
    (∃ p, (ofChars file cs).toPlaced = ⟨[], p, some ⟨.mixedIndent, p.inFile file⟩⟩) ∨
      ∃ p, (ofChars file cs).toPlaced = place file p (pieces (cs.dropWhile Text.isBlank)) := by
  unfold ofChars
  dsimp only
  split
  · exact .inl ⟨_, rfl⟩
  · exact .inr ⟨_, rfl⟩

theorem LineScan.oneLine {cs : List Char} (h : '\n' ∉ cs) :
    (∀ u ∈ (ofChars file cs).tokens, u.OneLine) ∧
      ∀ e, (ofChars file cs).error = some e → OneLine e.text := by
  have hrest : '\n' ∉ cs.dropWhile Text.isBlank :=
    fun hmem => h ((List.dropWhile_sublist _).subset hmem)
  rcases ofChars_cases file cs with ⟨p, hp⟩ | ⟨p, hp⟩
  · rw [hp]
    refine ⟨List.forall_mem_nil _, fun e he => ?_⟩
    cases he
    exact (by decide : OneLine "InconsistentWhitespace")
  · rw [hp]
    exact ⟨fun u hu => oneLine_of_mem_place hrest hu, fun e he => oneLine_of_error_place hrest he⟩

theorem oneLine_of_scanLine {text : String} (h : OneLine text) {l : Line Token}
    (hl : scanLine file text = .ok l) : ∀ u ∈ l.members, u.OneLine := by
  rw [LineScan.members_eq hl]
  exact (LineScan.oneLine (newline_not_mem_trimmed h)).1

theorem oneLine_of_scanLine_error {text : String} (h : OneLine text) {e : ScanError}
    (he : scanLine file text = .error e) : OneLine e.text := by
  rcases LineScan.error_of_result he with herror | rfl
  · exact (LineScan.oneLine (newline_not_mem_trimmed h)).2 e herror
  · exact (by decide : OneLine "NoTokensPresent")

/-- Members that are each on one line are so together, one space apart. -/
theorem Line.oneLine_text {α : Type} {text : α → String} {l : Line α}
    (h : ∀ a ∈ l.members, OneLine (text a)) : OneLine (l.text text) := by
  have hjoin : ∀ members : List α, (∀ a ∈ members, OneLine (text a)) →
      OneLine (join text members) := by
    intro members hmembers
    induction members with
    | nil => exact (by decide : OneLine "")
    | cons a members ih =>
      obtain ⟨ha, hmembers⟩ := List.forall_mem_cons.mp hmembers
      cases members with
      | nil =>
        rw [OneLine, toList_join_singleton]
        exact ha
      | cons b members =>
        rw [OneLine, toList_join_cons, List.mem_append, List.mem_cons, not_or, not_or]
        exact ⟨ha, by decide, ih hmembers⟩
  rw [Line.text, oneLine_append, oneLine_ofList]
  exact ⟨fun hmem => absurd (List.eq_of_mem_replicate hmem) (by decide), hjoin l.members h⟩

/-- What is written about the result of a line, without the line feed. -/
def resultText : Except LineFailure (Line Expression) → String
  | .ok line => line.text Expression.text
  | .error f => "ERROR: " ++ f.text

theorem LineFailure.oneLine {f : LineFailure} (h : OneLine f.error.text) : OneLine f.text := by
  have hname : OneLine f.name := by
    rw [name]
    cases f.stage <;> decide
  have hcolon : OneLine ": " := by decide
  simp [text, hname, hcolon, h]

theorem oneLine_of_extractLine {text : String} (h : OneLine text) {l : Line Expression}
    (hl : extractLine file text = .ok l) : OneLine (l.text Expression.text) := by
  obtain ⟨tokens, hscan, -, ps, hps, hmembers⟩ := extractLine_eq_ok.mp hl
  apply Line.oneLine_text
  rw [← hmembers]
  exact hps.oneLine (oneLine_of_scanLine h hscan)

theorem oneLine_of_extractLine_error {text : String} (h : OneLine text) {f : LineFailure}
    (hf : extractLine file text = .error (.line f)) : OneLine f.text := by
  apply LineFailure.oneLine
  unfold extractLine at hf
  cases hscan : scanLine file text with
  | error e =>
    simp only [hscan] at hf
    cases hf
    exact oneLine_of_scanLine_error h hscan
  | ok tokens =>
    simp only [hscan] at hf
    cases hreduce : reduce tokens.members with
    | ok es =>
      obtain ⟨hne, hline⟩ := reduceLine_eq_ok hreduce
      simp only [hline] at hf
      cases hf
    | error failure =>
      simp only [reduceLine_eq_error hreduce] at hf
      cases failure with
      | tooLong e => cases hf
      | refused e =>
        cases hf
        exact oneLine_of_reduce hreduce (oneLine_of_scanLine h hscan)

/-! ## Reports -/

namespace Extraction

theorem oneLine_of_mem_ofLine {line : Nat × String} (h : OneLine line.2)
    {r : Nat × Except LineFailure (Line Expression)} (hr : r ∈ ofLine file line) :
    OneLine (resultText r.2) := by
  unfold ofLine at hr
  split at hr
  · rename_i l hl
    cases List.mem_singleton.mp hr
    exact oneLine_of_extractLine h hl
  · rename_i f hf
    split at hr
    · cases hr
    · cases List.mem_singleton.mp hr
      exact oneLine_append.mpr ⟨by decide, oneLine_of_extractLine_error h hf⟩
  · cases hr

theorem oneLine_of_mem_ofLines {ls : List (Nat × String)} (h : ∀ line ∈ ls, OneLine line.2) :
    ∀ r ∈ (ofLines file ls).lines, OneLine (resultText r.2) := by
  induction ls with
  | nil => exact List.forall_mem_nil _
  | cons line ls ih =>
    obtain ⟨hline, hls⟩ := List.forall_mem_cons.mp h
    by_cases hlong : Overlong file line.2
    · rw [(ofLines_overlong hlong ls).1]
      exact List.forall_mem_nil _
    · rw [(ofLines_cons hlong ls).1, List.forall_mem_append]
      exact ⟨fun r hr => oneLine_of_mem_ofLine hline hr, ih hls⟩

end Extraction

theorem Text.newline_not_mem_of_mem_lines {cs a : List Char} (h : a ∈ lines cs) : '\n' ∉ a := by
  induction cs generalizing a with
  | nil =>
    cases List.mem_singleton.mp h
    exact List.not_mem_nil
  | cons c cs ih =>
    by_cases hc : c = '\n'
    · subst hc
      rw [lines_newline] at h
      rcases List.mem_cons.mp h with rfl | h
      · exact List.not_mem_nil
      · exact ih h
    · obtain ⟨line, rest, hlines, -⟩ := exists_lines_eq cs
      rw [lines_cons hc hlines] at h
      rw [hlines] at ih
      rcases List.mem_cons.mp h with rfl | h
      · rw [List.mem_cons, not_or]
        exact ⟨Ne.symm hc, ih List.mem_cons_self⟩
      · exact ih (List.mem_cons_of_mem _ h)

theorem oneLine_of_mem_numberedLines {source : String} {line : Nat × String}
    (h : line ∈ numberedLines source) : OneLine line.2 := by
  have htext : line.2 ∈ (Text.lines source.toList).map String.ofList := by
    rw [← map_snd_numberedLines]
    exact List.mem_map_of_mem h
  obtain ⟨a, ha, heq⟩ := List.mem_map.mp htext
  rw [← heq, oneLine_ofList]
  exact Text.newline_not_mem_of_mem_lines ha

/-- Texts on one line each, with a line feed after each, are the lines of the text that they make
together. Nothing comes after the last line feed. -/
theorem Text.lines_join {xs : List String} (h : ∀ x ∈ xs, OneLine x) :
    lines (String.join (xs.map (· ++ "\n"))).toList = xs.map String.toList ++ [[]] := by
  induction xs with
  | nil => rfl
  | cons x xs ih =>
    obtain ⟨hx, hxs⟩ := List.forall_mem_cons.mp h
    have hsplit : (x ++ "\n" ++ String.join (xs.map (· ++ "\n"))).toList =
        x.toList ++ '\n' :: (String.join (xs.map (· ++ "\n"))).toList := by
      rw [String.toList_append, String.toList_append, List.append_assoc]
      rfl
    rw [List.map_cons, String.join_cons, hsplit, lines_append hx, ih hxs]
    rfl

theorem Text.count_newline (cs : List Char) : cs.count '\n' + 1 = (lines cs).length := by
  induction cs with
  | nil => rfl
  | cons c cs ih =>
    by_cases hc : c = '\n'
    · subst hc
      rw [lines_newline, List.count_cons_self, List.length_cons, ih]
    · obtain ⟨line, rest, hlines, -⟩ := exists_lines_eq cs
      rw [lines_cons hc hlines, List.count_cons_of_ne hc, ih, hlines]
      rfl

theorem lineReport_eq (r : Except LineFailure (Line Expression)) :
    lineReport r = resultText r ++ "\n" := by
  cases r with
  | ok line => rfl
  | error f => rfl

theorem lines_reportLines (config : Configuration) (source : String) :
    Text.lines (reportLines config source).text.toList =
      ((extractLines config.file source).lines.map fun line => (resultText line.2).toList) ++
        [[]] := by
  have hlines : ∀ x ∈ (extractLines config.file source).lines.map fun line => resultText line.2,
      OneLine x := by
    intro x hx
    obtain ⟨line, hline, rfl⟩ := List.mem_map.mp hx
    exact Extraction.oneLine_of_mem_ofLines (fun _ => oneLine_of_mem_numberedLines) line hline
  have htext : (reportLines config source).text = String.join
      (((extractLines config.file source).lines.map fun line => resultText line.2).map
        (· ++ "\n")) := by
    rw [List.map_map]
    exact congrArg String.join (List.map_congr_left fun line _ => lineReport_eq line.2)
  rw [htext, Text.lines_join hlines, List.map_map]
  rfl

/-- A report has one line for each line of the source that gives something, and nothing else: the
text of its expressions, or that it is bad and why. It counts the bad ones. This holds of a report
that is cut short as well. -/
theorem reportLines_framed (config : Configuration) (source : String) :
    let results := (extractLines config.file source).lines.map Prod.snd
    let report := reportLines config source
    report.text.toList.count '\n' = results.length ∧
    (∀ (i : Nat) (line : Line Expression), results[i]? = some (.ok line) →
      (Text.lines report.text.toList)[i]? = some (line.text Expression.text).toList) ∧
    (∀ (i : Nat) (f : LineFailure), results[i]? = some (.error f) →
      (Text.lines report.text.toList)[i]? = some ("ERROR: " ++ f.text).toList) ∧
    (Text.lines report.text.toList)[results.length]? = some [] ∧
    report.failures = results.countP (!·.isOk) := by
  intro results report
  have hlines : Text.lines report.text.toList =
      results.map (fun r => (resultText r).toList) ++ [[]] := by
    rw [lines_reportLines, List.map_map]
    rfl
  have hresult : ∀ (i : Nat) r, results[i]? = some r →
      (Text.lines report.text.toList)[i]? = some (resultText r).toList := by
    intro i r hr
    have hi : i < results.length := (List.getElem?_eq_some_iff.mp hr).1
    rw [hlines, List.getElem?_append_left (by simpa using hi), List.getElem?_map, hr]
    rfl
  refine ⟨?_, fun i line => hresult i (.ok line), fun i f => hresult i (.error f), ?_, ?_⟩
  · have hcount := Text.count_newline report.text.toList
    rw [hlines, List.length_append, List.length_map] at hcount
    exact Nat.succ.inj hcount
  · simp [hlines]
  · rw [List.countP_map, List.countP_eq_length_filter]
    refine congrArg List.length (List.filter_congr fun line _ => ?_)
    rw [Function.comp_apply]
    cases line.2 <;> rfl

end TraitMarkup
