import TraitMarkup.Proofs.Canonical
import TraitMarkup.Proofs.Spacing
import TraitMarkup.Report

/-!
# Reports on tokens

The report on the tokens of a source is scanned to the same tokens again, for every unit of indent
but the line feed. Rendered with line feeds the lines of a block are not indented at all, and a scan
comes to the tokens beside the markers only (`IndentUnit.exists_scan_newlines`).
-/

namespace TraitMarkup

open Token (Kind Body Payload)

variable {file : String} {p : Position} {d : Nat} {gap : Gap} {unit : IndentUnit}

/-! ## The end of a rendered text -/

section

variable {indent : String} {u : Token} {ts : List Token}

theorem renderFrom_of_isMarker (h : u.isMarker) :
    ∃ d', renderFrom indent d gap (u :: ts) = renderFrom indent d' .lineBreak ts := by
  rw [Token.isMarker_eq] at h
  cases hk : u.kind with
  | marker m =>
    cases m with
    | indent => exact ⟨d + 1, renderFrom_indent hk⟩
    | dedent => exact ⟨d - 1, renderFrom_dedent hk⟩
  | _ =>
    rw [hk] at h
    cases h

/-- A text that is rendered behind a token starts with a blank. -/
theorem isBlank_head_renderFrom (hgap : gap ≠ .none) :
    ∀ c ∈ (renderFrom indent d gap ts).toList.head?, Text.isBlank c := by
  induction ts generalizing d gap with
  | nil => simp [renderFrom]
  | cons u ts ih =>
    cases hu : u.isMarker with
    | true =>
      obtain ⟨d', htext⟩ := renderFrom_of_isMarker hu
      rw [htext]
      exact ih (by decide)
    | false =>
      rw [renderFrom_token hu]
      cases gap with
      | none => exact absurd rfl hgap
      | space =>
        simp only [Gap.text, String.toList_append]
        rintro c ⟨⟩
        decide
      | lineBreak =>
        simp only [Gap.text, String.toList_append]
        rintro c ⟨⟩
        decide

theorem renderFrom_markers_only (h : ts.filter (!·.isMarker) = []) :
    renderFrom indent d gap ts = "" := by
  induction ts generalizing d gap with
  | nil => rfl
  | cons u ts ih =>
    cases hu : u.isMarker with
    | true =>
      obtain ⟨d', htext⟩ := renderFrom_of_isMarker hu
      rw [List.filter_cons_of_neg (by simp [hu])] at h
      rw [htext, ih h]
    | false =>
      rw [List.filter_cons_of_pos (by simp [hu])] at h
      cases h

/-- A rendered text ends with its last token that is no marker. -/
theorem exists_renderFrom_append (h : (ts.filter (!·.isMarker)).getLast? = some u) :
    ∃ before, (renderFrom indent d gap ts).toList = before ++ u.text.toList := by
  induction ts generalizing d gap with
  | nil => cases h
  | cons v ts ih =>
    cases hv : v.isMarker with
    | true =>
      obtain ⟨d', htext⟩ := renderFrom_of_isMarker hv
      rw [List.filter_cons_of_neg (by simp [hv])] at h
      rw [htext]
      exact ih h
    | false =>
      rw [List.filter_cons_of_pos (by simp [hv]), List.getLast?_cons] at h
      rw [renderFrom_token hv, String.toList_append, String.toList_append]
      cases hlast : (ts.filter (!·.isMarker)).getLast? with
      | none =>
        rw [hlast] at h
        obtain rfl : v = u := Option.some.inj h
        rw [renderFrom_markers_only (List.getLast?_eq_none_iff.mp hlast)]
        exact ⟨_, List.append_nil _⟩
      | some w =>
        rw [hlast] at h
        obtain rfl : w = u := Option.some.inj h
        obtain ⟨before, htext⟩ := ih hlast
        rw [htext, ← List.append_assoc]
        exact ⟨_, rfl⟩

instance (tokens : List Token) : Decidable (LastEndsBlank tokens) :=
  inferInstanceAs (Decidable (∃ u, u ∈ (tokens.filter (!·.isMarker)).getLast? ∧ u.EndsBlank))

/-- There is nothing to trim at the end of a rendered text. -/
theorem trimmed_render (hw : ∀ v ∈ ts, v.Written) (hb : ¬LastEndsBlank ts) :
    trimmed (render indent ts) = (render indent ts).toList := by
  rw [trimmed, render]
  cases hlast : (ts.filter (!·.isMarker)).getLast? with
  | none =>
    rw [renderFrom_markers_only (List.getLast?_eq_none_iff.mp hlast)]
    rfl
  | some v =>
    obtain ⟨hv, hmarker⟩ := List.mem_filter.mp (List.mem_of_getLast? hlast)
    have hspells := (hw v hv).spells (by simpa using hmarker)
    obtain ⟨pre, c, htext, hc⟩ := Token.exists_concat hspells fun hv => hb ⟨v, hlast, hv⟩
    obtain ⟨before, hrender⟩ := exists_renderFrom_append hlast
    rw [hrender, htext, ← List.append_assoc, Text.trimEnd_concat_solid hc]

end

/-! ## Line feeds for indents -/

namespace Scan

theorem exists_start_newlines (n : Nat) (file : String) (p : Position) (t : Indentation) :
    ∃ p', ∀ cs, start file p t (List.replicate n '\n' ++ cs) = start file p' t cs := by
  induction n generalizing p with
  | zero => exact ⟨p, fun _ => rfl⟩
  | succ n ih =>
    obtain ⟨p', hp'⟩ := ih (p.next '\n')
    refine ⟨p', fun cs => ?_⟩
    rw [List.replicate_succ, List.cons_append, start_newline, hp']

theorem before_nil : before file p .fresh gap [] = ofLines file p .fresh [] := by
  cases gap with
  | none => exact start_nil
  | space | lineBreak => exact inside_nil

theorem before_newline (cs : List Char) :
    before file p .fresh gap ('\n' :: cs) = start file (p.next '\n') .fresh cs := by
  cases gap with
  | none => exact start_newline cs
  | space | lineBreak => exact inside_newline cs

end Scan

namespace IndentUnit

/-- A scan does not come to any markers by a line break whose indent is of line feeds. The gap after
the last token may have become a line break in the meantime. -/
theorem exists_reaches_newlines (hn : unit.blank = '\n') {gap' : Gap} (hgap' : gap' ≠ .lineBreak)
    (hgap : gap = gap' ∨ gap = .lineBreak) (d : Nat) (file : String) (p : Position) :
    ∃ p', Scan.Reaches (Scan.before file p .fresh gap') (gap.text unit.text d).toList file p'
      .fresh [] := by
  rcases hgap with rfl | rfl
  · cases gap with
    | none =>
      refine ⟨p, fun c cs hc hh => ?_⟩
      have hnone : (Gap.none.text unit.text d).toList = [] := by simp [Gap.text]
      rw [hnone]
      exact Scan.start_fresh hc hh cs
    | space =>
      refine ⟨p.next ' ', fun c cs _ _ => ?_⟩
      have hspace : (Gap.space.text unit.text d).toList = [' '] := by simp [Gap.text]
      rw [hspace]
      exact Scan.inside_blank (by decide) (by decide) (c :: cs)
    | lineBreak => exact absurd rfl hgap'
  · obtain ⟨p', hp'⟩ :=
      Scan.exists_start_newlines (d * unit.width) file (p.next '\n') .fresh
    refine ⟨p', fun c cs hc hh => ?_⟩
    have htext : (Gap.lineBreak.text unit.text d).toList ++ c :: cs =
        '\n' :: (List.replicate (d * unit.width) '\n' ++ c :: cs) := by
      rw [Gap.text, String.toList_append, toList_indent, hn]
      rfl
    rw [htext, Scan.before_newline, hp', Scan.start_fresh hc hh]
    rfl

/-- Rendered with line feeds, tokens are scanned to those beside the markers. -/
theorem exists_scan_newlines (hn : unit.blank = '\n') {gap' : Gap} (hgap' : gap' ≠ .lineBreak)
    (hgap : gap = gap' ∨ gap = .lineBreak) {ts : List Token} (hw : ∀ u ∈ ts, u.Written)
    (d : Nat) (file : String) (p : Position) :
    ∃ again, (Scan.before file p .fresh gap'
        (renderFrom unit.text d gap ts).toList).result = .ok again ∧
      List.Forall₂ Token.Copies (ts.filter (!·.isMarker)) again := by
  induction ts generalizing d gap gap' p with
  | nil =>
    refine ⟨[], ?_, .nil⟩
    rw [renderFrom, String.toList_empty, Scan.before_nil]
    rfl
  | cons u ts ih =>
    obtain ⟨hwu, hwts⟩ := List.forall_mem_cons.mp hw
    cases hu : u.isMarker with
    | true =>
      obtain ⟨d', htext⟩ := renderFrom_of_isMarker hu
      rw [List.filter_cons_of_neg (by simp [hu]), htext]
      exact ih hgap' (.inr rfl) hwts d' p
    | false =>
      obtain ⟨p', hreaches⟩ := exists_reaches_newlines hn hgap' hgap d file p
      have hends : Ends u.body.kind u.text.toList (renderFrom unit.text d .space ts).toList :=
        ends_of_separator fun c hc => .inl (isBlank_head_renderFrom (by decide) c hc)
      have hrest : ∃ again, (Scan.inside file (p'.after u.text.toList) .fresh
          (renderFrom unit.text d .space ts).toList).result = .ok again ∧ _ :=
        @ih .space .space (by decide) (.inl rfl) hwts d (p'.after u.text.toList)
      obtain ⟨again, hscan, hcopies⟩ := hrest
      obtain ⟨herror, htokens⟩ := Scan.result_eq_ok.mp hscan
      rw [List.filter_cons_of_pos (by simp [hu]), renderFrom_token hu, String.toList_append,
        String.toList_append, List.append_assoc, hreaches.lexeme (hwu.spells hu) hends]
      refine ⟨_, Scan.result_eq_ok.mpr ⟨herror, rfl⟩, ?_⟩
      rw [Scan.tokens_prepend, htokens]
      exact .cons (u.copies_text _) hcopies

theorem exists_tokenize_newlines (hn : unit.blank = '\n') {ts : List Token}
    (hw : ∀ u ∈ ts, u.Written) (hb : ¬LastEndsBlank ts) (file : String) :
    ∃ again, tokenize file (render unit.text ts) = .ok again ∧
      List.Forall₂ Token.Copies (ts.filter (!·.isMarker)) again := by
  have hgap : Gap.none ≠ .lineBreak := by decide
  rw [tokenize, scan, trimmed_render hw hb]
  exact exists_scan_newlines hn hgap (.inl rfl) hw 0 file .start

end IndentUnit

/-! ## Reports -/

section

variable {config : Configuration} {source : String} {tokens : List Token}

theorem Token.Written.agrees_self {u : Token} (h : u.Written) : u.agrees u := by
  rcases h with ⟨m, hm⟩ | hs
  · simp [Token.agrees, Token.payload, hm, Body.payload, Payload.agrees]
  · obtain ⟨body, lexeme, location⟩ := u
    have hwritten := hs.writtenAs (l := ⟨_, _, hs.form⟩) rfl location
    have hagrees := hwritten.agrees hwritten
    exact hagrees

/-- A report is scanned like the rendered tokens: its last line feed is trimmed. -/
theorem tokenize_report (h : tokenize config.file source = .ok tokens) (file' : String) :
    tokenize file' (reportTokens config source).text =
      tokenize file' (render config.indentUnit.text tokens) := by
  have htrim : trimmed (reportTokens config source).text =
      trimmed (render config.indentUnit.text tokens) := by
    have hresult : (scan config.file source).result = .ok tokens := h
    rw [reportTokens]
    simp only [hresult]
    cases tokens with
    | nil => rfl
    | cons u us =>
      rw [trimmed, String.toList_append]
      exact Text.trimEnd_append (List.forall_mem_singleton.mpr (by decide)) _
  rw [tokenize, tokenize, scan, scan, htrim]

/-- Whatever the unit of indent, the report on the tokens of a source is scanned to equal tokens,
with the same markers, if the last word does not end with a blank. Only line feeds do not do for
indents: where they are the unit, the markers are lost. -/
theorem tokenize_reportTokens (h : tokenize config.file source = .ok tokens)
    (hb : ¬LastEndsBlank tokens) (file' : String) :
    (∃ again, tokenize file' (reportTokens config source).text = .ok again ∧
      List.Forall₂ (fun u v => u.agrees v) tokens again) ↔
      config.indentUnit.blank ≠ '\n' ∨ ∀ u ∈ tokens, u.isMarker = false := by
  have hw := written_of_tokenize h
  have hself : List.Forall₂ (fun u v => u.agrees v) tokens tokens :=
    List.forall₂_same.mpr fun u hu => (hw u hu).agrees_self
  rw [tokenize_report h]
  by_cases hn : config.indentUnit.blank = '\n'
  · obtain ⟨again, hagain, hcopies⟩ := IndentUnit.exists_tokenize_newlines hn hw hb file'
    constructor
    · rintro ⟨again', hagain', hagrees⟩
      obtain rfl := Except.ok.inj (hagain.symm.trans hagain')
      have hlength := hcopies.length_eq.trans hagrees.length_eq.symm
      right
      simpa using List.length_filter_eq_length_iff.mp hlength
    · rintro (hne | hnone)
      · exact absurd hn hne
      · rw [List.filter_eq_self.mpr (by simpa using hnone)] at hcopies
        exact ⟨again, hagain, Token.agrees_of_copies hself hcopies⟩
  · refine iff_of_true ?_ (.inl hn)
    rcases (nesting_of_tokenize h).approach_start hn hw with rfl | ⟨⟨a⟩⟩
    · exact ⟨[], tokenize_empty file', .nil⟩
    · obtain ⟨again, hagain, hcopies⟩ :=
        a.tokenize_render hw (fun hlast => hb ⟨a.last, a.getLast?_filter, hlast⟩) file'
      exact ⟨again, hagain, Token.agrees_of_copies hself hcopies⟩

theorem tokenize_reportTokens_tabs :
    let config : Configuration := ⟨"f", ⟨'\t', 2, by decide, by decide⟩, false⟩
    ∃ tokens again, tokenize "f" "a\n  b" = .ok tokens ∧ ¬LastEndsBlank tokens ∧
      (reportTokens config "a\n  b").text = "a\n\t\tb\n" ∧
      tokenize "g" "a\n\t\tb\n" = .ok again ∧
      List.Forall₂ (fun u v => u.agrees v) tokens again := by
  intro config
  let tokens : List Token := [⟨.identifier "a", "a", ⟨"f", 1, 1, 0⟩⟩,
    ⟨.marker .indent .none, "", ⟨"f", 2, 1, 2⟩⟩, ⟨.identifier "b", "b", ⟨"f", 2, 3, 4⟩⟩,
    ⟨.marker .dedent .none, "", ⟨"f", 2, 4, 5⟩⟩]
  have h : tokenize config.file "a\n  b" = .ok tokens := eq_ok_of_toOption (by decide +kernel)
  have hb : ¬LastEndsBlank tokens := by decide +kernel
  have htext : (reportTokens config "a\n  b").text = "a\n\t\tb\n" := by decide +kernel
  obtain ⟨again, hagain, hagrees⟩ := (tokenize_reportTokens h hb "g").mpr (.inl (by decide))
  rw [htext] at hagain
  exact ⟨tokens, again, h, hb, htext, hagain, hagrees⟩

/-- A line feed is taken for an indent, but a block that is indented with it is none. -/
theorem reportTokens_newlines_no_markers :
    ∃ config tokens again, Configuration.of none (some "\n") none = .ok config ∧
      tokenize config.file "a\n  b" = .ok tokens ∧ ¬LastEndsBlank tokens ∧
      tokenize "f" (reportTokens config "a\n  b").text = .ok again ∧
      ¬List.Forall₂ (fun u v => u.agrees v) tokens again := by
  let config : Configuration := ⟨"<string>", ⟨'\n', 1, by decide, by decide⟩, false⟩
  let tokens : List Token := [⟨.identifier "a", "a", ⟨"<string>", 1, 1, 0⟩⟩,
    ⟨.marker .indent .none, "", ⟨"<string>", 2, 1, 2⟩⟩,
    ⟨.identifier "b", "b", ⟨"<string>", 2, 3, 4⟩⟩,
    ⟨.marker .dedent .none, "", ⟨"<string>", 2, 4, 5⟩⟩]
  let again : List Token := [⟨.identifier "a", "a", ⟨"f", 1, 1, 0⟩⟩,
    ⟨.identifier "b", "b", ⟨"f", 3, 1, 3⟩⟩]
  refine ⟨config, tokens, again, rfl, eq_ok_of_toOption (by decide +kernel), by decide +kernel,
    eq_ok_of_toOption (by decide +kernel), ?_⟩
  intro hagrees
  cases hagrees.length_eq

end

end TraitMarkup
