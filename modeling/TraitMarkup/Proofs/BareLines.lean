import TraitMarkup.Proofs.Alike
import TraitMarkup.Proofs.LineStart
import TraitMarkup.Proofs.Placing

/-!
# Bare lines

A line with nothing but blanks and perhaps a comment on it may be put into a text, or taken out, and
the text is scanned to the same tokens or refused for the same cause. A scan that gets through a
text is in the same state behind the next line feed, whatever blanks come before it
(`Scan.Resumes`); a bare line leaves it in that state (`BareLine.exists_start`); and from there on
the places of tokens do not matter (`Scan.ofLines_moved`).
-/

namespace TraitMarkup

open Token (Kind Body Payload)

variable {file : String} {p : Position} {t : Indentation}

/-! ## The end of a line -/

/-- Nothing, or blanks and a line feed behind them. There may be line feeds among the blanks. -/
inductive LineEnd : List Char → Prop where
  | nil : LineEnd []
  | newline {gap : List Char} (rest : List Char) : (∀ c ∈ gap, Text.isBlank c) →
      LineEnd (gap ++ '\n' :: rest)

theorem LineEnd.isBlank_head {more : List Char} (h : LineEnd more) :
    ∀ c ∈ more.head?, Text.isBlank c := by
  cases h with
  | nil => simp
  | @newline gap rest hgap =>
    intro c hc
    match gap with
    | [] =>
      cases hc
      decide
    | d :: gap =>
      cases hc
      exact hgap _ List.mem_cons_self

/-- Among blanks and behind them there is a first line feed. -/
theorem exists_first_newline (gap rest : List Char) : ∃ w gap', gap = w ++ gap' ∧ '\n' ∉ w ∧
    ∀ c ∈ (gap' ++ '\n' :: rest).head?, c = '\n' := by
  obtain ⟨w, gap', rfl, hw, hhead⟩ := exists_span (· != '\n') gap
  refine ⟨w, gap', rfl, ?_, ?_⟩
  · intro hmem
    simpa using hw _ hmem
  · match gap' with
    | [] => simp
    | d :: gap' => simpa using hhead

theorem LineEnd.isBare {more : List Char} (h : LineEnd more) :
    LogicalLine.isBare (pieces more) = true := by
  cases h with
  | nil => exact LogicalLine.isBare_of_head (by simp)
  | @newline gap rest hgap =>
    obtain ⟨w, gap, rfl, hw, hnext⟩ := exists_first_newline gap rest
    have hblank : ∀ c ∈ w, Text.isBlank c ∧ c ≠ '\n' := by
      intro c hc
      exact ⟨hgap c (List.mem_append_left gap hc), ne_of_mem_of_not_mem hc hw⟩
    rw [List.append_assoc, LogicalLine.isBare_append hblank]
    apply LogicalLine.isBare_of_head
    exact fun c hc => .inl (hnext c hc)

namespace Scan

/-- Blanks before a line feed lead to the start of a line. -/
theorem inside_gap {gap : List Char} (h : ∀ c ∈ gap, Text.isBlank c) (rest : List Char) :
    inside file p t (gap ++ '\n' :: rest) = start file (p.after (gap ++ ['\n'])) t rest := by
  induction gap generalizing p with
  | nil => exact inside_newline rest
  | cons c gap ih =>
    obtain ⟨hc, hgap⟩ := List.forall_mem_cons.mp h
    rw [List.cons_append]
    by_cases hn : c = '\n'
    · subst hn
      rw [inside_newline, start_bare (LineEnd.newline rest hgap).isBare, ih hgap]
      rfl
    · rw [inside_blank hc hn, ih hgap]
      rfl

/-! ## Going on behind a line feed -/

/-- A scan gets through a text with the given tokens. If the text ends there, open blocks are
closed; if only blanks come before the next line feed, the scan goes on behind it in the given
state. -/
structure Resumes (scan : List Char → Scan) (file : String) (p : Position) (cs : List Char)
    (t : Indentation) (tokens : List Token) : Prop where
  stop : scan cs = (ofLines file (p.after cs) t []).prepend tokens
  line (gap rest : List Char) : (∀ c ∈ gap, Text.isBlank c) →
    scan (cs ++ (gap ++ '\n' :: rest)) =
      (start file (p.after (cs ++ (gap ++ ['\n']))) t rest).prepend tokens

namespace Resumes

variable {scan scan' : List Char → Scan} {cs l : List Char} {tokens us : List Token}

theorem nil (file : String) (p : Position) (t : Indentation) :
    Resumes (inside file p t) file p [] t [] := by
  refine ⟨inside_nil, ?_⟩
  intro gap rest hgap
  exact inside_gap hgap rest

/-- The scan takes some characters first, whatever end of a line follows. -/
theorem step (h : Resumes scan' file (p.after l) cs t tokens)
    (hscan : ∀ more, LineEnd more → scan (l ++ (cs ++ more)) = (scan' (cs ++ more)).prepend us) :
    Resumes scan file p (l ++ cs) t (us ++ tokens) := by
  constructor
  · have hstop := hscan [] .nil
    rw [List.append_nil] at hstop
    rw [hstop, h.stop, prepend_prepend, Position.after_append]
  · intro gap rest hgap
    rw [List.append_assoc, hscan _ (.newline rest hgap), h.line gap rest hgap, prepend_prepend,
      List.append_assoc, Position.after_append p l]

theorem skip (h : Resumes scan' file (p.after l) cs t tokens)
    (hscan : ∀ more, LineEnd more → scan (l ++ (cs ++ more)) = scan' (cs ++ more)) :
    Resumes scan file p (l ++ cs) t tokens := by
  have hskip : Resumes scan file p (l ++ cs) t ([] ++ tokens) := h.step hscan
  exact hskip

theorem start {t' t'' : Indentation} {markers : List Marker}
    (h : Resumes (inside file p t') file p cs t'' tokens)
    (henter : t.enter (pieces cs) = (.ok markers, t')) :
    Resumes (start file p t) file p cs t'' (markers.map (.ofMarker (p.inFile file)) ++ tokens) := by
  have h : Resumes (inside file p t') file (p.after []) cs t'' tokens := h
  apply h.step
  intro more hmore
  apply start_ok
  rw [List.nil_append, Indentation.enter_append hmore.isBare, henter]

/-- A comment at the end of a text takes in the blanks that follow it on its line. -/
theorem comment {text : List Char} (ht : '\n' ∉ text) (file : String) (p : Position)
    (t : Indentation) : Resumes (inside file p t) file p ('#' :: text) t [] := by
  refine ⟨inside_comment_end ht, ?_⟩
  intro gap rest hgap
  obtain ⟨w, gap, rfl, hw, hnext⟩ := exists_first_newline gap rest
  have htext : '\n' ∉ text ++ w := by
    rw [List.mem_append, not_or]
    exact ⟨ht, hw⟩
  have hgap : ∀ c ∈ gap, Text.isBlank c := fun c hc => hgap c (List.mem_append_right w hc)
  have hsplit : '#' :: text ++ (w ++ gap ++ '\n' :: rest) =
      '#' :: (text ++ w) ++ (gap ++ '\n' :: rest) := by
    simp only [List.cons_append, List.append_assoc]
  rw [hsplit, inside_comment htext hnext, inside_gap hgap, ← Position.after_append, prepend_nil]
  simp only [List.cons_append, List.append_assoc]

end Resumes

/-- At the start of a line the indent is taken first. -/
theorem start_resumes {cs : List Char}
    (hinside : ∀ {t}, (inside file p t cs).error = none →
      ∃ t' tokens, Resumes (inside file p t) file p cs t' tokens)
    (h : (start file p t cs).error = none) :
    ∃ t' tokens, Resumes (start file p t) file p cs t' tokens := by
  cases henter : t.enter (pieces cs) with
  | mk r t₁ =>
    cases r with
    | error cause =>
      rw [start_error henter] at h
      cases h
    | ok markers =>
      rw [start_ok henter, error_prepend] at h
      obtain ⟨t', tokens, hrest⟩ := hinside h
      exact ⟨t', _, hrest.start henter⟩

/-- A scan that gets through a text goes on behind the next line feed. -/
theorem inside_resumes {cs : List Char} (h : (inside file p t cs).error = none) :
    ∃ t' tokens, Resumes (inside file p t) file p cs t' tokens := by
  induction cs using pieces_induction generalizing p t with
  | nil => exact ⟨t, [], .nil file p t⟩
  | blank c rest hb hn ih =>
    rw [inside_blank hb hn] at h
    obtain ⟨t', tokens, hrest⟩ := ih h
    have hrest : Resumes _ file (p.after [c]) rest t' tokens := hrest
    exact ⟨t', tokens, hrest.skip fun _ _ => inside_blank hb hn _⟩
  | newline rest ih =>
    rw [inside_newline] at h
    obtain ⟨t', tokens, hrest⟩ := start_resumes ih h
    have hrest : Resumes _ file (p.after ['\n']) rest t' tokens := hrest
    exact ⟨t', tokens, hrest.skip fun _ _ => inside_newline _⟩
  | comment text rest ht hr ih =>
    match rest with
    | [] =>
      rw [List.append_nil]
      exact ⟨t, [], .comment ht file p t⟩
    | d :: rest =>
      rw [inside_comment ht hr] at h
      obtain ⟨t', tokens, hrest⟩ := ih h
      exact ⟨t', tokens, hrest.skip fun _ _ => inside_comment ht hr⟩
  | token body l rest hs hr ih =>
    rw [inside_lexeme hs hr, error_prepend] at h
    obtain ⟨t', tokens, hrest⟩ := ih h
    refine ⟨t', _, hrest.step fun more hmore => inside_lexeme hs (hr.append fun _ => ?_)⟩
    apply ends_of_separator
    intro c hc
    exact .inl (hmore.isBlank_head c hc)
  | breach c cs b rest hread =>
    rw [inside_breach hread] at h
    cases h

end Scan

/-! ## Trailing blanks -/

theorem Text.mem_of_mem_trimEnd {c : Char} {cs : List Char} (h : c ∈ trimEnd cs) : c ∈ cs := by
  obtain ⟨ws, hcs, -⟩ := exists_trimEnd_append cs
  rw [hcs]
  exact List.mem_append_left ws h

theorem Text.trimEnd_cases (cs : List Char) :
    trimEnd cs = [] ∨ ∃ pre c, trimEnd cs = pre ++ [c] ∧ isBlank c = false := by
  cases h : cs.reverse.dropWhile isBlank with
  | nil =>
    left
    rw [trimEnd, h, List.reverse_nil]
  | cons c rest =>
    right
    refine ⟨rest.reverse, c, ?_, ?_⟩
    · rw [trimEnd, h, List.reverse_cons]
    · have hhead := cs.reverse.head?_dropWhile_not isBlank
      rw [h] at hhead
      exact hhead

/-- Only the last part of a text that is not blank is trimmed. -/
theorem Text.trimEnd_append_of_ne_nil {cs : List Char} (h : trimEnd cs ≠ []) (xs : List Char) :
    trimEnd (xs ++ cs) = xs ++ trimEnd cs := by
  obtain ⟨ws, hcs, hws⟩ := exists_trimEnd_append cs
  obtain ⟨pre, c, hpre, hc⟩ := (trimEnd_cases cs).resolve_left h
  conv_lhs => rw [hcs, ← List.append_assoc, trimEnd_append hws, hpre, ← List.append_assoc]
  rw [trimEnd_concat_solid hc, hpre, List.append_assoc]

theorem Text.trimEnd_append_of_eq_nil {cs : List Char} (h : trimEnd cs = []) (xs : List Char) :
    trimEnd (xs ++ cs) = trimEnd xs := by
  obtain ⟨ws, hcs, hws⟩ := exists_trimEnd_append cs
  rw [h, List.nil_append] at hcs
  rw [hcs, trimEnd_append hws]

/-- A text that can be scanned is followed by a line feed and another text. -/
theorem exists_scan_newline {s : String} {tokens : List Token} (h : tokenize file s = .ok tokens) :
    ∃ t us, ∀ rest : String, ∃ q, scan file (s ++ "\n" ++ rest) =
      (Scan.start file q t (Text.trimEnd rest.toList)).prepend us := by
  obtain ⟨herror, -⟩ := Scan.result_eq_ok.mp h
  obtain ⟨t, us, hscan⟩ := Scan.start_resumes Scan.inside_resumes herror
  obtain ⟨gap, hs, hgap⟩ := Text.exists_trimEnd_append s.toList
  refine ⟨t, us, ?_⟩
  intro rest
  have htext : (s ++ "\n" ++ rest).toList = s.toList ++ '\n' :: rest.toList := by simp
  by_cases hrest : Text.trimEnd rest.toList = []
  · have htrim : trimmed (s ++ "\n" ++ rest) = trimmed s := by
      rw [trimmed, htext, List.append_cons, Text.trimEnd_append_of_eq_nil hrest,
        Text.trimEnd_concat_blank (by decide)]
      rfl
    refine ⟨Position.start.after (trimmed s), ?_⟩
    rw [hrest, Scan.start_nil, ← hscan.stop, ← htrim]
    rfl
  · have htrim : trimmed (s ++ "\n" ++ rest) =
        trimmed s ++ (gap ++ '\n' :: Text.trimEnd rest.toList) := by
      rw [trimmed, htext, List.append_cons, Text.trimEnd_append_of_ne_nil hrest,
        ← List.append_assoc]
      conv_lhs => rw [hs]
      simp [trimmed]
    refine ⟨Position.start.after (trimmed s ++ (gap ++ ['\n'])), ?_⟩
    rw [← hscan.line gap _ hgap, ← htrim]
    rfl

/-! ## Bare lines -/

/-- A line of blanks, perhaps with a comment behind them. -/
structure BareLine (b : List Char) : Prop where
  newline : '\n' ∉ b
  split : ∃ ws rest, b = ws ++ rest ∧ (∀ c ∈ ws, Text.isBlank c) ∧ ∀ c ∈ rest.head?, c = '#'

namespace BareLine

variable {b : List Char}

/-- Up to the end of its line, nothing on a bare line counts. -/
theorem start_append (h : BareLine b) {rest : List Char} (hr : ∀ c ∈ rest.head?, c = '\n') :
    Scan.start file p t (b ++ rest) = Scan.inside file (p.after b) t rest := by
  obtain ⟨ws, more, rfl, hws, hmore⟩ := h.split
  have hnewline := h.newline
  rw [List.mem_append, not_or] at hnewline
  have hblank : ∀ c ∈ ws, Text.isBlank c ∧ c ≠ '\n' := by
    intro c hc
    refine ⟨hws c hc, ?_⟩
    rintro rfl
    exact hnewline.1 hc
  have hbare : LogicalLine.isBare (pieces (ws ++ more ++ rest)) = true := by
    rw [List.append_assoc, LogicalLine.isBare_append hblank]
    apply LogicalLine.isBare_of_head
    intro c hc
    match more with
    | [] => exact .inl (hr c hc)
    | d :: more => exact .inr (hmore c hc)
  rw [Scan.start_bare hbare, List.append_assoc, Scan.inside_blanks hblank]
  match more with
  | [] => rw [List.append_nil, List.nil_append]
  | c :: text =>
    obtain rfl := hmore c rfl
    have htext : '\n' ∉ text := fun hmem => hnewline.2 (List.mem_cons_of_mem _ hmem)
    rw [Scan.inside_comment htext hr, Position.after_append]

theorem trimEnd (h : BareLine b) : BareLine (Text.trimEnd b) := by
  constructor
  · exact fun hmem => h.newline (Text.mem_of_mem_trimEnd hmem)
  · obtain ⟨ws, more, rfl, hws, hmore⟩ := h.split
    by_cases hnil : Text.trimEnd more = []
    · have htrim : Text.trimEnd (ws ++ more) = [] := by
        rw [Text.trimEnd_append_of_eq_nil hnil]
        exact Text.trimEnd_append hws []
      exact ⟨[], [], htrim, by simp, by simp⟩
    · refine ⟨ws, Text.trimEnd more, Text.trimEnd_append_of_ne_nil hnil ws, hws, ?_⟩
      obtain ⟨more', hsplit, -⟩ := Text.exists_trimEnd_append more
      intro c hc
      apply hmore
      rw [hsplit]
      exact mem_head?_append hc more'

/-- A bare line leads from the start of one line to the start of the next. -/
theorem exists_start (h : BareLine b) (file : String) (p : Position) (t : Indentation)
    (rest : List Char) : ∃ q, Scan.start file p t (Text.trimEnd (b ++ '\n' :: rest)) =
      Scan.start file q t (Text.trimEnd rest) := by
  rw [List.append_cons]
  by_cases hrest : Text.trimEnd rest = []
  · refine ⟨p.after (Text.trimEnd b), ?_⟩
    rw [Text.trimEnd_append_of_eq_nil hrest, Text.trimEnd_concat_blank (by decide), hrest]
    have hend : Scan.start file p t (Text.trimEnd b ++ []) = _ := h.trimEnd.start_append (by simp)
    rw [List.append_nil] at hend
    rw [hend, Scan.inside_nil, Scan.start_nil]
  · refine ⟨(p.after b).next '\n', ?_⟩
    rw [Text.trimEnd_append_of_ne_nil hrest, ← List.append_cons, h.start_append (by simp),
      Scan.inside_newline]

end BareLine

/-! ## Tokens in other places -/

/-- The same token in another place. -/
structure Token.Moved (u v : Token) : Prop where
  body : u.body = v.body
  lexeme : u.lexeme = v.lexeme

theorem Token.Moved.rfl {u : Token} : u.Moved u := ⟨.refl _, .refl _⟩

theorem place_moved (file : String) (p q : Position) (ps : List Piece) :
    List.Forall₂ Token.Moved (place file p ps).tokens (place file q ps).tokens ∧
      (place file p ps).error.map ScanError.cause =
        (place file q ps).error.map ScanError.cause := by
  induction ps generalizing p q with
  | nil => exact ⟨.nil, .refl _⟩
  | cons piece ps ih =>
    obtain ⟨htokens, herror⟩ := ih (p.after piece.chars) (q.after piece.chars)
    cases piece with
    | breach b => exact ⟨.nil, .refl _⟩
    | token body l => exact ⟨.cons ⟨.refl _, .refl _⟩ htokens, herror⟩
    | blank | newline | comment => exact ⟨htokens, herror⟩

theorem ofMarker_moved (ms : List Marker) (a b : Location) :
    List.Forall₂ Token.Moved (ms.map (.ofMarker a)) (ms.map (.ofMarker b)) := by
  induction ms with
  | nil => exact .nil
  | cons m ms ih => exact .cons ⟨.refl _, .refl _⟩ ih

/-- Where a scan starts shows in the places only. -/
theorem Scan.ofLines_moved (file : String) (p q : Position) (t : Indentation)
    (lines : List LogicalLine) :
    List.Forall₂ Token.Moved (ofLines file p t lines).tokens (ofLines file q t lines).tokens ∧
      (ofLines file p t lines).error.map ScanError.cause =
        (ofLines file q t lines).error.map ScanError.cause := by
  induction lines generalizing p q t with
  | nil => exact ⟨ofMarker_moved _ _ _, .refl _⟩
  | cons line lines ih =>
    rw [ofLines, ofLines]
    cases t.enter line with
    | mk r t' =>
      cases r with
      | error cause => exact ⟨.nil, .refl _⟩
      | ok markers =>
        obtain ⟨htokens, herror⟩ := place_moved file p q line
        have hmarkers := ofMarker_moved markers (p.inFile file) (q.inFile file)
        have hline := List.rel_append hmarkers htokens
        cases hp : (place file p line).error with
        | none =>
          rw [hp, Option.map_none, eq_comm, Option.map_eq_none_iff] at herror
          obtain ⟨hrest, hcause⟩ := ih (place file p line).position (place file q line).position t'
          simp only [hp, herror]
          exact ⟨List.rel_append hline hrest, hcause⟩
        | some e =>
          rw [hp, Option.map_some, eq_comm, Option.map_eq_some_iff] at herror
          obtain ⟨e', he', hcause⟩ := herror
          simp only [hp, he']
          exact ⟨hline, congrArg some hcause.symm⟩

/-- What the results of two scans have in common that differ in places only. -/
theorem Scan.result_agree {s s' : Scan} (htokens : List.Forall₂ Token.Moved s.tokens s'.tokens)
    (herror : s.error.map ScanError.cause = s'.error.map ScanError.cause) :
    Agree (fun e e' => e.cause = e'.cause) (List.Forall₂ Token.Moved) s.result s'.result := by
  unfold result
  cases he : s.error with
  | none =>
    rw [he, Option.map_none, eq_comm, Option.map_eq_none_iff] at herror
    rw [herror]
    exact .ok htokens
  | some e =>
    rw [he, Option.map_some, eq_comm, Option.map_eq_some_iff] at herror
    obtain ⟨e', he', hcause⟩ := herror
    rw [he']
    exact .error hcause.symm

/-- A bare line between two texts, the first of which can be scanned, makes no difference: there are
the same tokens, but for their places, or the same cause of an error. -/
theorem tokenize_bareLine {s₁ b : String} {tokens : List Token} (h : tokenize file s₁ = .ok tokens)
    (hb : BareLine b.toList) (s₂ : String) :
    Agree (fun e e' => e.cause = e'.cause) (List.Forall₂ Token.Moved)
      (tokenize file (s₁ ++ "\n" ++ b ++ "\n" ++ s₂)) (tokenize file (s₁ ++ "\n" ++ s₂)) := by
  obtain ⟨t, us, hscan⟩ := exists_scan_newline h
  obtain ⟨q, hq⟩ := hscan s₂
  obtain ⟨p, hp⟩ := hscan (b ++ "\n" ++ s₂)
  obtain ⟨p', hp'⟩ := hb.exists_start file p t s₂.toList
  have htext : (b ++ "\n" ++ s₂).toList = b.toList ++ '\n' :: s₂.toList := by simp
  rw [htext, hp'] at hp
  have hassoc : s₁ ++ "\n" ++ b ++ "\n" ++ s₂ = s₁ ++ "\n" ++ (b ++ "\n" ++ s₂) := by
    simp only [String.append_assoc]
  obtain ⟨htokens, herror⟩ :=
    Scan.ofLines_moved file p' q t (logicalLines (pieces (Text.trimEnd s₂.toList)))
  rw [tokenize, tokenize, hassoc, hp, hq]
  have hus : List.Forall₂ Token.Moved us us := List.forall₂_same.mpr fun _ _ => .rfl
  exact Scan.result_agree (List.rel_append hus htokens) herror

-- A text that is indented by tabs, where spaces before a comment are no fault, but before a word.
theorem tokenize_bareLine_spaces :
    (∃ tokens, tokenize "f" "a\n\tb" = .ok tokens) ∧ BareLine "  # c".toList ∧
      ∀ s₂ ∈ ["\tc", "", "  c"], Agree (fun e e' => e.cause = e'.cause) (List.Forall₂ Token.Moved)
        (tokenize "f" ("a\n\tb" ++ "\n" ++ "  # c" ++ "\n" ++ s₂))
        (tokenize "f" ("a\n\tb" ++ "\n" ++ s₂)) := by
  have h : tokenize "f" "a\n\tb" = .ok [⟨.identifier "a", "a", ⟨"f", 1, 1, 0⟩⟩,
      ⟨.marker .indent .none, "", ⟨"f", 2, 1, 2⟩⟩, ⟨.identifier "b", "b", ⟨"f", 2, 2, 3⟩⟩,
      ⟨.marker .dedent .none, "", ⟨"f", 2, 3, 4⟩⟩] :=
    eq_ok_of_toOption (by decide +kernel)
  have hb : BareLine "  # c".toList :=
    ⟨by decide, [' ', ' '], ['#', ' ', 'c'], by decide, List.all_eq_true.mp (by decide), by simp⟩
  refine ⟨⟨_, h⟩, hb, ?_⟩
  intro s₂ _
  exact tokenize_bareLine h hb s₂

end TraitMarkup
