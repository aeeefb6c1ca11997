import TraitMarkup.Proofs.Placing

/-!
# A text taken as one line

A text may be scanned as a whole or as a single line. Both scans cut it into the same pieces and put
them in the same places; they differ in the markers, and in what they ask of indents. So an error of
the whole scan is one of an indent, or it is the error of the pieces (`Scan.error_ofLines`), and the
scan of a single line comes to the same unless the blanks at the start of the text differ
(`LineScan.ofChars_eq`).
-/

namespace TraitMarkup

variable {file : String} {p : Position} {t : Indentation}

/-! ## Errors of a whole scan -/

theorem Indentation.name_of_enter {line : LogicalLine} {cause : ScanError.Cause} {t' : Indentation}
    (h : t.enter line = (.error cause, t')) : cause.name = "InconsistentWhitespace" := by
  unfold enter at h
  split at h
  · cases h
  · unfold measure at h
    split at h
    · cases h
    · simp only at h
      split at h
      · cases h
        rfl
      · split at h <;> cases h
        rfl

/-- A scan that fails refuses an indent, or the pieces hold the error. -/
theorem Scan.error_ofLines {lines : List LogicalLine} {e : ScanError}
    (h : (ofLines file p t lines).error = some e) :
    e.cause.name = "InconsistentWhitespace" ∨ (place file p lines.flatten).error = some e := by
  induction lines generalizing p t with
  | nil => cases h
  | cons line lines ih =>
    rw [ofLines] at h
    rw [List.flatten_cons]
    cases henter : t.enter line with
    | mk r t' =>
      cases r with
      | error cause =>
        simp only [henter, Option.some.injEq] at h
        subst h
        exact .inl (Indentation.name_of_enter henter)
      | ok markers =>
        cases hplace : (place file p line).error with
        | some e' =>
          simp only [henter, hplace, Option.some.injEq] at h
          subst h
          right
          rw [place_append_error _ hplace, hplace]
        | none =>
          simp only [henter, hplace, error_prepend] at h
          rw [place_append _ hplace]
          exact ih h

/-! ## Scanning a single line -/

/-- Where the text starts with a run of one blank, all of its pieces are put in their places. -/
theorem LineScan.ofChars_eq {cs : List Char} {n : Nat} {c : Char}
    (h : cs.takeWhile Text.isBlank = List.replicate n c) (file : String) :
    ofChars file cs = ⟨place file .start (pieces cs), n⟩ := by
  have hsame : (List.replicate n c).takeWhile (some · == (List.replicate n c).head?) =
      List.replicate n c := by
    match n with
    | 0 => rfl
    | n + 1 => simp [List.head?_replicate]
  have hblank : ∀ d ∈ List.replicate n c, Text.isBlank d := by
    rw [← h]
    exact List.all_eq_true.mp List.all_takeWhile
  have hsplit : List.replicate n c ++ cs.dropWhile Text.isBlank = cs := by
    rw [← h, List.takeWhile_append_dropWhile]
  have hplace : place file .start (pieces (List.replicate n c ++ cs.dropWhile Text.isBlank)) =
      place file (Position.start.after (List.replicate n c)) (pieces (cs.dropWhile Text.isBlank)) :=
    place_blanks hblank _
  rw [hsplit] at hplace
  simp only [ofChars, h, hsame, Nat.lt_irrefl, if_false, List.length_replicate, hplace]

/-- Where the blanks at the start of the text are not all the same, it is refused at the first that
differs. -/
theorem LineScan.ofChars_mixed {cs ws : List Char} {n : Nat} {c d : Char} (hn : 0 < n) (hd : d ≠ c)
    (h : cs.takeWhile Text.isBlank = List.replicate n c ++ d :: ws) (file : String) :
    let p := Position.start.after (List.replicate n c)
    ofChars file cs = ⟨⟨[], p, some ⟨.mixedIndent, p.inFile file⟩⟩, n⟩ := by
  have hhead : (List.replicate n c ++ d :: ws).head? = some c := by
    cases n with
    | zero => exact absurd hn (Nat.lt_irrefl 0)
    | succ n => rfl
  have hrun : ∀ b ∈ List.replicate n c, (some b == some c) = true := by
    intro b hb
    rw [List.eq_of_mem_replicate hb, beq_self_eq_true]
  have hsame : (List.replicate n c ++ d :: ws).takeWhile (some · == some c) =
      List.replicate n c := by
    rw [List.takeWhile_append_of_pos hrun, List.takeWhile_cons_of_neg (by simpa using hd),
      List.append_nil]
  have hlt : n < (List.replicate n c ++ d :: ws).length := by simp
  simp only [ofChars, h, hhead, hsame, List.length_replicate, if_pos hlt]

theorem LineScan.result_eq_ok {s : LineScan} {l : Line Token} (he : s.error = none)
    (hindent : s.indent = l.indent) (htokens : s.tokens = l.members) : s.result file = .ok l := by
  obtain ⟨indent, members, hne⟩ := l
  subst hindent htokens
  simp only [result, he, dif_neg hne]

theorem LineScan.result_eq_noTokens {s : LineScan} (he : s.error = none) (hnil : s.tokens = []) :
    s.result file = .error ⟨.noTokens, s.position.inFile file⟩ := by
  simp only [result, he, dif_pos hnil]

theorem LineScan.result_eq_error {s : LineScan} {e : ScanError} (he : s.error = some e) :
    s.result file = .error e := by
  simp only [result, he]

theorem LineScan.error_of_result {s : LineScan} {e : ScanError} (h : s.result file = .error e) :
    s.error = some e ∨ e = ⟨.noTokens, s.position.inFile file⟩ := by
  unfold result at h
  split at h
  · rename_i herror
    cases h
    exact .inl herror
  · split at h <;> cases h
    exact .inr rfl

theorem scanLine_eq {text : String} {n : Nat} {c : Char}
    (h : (trimmed text).takeWhile Text.isBlank = List.replicate n c) (file : String) :
    scanLine file text =
      LineScan.result file ⟨place file .start (pieces (trimmed text)), n⟩ := by
  rw [scanLine, lineScan, LineScan.ofChars_eq h]

/-! ## Both scans agree -/

/-- Scanned as a single line, a text that starts with a run of one blank has the tokens that it has as
a whole, but for the markers, and the run is its indent. Where there are none, it says so. An error of
the whole scan that is not about an indent is one of the single line too. -/
theorem scanLine_of_tokenize {source : String} {n : Nat} {c : Char}
    (h : (trimmed source).takeWhile Text.isBlank = List.replicate n c) (file : String) :
    (∀ tokens, tokenize file source = .ok tokens →
      (∀ hne : tokens.filter (!·.isMarker) ≠ [],
        scanLine file source = .ok ⟨n, tokens.filter (!·.isMarker), hne⟩) ∧
      ((∃ location, scanLine file source = .error ⟨.noTokens, location⟩) ↔
        tokens.filter (!·.isMarker) = [])) ∧
    ∀ e, tokenize file source = .error e → e.cause.name ≠ "InconsistentWhitespace" →
      scanLine file source = .error e := by
  have hline := scanLine_eq h file
  constructor
  · intro tokens htokens
    obtain ⟨herror, hwords⟩ := place_pieces htokens
    rw [← hwords]
    have hok : ∀ hne : (place file .start (pieces (trimmed source))).tokens ≠ [],
        scanLine file source = .ok ⟨n, _, hne⟩ := by
      intro hne
      rw [hline]
      exact LineScan.result_eq_ok herror rfl rfl
    refine ⟨hok, ?_, ?_⟩
    · rintro ⟨location, hnone⟩
      apply Classical.byContradiction
      intro hne
      rw [hok hne] at hnone
      cases hnone
    · intro hnil
      rw [hline]
      exact ⟨_, LineScan.result_eq_noTokens herror hnil⟩
  · intro e he hname
    have herror : (place file .start (pieces (trimmed source))).error = some e := by
      rw [← flatten_logicalLines (pieces (trimmed source))]
      exact (Scan.error_ofLines (Scan.result_eq_error.mp he)).resolve_left hname
    rw [hline]
    exact LineScan.result_eq_error herror

theorem scanLine_of_tokenize_line_feeds :
    (∃ tokens, (trimmed "\n\na='x\ny'\n  b").takeWhile Text.isBlank = List.replicate 2 '\n' ∧
      tokenize "f" "\n\na='x\ny'\n  b" = .ok tokens ∧ tokens.length = 6 ∧ ∃ hne,
        scanLine "f" "\n\na='x\ny'\n  b" = .ok ⟨2, tokens.filter (!·.isMarker), hne⟩) ∧
    ∃ e, (trimmed "\ta\n\t\t'x").takeWhile Text.isBlank = List.replicate 1 '\t' ∧
      tokenize "f" "\ta\n\t\t'x" = .error e ∧ e.cause = .unterminated '\'' "x" ∧
      scanLine "f" "\ta\n\t\t'x" = .error e := by
  have hlines : (trimmed "\n\na='x\ny'\n  b").takeWhile Text.isBlank = List.replicate 2 '\n' := by
    decide +kernel
  have htab : (trimmed "\ta\n\t\t'x").takeWhile Text.isBlank = List.replicate 1 '\t' := by
    decide +kernel
  have htokens : tokenize "f" "\n\na='x\ny'\n  b" = .ok
      [⟨.identifier "a", "a", ⟨"f", 3, 1, 2⟩⟩, ⟨.symbol .equals .none, "=", ⟨"f", 3, 2, 3⟩⟩,
       ⟨.string "x\ny", "'x\ny'", ⟨"f", 3, 3, 4⟩⟩, ⟨.marker .indent .none, "", ⟨"f", 5, 1, 10⟩⟩,
       ⟨.identifier "b", "b", ⟨"f", 5, 3, 12⟩⟩, ⟨.marker .dedent .none, "", ⟨"f", 5, 4, 13⟩⟩] :=
    eq_ok_of_toOption (by decide +kernel)
  have herror : tokenize "f" "\ta\n\t\t'x" =
      .error ⟨.unterminated '\'' "x", ⟨"f", 2, 3, 5⟩⟩ :=
    Scan.result_eq_error.mpr (by decide +kernel)
  refine ⟨⟨_, hlines, htokens, rfl, List.cons_ne_nil _ _, ?_⟩, ⟨_, htab, herror, rfl, ?_⟩⟩
  · exact ((scanLine_of_tokenize hlines "f").1 _ htokens).1 _
  · exact (scanLine_of_tokenize htab "f").2 _ herror (by decide)

end TraitMarkup
