import TraitMarkup.Proofs.BareLines
import TraitMarkup.Proofs.Independence

/-!
# Lines that are passed over

A source gives nothing for a line without tokens, provided that the line can be scanned up to its end.
Blanks at the end of a line are not looked at, so a line of blanks is always passed over. The blanks
before a comment are taken for the indent of a line, though, and a line is refused if they are not all
the same (`MixedComment`), even if there is nothing on it but the comment.
-/

namespace TraitMarkup

variable {file : String} {p : Position} {n : Nat} {a text ws : List Char}

/-! ## Comments and the blanks before them -/

/-- A comment behind blanks of more than one kind: one of them `n` times, and then another. -/
inductive MixedComment (n : Nat) : List Char → Prop where
  | intro {c d : Char} {ws : List Char} (text : List Char) : 0 < n → d ≠ c →
      (∀ b ∈ List.replicate n c ++ d :: ws, Text.isBlank b) →
      MixedComment n (List.replicate n c ++ d :: ws ++ '#' :: text)

theorem MixedComment.mem (h : MixedComment n a) : '#' ∈ a := by
  cases h
  simp

theorem exists_replicate_or_other (ws : List Char) : (∃ n c, ws = List.replicate n c) ∨
    ∃ n c d rest, 0 < n ∧ d ≠ c ∧ ws = List.replicate n c ++ d :: rest := by
  match ws with
  | [] => exact .inl ⟨0, ' ', rfl⟩
  | c :: cs =>
    obtain ⟨same, rest, rfl, hsame, hrest⟩ := exists_span (· == c) cs
    have hrun : c :: same = List.replicate (same.length + 1) c := by
      rw [List.replicate_succ, ← List.eq_replicate_of_mem fun d hd => beq_iff_eq.mp (hsame d hd)]
    match rest with
    | [] => exact .inl ⟨same.length + 1, c, by rw [List.append_nil, hrun]⟩
    | d :: rest =>
      have hd : d ≠ c := by simpa using hrest d rfl
      exact .inr ⟨same.length + 1, c, d, rest, Nat.succ_pos _, hd, by
        rw [← List.cons_append, hrun]⟩

/-- A bare line is blank, or it has a comment behind blanks that are all the same or not. -/
theorem BareLine.cases (h : BareLine a) : (∀ c ∈ a, Text.isBlank c) ∨
    (∃ n c text, a = List.replicate n c ++ '#' :: text ∧
      ∀ b ∈ List.replicate n c, Text.isBlank b) ∨ ∃ n, MixedComment n a := by
  obtain ⟨ws, rest, rfl, hws, hrest⟩ := h.split
  match rest with
  | [] =>
    left
    rwa [List.append_nil]
  | c :: text =>
    right
    obtain rfl := hrest c rfl
    rcases exists_replicate_or_other ws with ⟨n, c, rfl⟩ | ⟨n, c, d, rest, hn, hd, rfl⟩
    · exact .inl ⟨n, c, text, rfl, hws⟩
    · exact .inr ⟨n, .intro text hn hd hws⟩

/-! ## Scanning a bare line -/

theorem trimmed_comment (ws text : List Char) :
    trimmed (String.ofList (ws ++ '#' :: text)) = ws ++ '#' :: Text.trimEnd text := by
  have hcomment : Text.trimEnd ('#' :: text) = '#' :: Text.trimEnd text := by
    by_cases htext : Text.trimEnd text = []
    · rw [htext]
      exact Text.trimEnd_append_of_eq_nil htext ['#']
    · exact Text.trimEnd_append_of_ne_nil htext ['#']
  have hne : Text.trimEnd ('#' :: text) ≠ [] := by
    rw [hcomment]
    exact List.cons_ne_nil _ _
  rw [trimmed, String.toList_ofList, Text.trimEnd_append_of_ne_nil hne, hcomment]

theorem Text.takeWhile_comment (h : ∀ c ∈ ws, isBlank c) (text : List Char) :
    (ws ++ '#' :: text).takeWhile isBlank = ws := by
  rw [List.takeWhile_append_of_pos h, List.takeWhile_cons_of_neg (by decide), List.append_nil]

theorem place_comment (h : '\n' ∉ text) :
    place file p (pieces ('#' :: text)) = ⟨[], p.after ('#' :: text), none⟩ := by
  have hread : Piece.read '#' (text ++ []) = _ := Piece.read_comment h (by simp)
  rw [List.append_nil] at hread
  rw [pieces_cons, hread, pieces_nil]
  rfl

theorem scanLine_blank (h : ∀ c ∈ a, Text.isBlank c) (file : String) :
    ∃ location, scanLine file (String.ofList a) = .error ⟨.noTokens, location⟩ := by
  have htrim : trimmed (String.ofList a) = [] := by
    rw [trimmed, String.toList_ofList]
    exact Text.trimEnd_append h []
  have hblanks : (trimmed (String.ofList a)).takeWhile Text.isBlank = List.replicate 0 ' ' := by
    rw [htrim]
    rfl
  rw [scanLine_eq hblanks, htrim, pieces_nil]
  exact ⟨_, LineScan.result_eq_noTokens rfl rfl⟩

theorem scanLine_comment {c : Char} (h : ∀ b ∈ List.replicate n c, Text.isBlank b)
    (htext : '\n' ∉ text) (file : String) : ∃ location,
      scanLine file (String.ofList (List.replicate n c ++ '#' :: text)) =
        .error ⟨.noTokens, location⟩ := by
  have hblanks := Text.takeWhile_comment h (Text.trimEnd text)
  have htext : '\n' ∉ Text.trimEnd text := fun hmem => htext (Text.mem_of_mem_trimEnd hmem)
  rw [← trimmed_comment] at hblanks
  rw [scanLine_eq hblanks, trimmed_comment, place_blanks h, place_comment htext]
  exact ⟨_, LineScan.result_eq_noTokens rfl rfl⟩

/-- Blanks of more than one kind before a comment are refused, where the first of another kind
stands. -/
theorem scanLine_mixedComment (h : MixedComment n a) (ha : '\n' ∉ a) (file : String) :
    scanLine file (String.ofList a) = .error ⟨.mixedIndent, ⟨file, 1, n + 1, n⟩⟩ := by
  obtain @⟨c, d, ws, text, hn, hd, hblank⟩ := h
  have hline : '\n' ∉ List.replicate n c := by
    intro hmem
    apply ha
    rw [List.append_assoc]
    exact List.mem_append_left _ hmem
  have hp : Position.start.after (List.replicate n c) = ⟨1, n + 1, n⟩ := by
    rw [Position.after_of_not_mem hline, List.length_replicate, Position.start, Nat.add_comm,
      Nat.zero_add]
  have hblanks := Text.takeWhile_comment hblank (Text.trimEnd text)
  rw [scanLine, lineScan, trimmed_comment, LineScan.ofChars_mixed hn hd hblanks, hp]
  exact LineScan.result_eq_error rfl

/-! ## What a source gives for a bare line -/

theorem Extraction.ofLine_of_scanLine {text : String} {e : ScanError}
    (h : scanLine file text = .error e) (k : Nat) : ofLine file (k, text) =
      if (LineFailure.ofScan e).isBlank then [] else [(k, .error (.ofScan e))] := by
  rw [ofLine, extractLine, h]

theorem BareLine.ofLine_eq_nil (h : BareLine a) (hmixed : ¬∃ n, MixedComment n a) (k : Nat) :
    Extraction.ofLine file (k, String.ofList a) = [] := by
  obtain ⟨location, hscan⟩ :
      ∃ location, scanLine file (String.ofList a) = .error ⟨.noTokens, location⟩ := by
    rcases h.cases with hblank | ⟨n, c, text, rfl, hblank⟩ | hcomment
    · exact scanLine_blank hblank file
    · have htext : '\n' ∉ text := fun hmem =>
        h.newline (List.mem_append_right _ (List.mem_cons_of_mem _ hmem))
      exact scanLine_comment hblank htext file
    · exact absurd hcomment hmixed
  rw [Extraction.ofLine_of_scanLine hscan k]
  rfl

theorem MixedComment.ofLine_eq (h : MixedComment n a) (ha : '\n' ∉ a) (k : Nat) :
    Extraction.ofLine file (k, String.ofList a) =
      [(k, .error (.ofScan ⟨.mixedIndent, ⟨file, 1, n + 1, n⟩⟩))] := by
  rw [Extraction.ofLine_of_scanLine (scanLine_mixedComment h ha file) k]
  rfl

/-- What a source gives for one of its lines. -/
theorem pairsOf_line {source : String} {k : Nat}
    (hline : (Text.lines source.toList)[k]? = some a) (file : String) :
    (extractLines file source).pairsOf (k + 1) =
      if ∃ b ∈ (Text.lines source.toList).take k, Overlong file (String.ofList b) then []
      else Extraction.ofLine file (k + 1, String.ofList a) := by
  split
  · rename_i hlong
    exact pairsOf_extractLines_overlong hlong
  · rename_i hshort
    rw [pairsOf_extractLines fun b hb hlong => hshort ⟨b, hb, hlong⟩, hline]
    rfl

/-- A source gives nothing for a bare line, with one exception: a line with a comment is refused where
the blanks before it change, if no line before it keeps it from being looked at. -/
theorem extractLines_bareLine {source : String} {k : Nat}
    (hline : (Text.lines source.toList)[k]? = some a) (h : BareLine a) :
    ((extractLines file source).pairsOf (k + 1) = [] ↔ (¬∃ n, MixedComment n a) ∨
      ∃ b ∈ (Text.lines source.toList).take k, Overlong file (String.ofList b)) ∧
    ∀ n, MixedComment n a →
      (¬∃ b ∈ (Text.lines source.toList).take k, Overlong file (String.ofList b)) →
      (extractLines file source).pairsOf (k + 1) =
        [(k + 1, .error (.ofScan ⟨.mixedIndent, ⟨file, 1, n + 1, n⟩⟩))] := by
  rw [pairsOf_line hline]
  by_cases hlong : ∃ b ∈ (Text.lines source.toList).take k, Overlong file (String.ofList b)
  · rw [if_pos hlong]
    exact ⟨iff_of_true rfl (.inr hlong), fun n _ hshort => absurd hlong hshort⟩
  · rw [if_neg hlong, or_iff_left hlong]
    refine ⟨⟨?_, fun hbare => h.ofLine_eq_nil hbare _⟩,
      fun n hmixed _ => hmixed.ofLine_eq h.newline _⟩
    rintro hnil ⟨n, hmixed⟩
    rw [hmixed.ofLine_eq h.newline] at hnil
    cases hnil

-- Blanks of two kinds, without a comment behind them and with one.
theorem extractLines_bareLine_mixed :
    let source := "@\n \t\n \t# c\nb"
    (Text.lines source.toList)[1]? = some " \t".toList ∧ BareLine " \t".toList ∧
      (Text.lines source.toList)[2]? = some " \t# c".toList ∧ BareLine " \t# c".toList ∧
      (extractLines "f" source).pairsOf 2 = [] ∧
      (extractLines "f" source).pairsOf 3 =
        [(3, .error (.ofScan ⟨.mixedIndent, ⟨"f", 1, 2, 1⟩⟩))] := by
  intro source
  have hline : (Text.lines source.toList)[1]? = some " \t".toList := by decide
  have hbare : BareLine " \t".toList :=
    ⟨by decide, [' ', '\t'], [], by decide, List.all_eq_true.mp (by decide), by simp⟩
  have hline' : (Text.lines source.toList)[2]? = some " \t# c".toList := by decide
  have hbare' : BareLine " \t# c".toList :=
    ⟨by decide, [' ', '\t'], ['#', ' ', 'c'], by decide, List.all_eq_true.mp (by decide), by simp⟩
  have hnone : ¬∃ n, MixedComment n " \t".toList := by
    rintro ⟨n, hmixed⟩
    exact absurd hmixed.mem (by decide)
  have hmixed : MixedComment 1 (List.replicate 1 ' ' ++ '\t' :: [] ++ '#' :: [' ', 'c']) :=
    .intro _ (by decide) (by decide) (List.all_eq_true.mp (by decide))
  refine ⟨hline, hbare, hline', hbare', ?_, ?_⟩
  · exact (extractLines_bareLine hline hbare).1.mpr (.inl hnone)
  · exact (extractLines_bareLine hline' hbare').2 1 hmixed (by decide +kernel)

/-- A line that is nothing but a comment behind a space and a tab is not passed over. -/
theorem extractLines_mixed_comment :
    BareLine " \t# c".toList ∧ (Text.lines " \t# c".toList)[0]? = some " \t# c".toList ∧
      (extractLines "f" " \t# c").pairsOf 1 ≠ [] := by
  have hbare : BareLine " \t# c".toList :=
    ⟨by decide, [' ', '\t'], ['#', ' ', 'c'], by decide, List.all_eq_true.mp (by decide), by simp⟩
  exact ⟨hbare, by decide, by decide +kernel⟩

end TraitMarkup
