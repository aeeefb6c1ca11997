import TraitMarkup.Proofs.Pieces
import TraitMarkup.Scan

/-!
# Scanning step by step

A scan of logical lines is seen here as a scan of characters that is either at the start of a line
(`Scan.start`) or inside one (`Scan.inside`). The first takes the indent (`Scan.start_line`); the
second takes one lexeme, blank, comment or line feed at a time (`Scan.inside_lexeme` and its
neighbours). The tokens that a scan finds beside the markers are those of its pieces, put in their
places (`Scan.place_flatten`).
-/

namespace TraitMarkup

open Token (Kind Body Payload)

variable {file : String} {p : Position} {t : Indentation}

namespace Scan

@[simp] theorem prepend_nil (s : Scan) : s.prepend [] = s := rfl

@[simp] theorem prepend_prepend (xs ys : List Token) (s : Scan) :
    (s.prepend ys).prepend xs = s.prepend (xs ++ ys) := by
  simp [prepend]

@[simp] theorem error_prepend (xs : List Token) (s : Scan) : (s.prepend xs).error = s.error := rfl

@[simp] theorem tokens_prepend (xs : List Token) (s : Scan) :
    (s.prepend xs).tokens = xs ++ s.tokens := rfl

theorem result_eq_ok {s : Scan} {tokens : List Token} :
    s.result = .ok tokens ↔ s.error = none ∧ s.tokens = tokens := by
  unfold result
  cases s.error <;> simp

theorem result_eq_error {s : Scan} {e : ScanError} : s.result = .error e ↔ s.error = some e := by
  unfold result
  cases s.error <;> simp

/-- Scanning on inside a line whose indent has been taken. -/
def within (file : String) (p : Position) (t : Indentation) : List Piece → Scan
  | [] => ofLines file p t []
  | .newline :: rest => ofLines file (p.next '\n') t (logicalLines rest)
  | .token body lexeme :: rest =>
    (within file (p.after lexeme) t rest).prepend [⟨body, String.ofList lexeme, p.inFile file⟩]
  | .breach b :: _ => ⟨[], p.after b.seen, t, some ⟨b.cause, (p.after b.before).inFile file⟩⟩
  | piece :: rest => within file (p.after piece.chars) t rest

end Scan

/-! ## The first of the logical lines -/

theorem logicalLines_cons {piece : Piece} (h : piece ≠ .newline) (rest : List Piece) :
    logicalLines (piece :: rest) =
      match logicalLines rest with
      | [] => [[piece]]
      | line :: lines => (piece :: line) :: lines := by
  cases piece with
  | newline => exact absurd rfl h
  | _ => rfl

theorem logicalLines_eq_nil {ps : List Piece} : logicalLines ps = [] ↔ ps = [] := by
  match ps with
  | [] => simp [logicalLines]
  | piece :: rest =>
    by_cases h : piece = .newline
    · simp [h, logicalLines]
    · rw [logicalLines_cons h]
      split <;> simp

theorem flatten_logicalLines (ps : List Piece) : (logicalLines ps).flatten = ps := by
  induction ps with
  | nil => rfl
  | cons piece rest ih =>
    by_cases h : piece = .newline
    · simp [h, logicalLines, ih]
    · rw [logicalLines_cons h]
      split
      · rename_i hnil
        simp [logicalLines_eq_nil.mp hnil]
      · rename_i line lines heq
        rw [heq] at ih
        simpa using ih

namespace LogicalLine

theorem indent_first {ps : List Piece} {line : LogicalLine} {lines : List LogicalLine}
    (h : logicalLines ps = line :: lines) : line.indent = indent ps ∧ line.isBare = isBare ps := by
  induction ps generalizing line lines with
  | nil => cases h
  | cons piece rest ih =>
    cases piece with
    | newline =>
      cases h
      exact ⟨rfl, rfl⟩
    | blank c =>
      rw [logicalLines_cons (by simp)] at h
      split at h
      · rename_i hnil
        cases h
        rw [logicalLines_eq_nil.mp hnil]
        exact ⟨rfl, rfl⟩
      · rename_i line' lines' heq
        cases h
        obtain ⟨hi, hb⟩ := ih heq
        exact ⟨congrArg (c :: ·) hi, hb⟩
    | comment | token | breach =>
      rw [logicalLines_cons (by simp)] at h
      split at h <;> (cases h; exact ⟨rfl, rfl⟩)

end LogicalLine

theorem Indentation.enter_first {ps : List Piece} {line : LogicalLine} {lines : List LogicalLine}
    (h : logicalLines ps = line :: lines) : t.enter line = t.enter ps := by
  obtain ⟨hi, hb⟩ := LogicalLine.indent_first h
  simp only [enter, hi, hb]

namespace Scan

/-- Inside a line, the scan puts the rest of the line in its places and goes on with the next. -/
theorem within_first {ps : List Piece} {line : LogicalLine} {lines : List LogicalLine}
    (h : logicalLines ps = line :: lines) : within file p t ps =
      match (place file p line).error with
      | some e => ⟨(place file p line).tokens, (place file p line).position, t, some e⟩
      | none => (ofLines file (place file p line).position t lines).prepend
          (place file p line).tokens := by
  induction ps generalizing p line lines with
  | nil => cases h
  | cons piece rest ih =>
    cases piece with
    | newline =>
      cases h
      rfl
    | breach b =>
      rw [logicalLines_cons (by simp)] at h
      split at h <;> (cases h; rfl)
    | blank | comment =>
      rw [logicalLines_cons (by simp)] at h
      split at h
      · rename_i hnil
        cases h
        rw [logicalLines_eq_nil.mp hnil]
        rfl
      · rename_i line' lines' heq
        cases h
        exact ih heq
    | token body lexeme =>
      rw [logicalLines_cons (by simp)] at h
      split at h
      · rename_i hnil
        cases h
        rw [logicalLines_eq_nil.mp hnil]
        rfl
      · rename_i line' lines' heq
        cases h
        rw [within, ih heq]
        simp only [place]
        cases (place file (p.after lexeme) line').error <;> simp [prepend]

/-- A scan of lines takes the indent of the first and goes on inside it. -/
theorem ofLines_logicalLines (ps : List Piece) : ofLines file p t (logicalLines ps) =
      match t.enter ps with
      | (.error cause, t) =>
        ⟨[], p.after (LogicalLine.indent ps), t, some ⟨cause, p.inFile file⟩⟩
      | (.ok markers, t) =>
        (within file p t ps).prepend (markers.map (.ofMarker (p.inFile file))) := by
  cases h : logicalLines ps with
  | nil =>
    rw [logicalLines_eq_nil.mp h]
    rfl
  | cons line lines =>
    rw [ofLines, Indentation.enter_first h, (LogicalLine.indent_first h).1]
    rcases t.enter ps with ⟨cause | markers, t'⟩
    · rfl
    · simp only [within_first h]
      cases (place file p line).error <;> simp [prepend]

/-! ## A scan of characters -/

/-- Scanning characters that start a line. -/
def start (file : String) (p : Position) (t : Indentation) (cs : List Char) : Scan :=
  ofLines file p t (logicalLines (pieces cs))

/-- Scanning characters inside a line whose indent has been taken. -/
def inside (file : String) (p : Position) (t : Indentation) (cs : List Char) : Scan :=
  within file p t (pieces cs)

theorem inside_nil : inside file p t [] = ofLines file p t [] := by
  rw [inside, pieces_nil, within]

theorem inside_lexeme {body : Body} {l rest : List Char} (h : Spells body l)
    (hr : Ends body.kind l rest) : inside file p t (l ++ rest) =
      (inside file (p.after l) t rest).prepend [⟨body, String.ofList l, p.inFile file⟩] := by
  obtain ⟨c, cs, heq, hread⟩ := Piece.read_append h hr
  rw [heq, inside, pieces_cons, hread]
  rfl

theorem inside_blank {c : Char} (h : Text.isBlank c) (hn : c ≠ '\n') (rest : List Char) :
    inside file p t (c :: rest) = inside file (p.next c) t rest := by
  rw [inside, pieces_cons, Piece.read_blank rest h hn]
  rfl

theorem inside_newline (rest : List Char) :
    inside file p t ('\n' :: rest) = start file (p.next '\n') t rest := by
  rw [inside, pieces_cons, Piece.read_newline]
  rfl

theorem inside_blanks {ws : List Char} (h : ∀ c ∈ ws, Text.isBlank c ∧ c ≠ '\n')
    (rest : List Char) : inside file p t (ws ++ rest) = inside file (p.after ws) t rest := by
  induction ws generalizing p with
  | nil => rfl
  | cons c ws ih =>
    obtain ⟨hc, hw⟩ := List.forall_mem_cons.mp h
    rw [List.cons_append, inside_blank hc.1 hc.2, ih hw, Position.after_cons]

theorem inside_comment {text rest : List Char} (h : '\n' ∉ text)
    (hr : ∀ c ∈ rest.head?, c = '\n') : inside file p t ('#' :: text ++ rest) =
      inside file (p.after ('#' :: text)) t rest := by
  rw [inside, List.cons_append, pieces_cons, Piece.read_comment h hr]
  rfl

end Scan

/-! ## The start of a line -/

namespace LogicalLine

theorem indent_blanks (ws : List Char) (ps : List Piece) :
    indent (ws.map .blank ++ ps) = ws ++ indent ps := by
  induction ws with
  | nil => rfl
  | cons c ws ih => exact congrArg (c :: ·) ih

theorem isBare_blanks (ws : List Char) (ps : List Piece) :
    isBare (ws.map .blank ++ ps) = isBare ps := by
  induction ws with
  | nil => rfl
  | cons c ws ih => exact ih

theorem indent_solid {c : Char} (h : Text.isBlank c = false) (hh : c ≠ '#') (cs : List Char) :
    indent (pieces (c :: cs)) = [] ∧ isBare (pieces (c :: cs)) = false := by
  rw [pieces_cons]
  obtain ⟨body, l, he⟩ | ⟨b, he⟩ := Piece.read_solid h hh cs
  · rw [he]
    exact ⟨rfl, rfl⟩
  · rw [he]
    exact ⟨rfl, rfl⟩

end LogicalLine

namespace Scan

theorem start_nil : start file p t [] = ofLines file p t [] := by
  rw [start, pieces_nil, logicalLines]

theorem start_newline (rest : List Char) :
    start file p t ('\n' :: rest) = start file (p.next '\n') t rest := by
  rw [start, pieces_cons, Piece.read_newline, ofLines_logicalLines]
  rfl

/-- The indent of a line that is not bare is measured. -/
theorem start_line {ws : List Char} (hw : ∀ c ∈ ws, Text.isBlank c ∧ c ≠ '\n') {c : Char}
    (h : Text.isBlank c = false) (hh : c ≠ '#') (cs : List Char) :
    start file p t (ws ++ c :: cs) =
      match t.measure ws with
      | (.error cause, t) => ⟨[], p.after ws, t, some ⟨cause, p.inFile file⟩⟩
      | (.ok markers, t) => (inside file (p.after ws) t (c :: cs)).prepend
          (markers.map (.ofMarker (p.inFile file))) := by
  obtain ⟨hi, hb⟩ := LogicalLine.indent_solid h hh cs
  have hindent : LogicalLine.indent (pieces (ws ++ c :: cs)) = ws := by
    rw [pieces_blanks hw, LogicalLine.indent_blanks, hi, List.append_nil]
  have hbare : LogicalLine.isBare (pieces (ws ++ c :: cs)) = false := by
    rw [pieces_blanks hw, LogicalLine.isBare_blanks, hb]
  rw [start, ofLines_logicalLines, hindent, Indentation.enter, hbare, hindent]
  simp only [Bool.false_eq_true, if_false]
  rcases t.measure ws with ⟨cause | markers, t'⟩
  · rfl
  · simp only [← inside_blanks hw]
    rfl

/-- A text that starts with neither a blank nor a comment has no indent and opens no block. -/
theorem start_fresh {c : Char} (h : Text.isBlank c = false) (hh : c ≠ '#') (cs : List Char) :
    start file p .fresh (c :: cs) = inside file p .fresh (c :: cs) := by
  have hline : start file p .fresh ([] ++ c :: cs) = _ := start_line (by simp) h hh cs
  exact hline

end Scan

/-! ## The tokens beside the markers -/

theorem place_append {xs : List Piece} (ys : List Piece) (h : (place file p xs).error = none) :
    place file p (xs ++ ys) =
      { place file (place file p xs).position ys with
        tokens := (place file p xs).tokens ++
          (place file (place file p xs).position ys).tokens } := by
  induction xs generalizing p with
  | nil => rfl
  | cons piece xs ih =>
    cases piece with
    | breach b => cases h
    | token body lexeme =>
      simp only [List.cons_append, place, ih h]
    | _ => exact ih h

theorem exists_piece_of_mem_place {ps : List Piece} {u : Token}
    (h : u ∈ (place file p ps).tokens) :
    ∃ body l, .token body l ∈ ps ∧ u.body = body ∧ u.lexeme = String.ofList l := by
  induction ps generalizing p with
  | nil => cases h
  | cons piece ps ih =>
    cases piece with
    | breach b => cases h
    | token body lexeme =>
      obtain rfl | h := List.mem_cons.mp h
      · exact ⟨body, lexeme, List.mem_cons_self, rfl, rfl⟩
      · obtain ⟨body, l, hm, hu⟩ := ih h
        exact ⟨body, l, List.mem_cons_of_mem _ hm, hu⟩
    | _ =>
      obtain ⟨body, l, hm, hu⟩ := ih h
      exact ⟨body, l, List.mem_cons_of_mem _ hm, hu⟩

theorem Spells.isMarker {u : Token} {body : Body} {l : List Char} (h : Spells body l)
    (hu : u.body = body) : u.isMarker = false := by
  cases body with
  | marker m carried => cases h.form
  | _ => simp [Token.isMarker, hu]

theorem Cut.spells {cs : List Char} {ps : List Piece} (h : Cut cs ps) {body : Body}
    {l : List Char} (hm : .token body l ∈ ps) : Spells body l := by
  induction h with
  | nil => cases hm
  | blank _ _ _ ih | newline _ ih | comment _ _ _ ih =>
    cases hm with
    | tail _ hm => exact ih hm
  | token hs _ _ ih =>
    cases hm with
    | head => exact hs
    | tail _ hm => exact ih hm
  | breach b => simp at hm

namespace Scan

/-- A scan without an error takes the indent of its first line, puts the line in its places and goes
on. -/
theorem ofLines_cons {line : LogicalLine} {lines : List LogicalLine}
    (h : (ofLines file p t (line :: lines)).error = none) :
    ∃ markers t', t.enter line = (.ok markers, t') ∧ (place file p line).error = none ∧
      (ofLines file (place file p line).position t' lines).error = none ∧
      (ofLines file p t (line :: lines)).tokens =
        markers.map (.ofMarker (p.inFile file)) ++ (place file p line).tokens ++
          (ofLines file (place file p line).position t' lines).tokens := by
  rw [ofLines] at h ⊢
  cases he : t.enter line with
  | mk r t' =>
    cases r with
    | error cause => simp [he] at h
    | ok markers =>
      cases hp : (place file p line).error with
      | some e => simp [he, hp] at h
      | none =>
        refine ⟨markers, t', rfl, rfl, ?_, ?_⟩
        · simpa [he, hp] using h
        · simp [hp]

/-- The tokens that a scan finds beside the markers are those among its pieces. -/
theorem place_flatten {lines : List LogicalLine} (h : (ofLines file p t lines).error = none)
    (hm : ∀ body l, .token body l ∈ lines.flatten → Spells body l) :
    (place file p lines.flatten).error = none ∧
      (place file p lines.flatten).tokens =
        (ofLines file p t lines).tokens.filter (!·.isMarker) := by
  induction lines generalizing p t with
  | nil => simp [ofLines, place, Token.ofMarker, Token.isMarker]
  | cons line lines ih =>
    obtain ⟨markers, t', -, hp, hrest, htokens⟩ := ofLines_cons h
    obtain ⟨he, hf⟩ := ih hrest fun body l hl => hm body l (by simp [hl])
    have hline : ∀ u ∈ (place file p line).tokens, u.isMarker = false := by
      intro u hu
      obtain ⟨body, l, hl, hb, -⟩ := exists_piece_of_mem_place hu
      exact (hm body l (by simp [hl])).isMarker hb
    have hmarkers : (markers.map (Token.ofMarker (p.inFile file))).filter (!·.isMarker) = [] := by
      simp [Token.ofMarker, Token.isMarker]
    rw [List.flatten_cons, place_append _ hp, htokens, List.filter_append, List.filter_append,
      hmarkers, ← hf, List.filter_eq_self.mpr (by simpa using hline)]
    exact ⟨he, rfl⟩

theorem mem_tokens_ofLines {lines : List LogicalLine} (h : (ofLines file p t lines).error = none)
    {u : Token} (hu : u ∈ (ofLines file p t lines).tokens) :
    (∃ m, u.body = .marker m .none ∧ u.lexeme = "") ∨
      ∃ body l, .token body l ∈ lines.flatten ∧ u.body = body ∧ u.lexeme = String.ofList l := by
  induction lines generalizing p t with
  | nil =>
    simp only [ofLines, List.mem_map] at hu
    obtain ⟨m, -, rfl⟩ := hu
    exact .inl ⟨m, rfl, rfl⟩
  | cons line lines ih =>
    obtain ⟨markers, t', -, hp, hrest, htokens⟩ := ofLines_cons h
    rw [htokens, List.mem_append, List.mem_append, List.mem_map] at hu
    obtain (⟨m, -, rfl⟩ | hu) | hu := hu
    · exact .inl ⟨m, rfl, rfl⟩
    · obtain ⟨body, l, hl, hb⟩ := exists_piece_of_mem_place hu
      exact .inr ⟨body, l, by simp [hl], hb⟩
    · obtain hm | ⟨body, l, hl, hb⟩ := ih hrest hu
      · exact .inl hm
      · exact .inr ⟨body, l, by simp [hl], hb⟩

end Scan

/-! ## The tokens of a text -/

section

variable {source : String} {tokens : List Token}

theorem spells_of_mem_pieces {cs : List Char} {body : Body} {l : List Char}
    (h : .token body l ∈ (logicalLines (pieces cs)).flatten) : Spells body l := by
  rw [flatten_logicalLines] at h
  exact (cut_pieces cs).spells h

theorem eq_ok_of_toOption {ε α : Type} {x : Except ε α} {a : α} (h : x.toOption = some a) :
    x = .ok a := by
  cases x <;> cases h
  rfl

/-- A token of a text is a marker without a lexeme, or it is written as it should be. -/
theorem marker_or_spells_of_tokenize (h : tokenize file source = .ok tokens) {u : Token}
    (hu : u ∈ tokens) :
    (∃ m, u.body = .marker m .none ∧ u.lexeme = "") ∨ Spells u.body u.lexeme.toList := by
  obtain ⟨he, rfl⟩ := Scan.result_eq_ok.mp h
  obtain hm | ⟨body, l, hl, rfl, hx⟩ := Scan.mem_tokens_ofLines he hu
  · exact .inl hm
  · rw [hx, String.toList_ofList]
    exact .inr (spells_of_mem_pieces hl)

theorem spells_of_tokenize (h : tokenize file source = .ok tokens) {u : Token}
    (hu : u ∈ tokens.filter (!·.isMarker)) : Spells u.body u.lexeme.toList := by
  obtain ⟨hu, hm⟩ := List.mem_filter.mp hu
  rcases marker_or_spells_of_tokenize h hu with ⟨m, hb, -⟩ | hs
  · simp [Token.isMarker, hb] at hm
  · exact hs

/-- The tokens of a text beside the markers are those among its pieces. -/
theorem place_pieces (h : tokenize file source = .ok tokens) :
    (place file .start (pieces (trimmed source))).error = none ∧
      (place file .start (pieces (trimmed source))).tokens = tokens.filter (!·.isMarker) := by
  obtain ⟨he, rfl⟩ := Scan.result_eq_ok.mp h
  have := Scan.place_flatten he fun _ _ => spells_of_mem_pieces
  rwa [flatten_logicalLines] at this

end

end TraitMarkup
