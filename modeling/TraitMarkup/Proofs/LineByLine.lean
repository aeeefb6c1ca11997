import TraitMarkup.Extraction
import TraitMarkup.Proofs.Indents
import TraitMarkup.Proofs.SingleLine

/-!
# Line by line

A text is scanned as a whole or line by line. Where no lexeme has a line feed, each line feed of the
text is a piece of its own, so the text falls apart into its lines with their tokens (`IsLine`). A line
by itself loses the blanks at its end, which leaves the tokens as they are unless a name ends with a
blank (`IsLine.trim`), and it starts in another place, which does not change the columns.
-/

namespace TraitMarkup

open Token (Kind Body Payload)

variable {file : String} {p q : Position}

/-! ## Lines of characters -/

namespace Text

theorem lines_cons {c : Char} {cs line : List Char} {rest : List (List Char)} (h : c ≠ '\n')
    (hcs : lines cs = line :: rest) : lines (c :: cs) = (c :: line) :: rest := by
  rw [lines, if_neg h, hcs]

theorem lines_newline (cs : List Char) : lines ('\n' :: cs) = [] :: lines cs := by
  rw [lines, if_pos rfl]

theorem exists_lines_eq (cs : List Char) : ∃ line rest, lines cs = line :: rest ∧ line ⊆ cs := by
  induction cs with
  | nil => exact ⟨[], [], rfl, List.Subset.refl _⟩
  | cons c cs ih =>
    obtain ⟨line, rest, hlines, hsub⟩ := ih
    by_cases h : c = '\n'
    · subst h
      exact ⟨[], lines cs, lines_newline cs, List.nil_subset _⟩
    · exact ⟨c :: line, rest, lines_cons h hlines, List.cons_subset_cons c hsub⟩

theorem lines_of_not_mem {a : List Char} (h : '\n' ∉ a) : lines a = [a] := by
  induction a with
  | nil => rfl
  | cons c a ih =>
    rw [List.mem_cons, not_or] at h
    exact lines_cons (Ne.symm h.1) (ih h.2)

theorem lines_append {a : List Char} (h : '\n' ∉ a) (b : List Char) :
    lines (a ++ '\n' :: b) = a :: lines b := by
  induction a with
  | nil => exact lines_newline b
  | cons c a ih =>
    rw [List.mem_cons, not_or] at h
    exact lines_cons (Ne.symm h.1) (ih h.2)

/-- Characters at the end of a text are added to its last line, or they make new lines. -/
theorem getElem?_lines_append {cs a : List Char} {i : Nat} (h : (lines cs)[i]? = some a)
    (ws : List Char) : ∃ w, w ⊆ ws ∧ (lines (cs ++ ws))[i]? = some (a ++ w) := by
  induction cs generalizing i a with
  | nil =>
    match i with
    | 0 =>
      obtain rfl : [] = a := Option.some.inj h
      obtain ⟨line, rest, hlines, hsub⟩ := exists_lines_eq ws
      refine ⟨line, hsub, ?_⟩
      rw [List.nil_append, hlines]
      rfl
    | i + 1 => cases h
  | cons c cs ih =>
    by_cases hc : c = '\n'
    · subst hc
      rw [lines_newline] at h
      rw [List.cons_append, lines_newline]
      match i with
      | 0 =>
        obtain rfl : [] = a := Option.some.inj h
        exact ⟨[], List.nil_subset _, rfl⟩
      | i + 1 => exact ih h
    · obtain ⟨line, rest, hlines, -⟩ := exists_lines_eq cs
      obtain ⟨line', rest', hlines', -⟩ := exists_lines_eq (cs ++ ws)
      rw [lines_cons hc hlines] at h
      rw [List.cons_append, lines_cons hc hlines']
      simp only [hlines, hlines'] at ih
      match i with
      | 0 =>
        obtain rfl : c :: line = a := Option.some.inj h
        obtain ⟨w, hw, heq⟩ : ∃ w, w ⊆ ws ∧ (line' :: rest')[0]? = some (line ++ w) := ih rfl
        obtain rfl : line' = line ++ w := Option.some.inj heq
        exact ⟨w, hw, rfl⟩
      | i + 1 =>
        have hrest : ∃ w, w ⊆ ws ∧ (line' :: rest')[i + 1]? = some (a ++ w) := ih h
        exact hrest

end Text

/-! ## Blanks at the end of a line -/

theorem eq_concat_or_exists {l rest b : List Char} {c : Char} (h : l ++ rest = b ++ [c]) :
    (rest = [] ∧ l = b ++ [c]) ∨ ∃ r, rest = r ++ [c] ∧ b = l ++ r := by
  rcases List.eq_nil_or_concat rest with rfl | ⟨r, d, rfl⟩
  · rw [List.append_nil] at h
    exact .inl ⟨rfl, h⟩
  · rw [List.concat_eq_append] at h ⊢
    rw [← List.append_assoc] at h
    obtain ⟨hb, hd⟩ := List.append_inj' h rfl
    rw [List.singleton_inj.mp hd]
    exact .inr ⟨r, rfl, hb.symm⟩

theorem eq_nil_of_concat {b : List Char} {c d : Char} (h : [d] = b ++ [c]) : b = [] := by
  have h : [] ++ [d] = b ++ [c] := h
  exact (List.append_inj' h rfl).1.symm

theorem Cut.eq_nil {cs : List Char} {ps : List Piece} (h : Cut cs ps) (hcs : cs = []) :
    ps = [] := by
  cases h with
  | nil => rfl
  | token hs _ _ =>
    obtain ⟨c, l, rfl, -⟩ := hs.form.exists_cons
    cases hcs
  | blank | newline | comment | breach => cases hcs

/-- A blank at the end of a text may be left out, unless it is part of a lexeme. -/
theorem Cut.concat_blank {cs b : List Char} {ps : List Piece} {c : Char} (h : Cut cs ps)
    (he : (place file p ps).error = none)
    (hl : ∀ u ∈ (place file p ps).tokens,
      ∃ pre c, u.lexeme.toList = pre ++ [c] ∧ Text.isBlank c = false)
    (hcs : cs = b ++ [c]) (hc : Text.isBlank c) : ∃ qs, Cut b qs ∧
      (place file p qs).tokens = (place file p ps).tokens ∧ (place file p qs).error = none := by
  induction h generalizing p b with
  | nil => simp at hcs
  | breach => cases he
  | @blank d rest ps hb hn hrest ih =>
    have hcs : [d] ++ rest = b ++ [c] := hcs
    rcases eq_concat_or_exists hcs with ⟨rfl, hd⟩ | ⟨r, rfl, rfl⟩
    · obtain rfl := hrest.eq_nil rfl
      obtain rfl := eq_nil_of_concat hd
      exact ⟨[], .nil, rfl, rfl⟩
    · obtain ⟨qs, hcut, htokens, herror⟩ := ih he hl rfl
      exact ⟨_, .blank hb hn hcut, htokens, herror⟩
  | @newline rest ps hrest ih =>
    have hcs : ['\n'] ++ rest = b ++ [c] := hcs
    rcases eq_concat_or_exists hcs with ⟨rfl, hd⟩ | ⟨r, rfl, rfl⟩
    · obtain rfl := hrest.eq_nil rfl
      obtain rfl := eq_nil_of_concat hd
      exact ⟨[], .nil, rfl, rfl⟩
    · obtain ⟨qs, hcut, htokens, herror⟩ := ih he hl rfl
      exact ⟨_, .newline hcut, htokens, herror⟩
  | @comment text rest ps ht hr hrest ih =>
    rcases eq_concat_or_exists hcs with ⟨rfl, hd⟩ | ⟨r, rfl, rfl⟩
    · obtain rfl := hrest.eq_nil rfl
      match b with
      | [] =>
        obtain ⟨rfl, -⟩ := List.cons.inj hd
        exact absurd hc (by decide)
      | d :: b =>
        obtain ⟨rfl, rfl⟩ := List.cons.inj hd
        have hb : '\n' ∉ b := fun hmem => ht (List.mem_append_left _ hmem)
        have hcut : Cut ('#' :: b ++ []) [.comment ('#' :: b)] := .comment hb (by simp) .nil
        rw [List.append_nil] at hcut
        exact ⟨_, hcut, rfl, rfl⟩
    · obtain ⟨qs, hcut, htokens, herror⟩ := ih he hl rfl
      exact ⟨_, .comment ht (fun d hd => hr d (mem_head?_append hd _)) hcut, htokens, herror⟩
  | @token body l rest ps hs hr _ ih =>
    obtain ⟨⟨pre, d, hlast, hd⟩, hl⟩ := List.forall_mem_cons.mp hl
    rcases eq_concat_or_exists hcs with ⟨rfl, hl⟩ | ⟨r, rfl, rfl⟩
    · rw [String.toList_ofList, hl] at hlast
      obtain ⟨-, hlast⟩ := List.append_inj' hlast rfl
      rw [List.singleton_inj.mp hlast, hd] at hc
      cases hc
    · obtain ⟨qs, hcut, htokens, herror⟩ := ih he hl rfl
      refine ⟨_, .token hs hr.left hcut, ?_, herror⟩
      exact congrArg (List.cons _) htokens

theorem place_append_blanks {ws b : List Char} (hws : ∀ c ∈ ws, Text.isBlank c)
    (he : (place file p (pieces (b ++ ws))).error = none)
    (hl : ∀ u ∈ (place file p (pieces (b ++ ws))).tokens,
      ∃ pre c, u.lexeme.toList = pre ++ [c] ∧ Text.isBlank c = false) :
    (place file p (pieces b)).tokens = (place file p (pieces (b ++ ws))).tokens ∧
      (place file p (pieces b)).error = none := by
  induction ws generalizing b with
  | nil =>
    rw [List.append_nil] at he ⊢
    exact ⟨rfl, he⟩
  | cons c ws ih =>
    obtain ⟨hc, hws⟩ := List.forall_mem_cons.mp hws
    rw [List.append_cons] at he hl ⊢
    obtain ⟨htokens, he⟩ := ih hws he hl
    rw [← htokens] at hl ⊢
    obtain ⟨qs, hcut, htokens, herror⟩ := (cut_pieces (b ++ [c])).concat_blank he hl rfl hc
    rw [hcut.eq_pieces herror]
    exact ⟨htokens, herror⟩

/-! ## The tokens of a line -/

theorem Cut.flatMap_chars {cs : List Char} {ps : List Piece} (h : Cut cs ps)
    (he : (place file p ps).error = none) : ps.flatMap Piece.chars = cs := by
  have happ : Cut cs (ps ++ []) := by rwa [List.append_nil]
  obtain ⟨rest, rfl, hrest⟩ := happ.append he
  cases hrest
  rw [List.append_nil]

theorem Cut.newline_not_mem {cs : List Char} {ps : List Piece} (h : Cut cs ps)
    (hcs : '\n' ∉ cs) : .newline ∉ ps := by
  induction h with
  | nil => exact List.not_mem_nil
  | newline => exact absurd List.mem_cons_self hcs
  | breach => simp
  | blank _ _ _ ih =>
    intro hmem
    rcases List.mem_cons.mp hmem with heq | hmem
    · cases heq
    · exact ih (fun hin => hcs (List.mem_cons_of_mem _ hin)) hmem
  | comment _ _ _ ih | token _ _ _ ih =>
    intro hmem
    rcases List.mem_cons.mp hmem with heq | hmem
    · cases heq
    · exact ih (fun hin => hcs (List.mem_append_right _ hin)) hmem

theorem Cut.isBare_eq_false {cs : List Char} {ps : List Piece} (h : Cut cs ps)
    (hn : .newline ∉ ps) {u : Token} (hu : u ∈ (place file p ps).tokens) :
    LogicalLine.isBare ps = false := by
  cases hl : logicalLines ps with
  | nil =>
    rw [logicalLines_eq_nil.mp hl] at hu
    cases hu
  | cons line lines =>
    rcases logicalLines_first hl with ⟨xs, rest, -, -, rfl, -⟩ | ⟨-, rfl, -⟩
    · simp at hn
    · rw [Bool.eq_false_iff]
      intro hb
      rw [h.tokens_bare hl hb] at hu
      cases hu

/-- The tokens of a text stand on the lines after its start. -/
theorem exists_line_of_mem_place {cs : List Char} {u : Token}
    (he : (place file p (pieces cs)).error = none) (hu : u ∈ (place file p (pieces cs)).tokens) :
    ∃ n : Nat, n ≤ cs.count '\n' ∧ u.location.line = (p.line + n : Nat) := by
  obtain ⟨xs, body, l, ys, hps, rfl⟩ := exists_prefix_of_mem_place hu
  have hcut := cut_pieces cs
  rw [hps] at hcut he
  obtain ⟨rest, rfl, -⟩ := hcut.append (error_place_left he)
  refine ⟨(xs.flatMap Piece.chars).count '\n', ?_, ?_⟩
  · rw [List.count_append]
    exact Nat.le_add_right _ _
  · rw [← Position.line_after]
    rfl

theorem line_eq_of_mem_place {a : List Char} (ha : '\n' ∉ a)
    (he : (place file p (pieces a)).error = none) {u : Token}
    (hu : u ∈ (place file p (pieces a)).tokens) : u.location.line = p.line := by
  obtain ⟨n, hn, hline⟩ := exists_line_of_mem_place he hu
  rw [List.count_eq_zero_of_not_mem ha] at hn
  rw [hline, Nat.le_zero.mp hn]
  rfl

/-- A line feed that is in no lexeme ends the first line, and the next one starts after it. -/
theorem AtLine.next_line {text more a b : List Char} {words : List Token}
    (h : AtLine text more words file p (a ++ '\n' :: b) (pieces (a ++ '\n' :: b)))
    (hl : ∀ u ∈ (place file p (pieces (a ++ '\n' :: b))).tokens, '\n' ∉ u.lexeme.toList)
    (ha : '\n' ∉ a) :
    AtLine text more words file ((p.after a).next '\n') b (pieces b) ∧
      (place file p (pieces a)).error = none ∧
      (place file p (pieces (a ++ '\n' :: b))).tokens = (place file p (pieces a)).tokens ++
        (place file ((p.after a).next '\n') (pieces b)).tokens := by
  obtain ⟨xs, ys, hps, hxs, hys⟩ := h.cut.split_newline h.error hl rfl ha
  rw [hps] at h ⊢
  have hleft := error_place_left h.error
  obtain ⟨cs, hnext⟩ := h.next
  obtain rfl : cs = b := (hnext.cut.flatMap_chars hnext.error).symm.trans
    (hys.flatMap_chars hnext.error)
  rw [place_newline _ hleft, hys.eq_pieces hnext.error, hxs.eq_pieces hleft]
  rw [position_place hleft, hxs.flatMap_chars hleft] at hnext ⊢
  exact ⟨hnext, hleft, rfl⟩

/-- The line with index `i` of a text that starts at `p`. It starts at `q`, and all tokens there are
its own. -/
structure IsLine (file : String) (p : Position) (cs : List Char) (i : Nat) (a : List Char)
    (q : Position) : Prop where
  line : (Text.lines cs)[i]? = some a
  not_mem : '\n' ∉ a
  number : q.line = p.line + i
  column : q.column = 1
  error : (place file q (pieces a)).error = none
  tokens : (place file p (pieces cs)).tokens.filter (·.location.line == (q.line : Int)) =
    (place file q (pieces a)).tokens

theorem filter_line_eq_self {a : List Char} (ha : '\n' ∉ a)
    (he : (place file p (pieces a)).error = none) :
    (place file p (pieces a)).tokens.filter (·.location.line == (p.line : Int)) =
      (place file p (pieces a)).tokens := by
  rw [List.filter_eq_self]
  intro u hu
  exact beq_iff_eq.mpr (line_eq_of_mem_place ha he hu)

theorem filter_line_eq_nil {b : List Char} (he : (place file p (pieces b)).error = none) {n : Nat}
    (hn : n < p.line) :
    (place file p (pieces b)).tokens.filter (·.location.line == (n : Int)) = [] := by
  rw [List.filter_eq_nil_iff]
  intro u hu
  obtain ⟨m, -, hline⟩ := exists_line_of_mem_place he hu
  rw [hline, beq_iff_eq]
  omega

section

variable {text more cs : List Char} {words : List Token} {u : Token}

/-- Each token of a text stands on one of its lines. -/
theorem exists_isLine (h : AtLine text more words file p cs (pieces cs)) (hp : p.column = 1)
    (hl : ∀ u ∈ (place file p (pieces cs)).tokens, '\n' ∉ u.lexeme.toList)
    (hu : u ∈ (place file p (pieces cs)).tokens) :
    ∃ i a q more, IsLine file p cs i a q ∧ LineStartsAt text words q (a ++ more) ∧
      u ∈ (place file q (pieces a)).tokens := by
  induction hlen : cs.length using Nat.strongRecOn generalizing cs p with
  | ind n ih =>
    subst hlen
    obtain ⟨a, rest, rfl, ha, hrest⟩ := exists_span (· != '\n') cs
    have ha : '\n' ∉ a := fun hmem => by simpa using ha _ hmem
    match rest with
    | [] =>
      rw [List.append_nil] at h hu ⊢
      refine ⟨0, a, p, more, ⟨?_, ha, rfl, hp, h.error, ?_⟩, h.starts, hu⟩
      · rw [Text.lines_of_not_mem ha]
        rfl
      · exact filter_line_eq_self ha h.error
    | c :: b =>
      obtain rfl : c = '\n' := by simpa using hrest c rfl
      obtain ⟨hnext, herror, htokens⟩ := h.next_line hl ha
      have hline : ((p.after a).next '\n').line = p.line + 1 := by
        simp [Position.next, Position.line_after, List.count_eq_zero_of_not_mem ha]
      -- the token is on the first line, or on one of those that follow it
      rw [htokens] at hu hl
      rcases List.mem_append.mp hu with hu | hu
      · have hstarts := h.starts
        rw [List.append_assoc] at hstarts
        refine ⟨0, a, p, _, ⟨?_, ha, rfl, hp, herror, ?_⟩, hstarts, hu⟩
        · rw [Text.lines_append ha]
          rfl
        · rw [htokens, List.filter_append, filter_line_eq_self ha herror]
          rw [filter_line_eq_nil hnext.error (by omega), List.append_nil]
      · obtain ⟨i, a', q, more', hi, hstarts, hu⟩ := ih b.length (by simp; omega) hnext rfl
          (fun v hv => hl v (List.mem_append_right _ hv)) hu rfl
        have hq := hi.number
        refine ⟨i + 1, a', q, more', ⟨?_, hi.not_mem, by omega, hi.column, hi.error, ?_⟩, hstarts, hu⟩
        · rw [Text.lines_append ha]
          exact hi.line
        · rw [htokens, List.filter_append, hi.tokens]
          have hnil : (place file p (pieces a)).tokens.filter
              (·.location.line == (q.line : Int)) = [] := by
            rw [List.filter_eq_nil_iff]
            intro v hv
            rw [line_eq_of_mem_place ha herror hv, beq_iff_eq]
            omega
          rw [hnil, List.nil_append]

theorem takeWhile_isBlank {cs : List Char} (h : '\n' ∉ cs) :
    cs.takeWhile (fun c => Text.isBlank c && c != '\n') = cs.takeWhile Text.isBlank := by
  induction cs with
  | nil => rfl
  | cons c cs ih =>
    rw [List.mem_cons, not_or] at h
    have hc : (c != '\n') = true := bne_iff_ne.mpr (Ne.symm h.1)
    rw [List.takeWhile_cons, List.takeWhile_cons, ih h.2, hc, Bool.and_true]

/-- The indent of a token on a line of the text is what the line starts with. -/
theorem LineStartsAt.indentOf_line (h : LineStartsAt text words q (cs ++ more)) (hcs : '\n' ∉ cs)
    (he : (place file q (pieces cs)).error = none)
    (hsub : (place file q (pieces cs)).tokens ⊆ words)
    (hu : u ∈ (place file q (pieces cs)).tokens) :
    indentOf text words u = cs.takeWhile Text.isBlank := by
  have hcut := cut_pieces cs
  have hn := hcut.newline_not_mem hcs
  have hbare := hcut.isBare_eq_false hn hu
  have hblanks := hcut.blanks hbare []
  rw [List.append_nil] at hblanks
  rw [h.indentOf_eq hcut hbare (List.append_nil _).symm hn he hsub hu, ← hblanks]
  exact takeWhile_isBlank hcs

/-- The blanks at the end of a line do not matter, neither for its tokens nor for their indents. -/
theorem IsLine.trim {i : Nat} {a : List Char} (h : IsLine file p cs i a q)
    (hstarts : LineStartsAt text words q (a ++ more))
    (hsub : (place file q (pieces a)).tokens ⊆ words)
    (hl : ∀ u ∈ words, ∃ pre c, u.lexeme.toList = pre ++ [c] ∧ Text.isBlank c = false) :
    (place file q (pieces (Text.trimEnd a))).tokens = (place file q (pieces a)).tokens ∧
      (place file q (pieces (Text.trimEnd a))).error = none ∧
      ∀ u ∈ (place file q (pieces a)).tokens,
        indentOf text words u = (Text.trimEnd a).takeWhile Text.isBlank := by
  obtain ⟨ws, ha, hws⟩ := Text.exists_trimEnd_append a
  generalize Text.trimEnd a = b at ha ⊢
  subst ha
  obtain ⟨htokens, herror⟩ := place_append_blanks hws h.error fun u hu => hl u (hsub hu)
  refine ⟨htokens, herror, ?_⟩
  rw [← htokens] at hsub ⊢
  intro u hu
  have hb : '\n' ∉ b := fun hmem => h.not_mem (List.mem_append_left _ hmem)
  rw [List.append_assoc] at hstarts
  exact hstarts.indentOf_line hb herror hsub hu

end

/-- A line by itself is put in other places than in a text, but in the same columns. -/
theorem scanLine_sameColumn {text : String} {n : Nat} {c : Char} (hq : q.column = 1)
    (h : (trimmed text).takeWhile Text.isBlank = List.replicate n c)
    (he : (place file q (pieces (trimmed text))).error = none)
    (hne : (place file q (pieces (trimmed text))).tokens ≠ []) (file' : String) :
    ∃ line, scanLine file' text = .ok line ∧ line.indent = n ∧
      List.Forall₂ Token.SameColumn (place file q (pieces (trimmed text))).tokens line.members := by
  have hcolumn : q.column = Position.start.column := hq
  obtain ⟨hsame, hnone⟩ := place_sameColumn hcolumn file' (pieces (trimmed text))
  have hne' : (place file' .start (pieces (trimmed text))).tokens ≠ [] := by
    intro hnil
    rw [hnil, List.forall₂_nil_right_iff] at hsame
    exact hne hsame
  refine ⟨⟨n, _, hne'⟩, ?_, rfl, hsame⟩
  rw [scanLine_eq h]
  exact LineScan.result_eq_ok (hnone he) rfl rfl

/-! ## The lines of a source -/

/-- A line of a trimmed source may have more blanks at its end in the source itself. -/
theorem exists_numberedLine {source : String} {i : Nat} {a : List Char}
    (h : (Text.lines (trimmed source))[i]? = some a) :
    ∃ text, (numberedLines source)[i]? = some (i + 1, text) ∧ trimmed text = Text.trimEnd a := by
  obtain ⟨more, hmore, hblank⟩ := Text.exists_trimEnd_append source.toList
  obtain ⟨w, hw, hline⟩ := Text.getElem?_lines_append h more
  have hline : (Text.lines source.toList)[i]? = some (a ++ w) := by
    rw [hmore]
    exact hline
  refine ⟨String.ofList (a ++ w), ?_, ?_⟩
  · rw [numberedLines, List.getElem?_mapIdx, hline]
    rfl
  · rw [trimmed, String.toList_ofList, Text.trimEnd_append]
    intro c hc
    exact hblank c (hw hc)

/-- Each line of a text with a token on it is scanned by itself to the tokens that the text has there,
in the same columns, where no lexeme has a line feed and no name ends with a blank. Its indent is the
number of open blocks times the width of the first indent that is not empty. -/
theorem scanLine_of_tokenize_line {source : String} {tokens : List Token}
    (h : tokenize file source = .ok tokens)
    (hn : ∀ u ∈ tokens.filter (!·.isMarker), '\n' ∉ u.lexeme.toList)
    (hb : ∀ u ∈ tokens.filter (!·.isMarker), ¬u.EndsBlank) {k : Nat}
    (hk : ∃ u ∈ tokens.filter (!·.isMarker), u.location.line = k) (file' : String) :
    let words := tokens.filter (!·.isMarker)
    let indent := indentOf source.toList words
    let step := (firstStep (words.map indent)).getD 1
    ∃ text line, (numberedLines source)[k - 1]? = some (k, text) ∧
      scanLine file' text = .ok line ∧
      List.Forall₂ Token.SameColumn (words.filter (·.location.line == (k : Int))) line.members ∧
      ∀ (before : List Token) (u : Token) (after : List Token), tokens = before ++ u :: after →
        u.isMarker = false → u.location.line = k → (indent u).length = line.indent ∧
          depthAfter before * (step : Nat) = line.indent := by
  intro words indent step
  obtain ⟨he, hwords⟩ := place_pieces h
  obtain ⟨more, hmore, -⟩ := Text.exists_trimEnd_append source.toList
  obtain ⟨v, hv, hk⟩ := hk
  rw [← hwords] at hn hv
  obtain ⟨i, a, q, rest, hline, hstarts, hvq⟩ :=
    exists_isLine (atLine_start hmore he hwords) rfl hn hv
  have hqk : q.line = k := by
    have := line_eq_of_mem_place hline.not_mem hline.error hvq
    omega
  have hki : k = i + 1 := by
    rw [← hqk, hline.number]
    exact Nat.add_comm 1 i
  have htokens : words.filter (·.location.line == (k : Int)) = (place file q (pieces a)).tokens := by
    rw [← hqk, ← hline.tokens, hwords]
  have hsub : (place file q (pieces a)).tokens ⊆ words := by
    rw [← htokens]
    exact List.filter_subset_self words
  obtain ⟨htrim, herror, hindent⟩ := hline.trim hstarts hsub fun u hu =>
    Token.exists_concat (spells_of_tokenize h hu) (hb u hu)
  obtain ⟨text, htext, htrimmed⟩ := exists_numberedLine hline.line
  rw [← htrimmed] at htrim herror hindent
  have hindented := indented_of_tokenize h
  obtain ⟨b, -, hone⟩ := hindented.exists_blank
  have hrun : (trimmed text).takeWhile Text.isBlank = List.replicate (indent v).length b := by
    rw [← hindent v hvq]
    exact List.eq_replicate_iff.mpr ⟨rfl, hone v (hsub hvq)⟩
  have hne : (place file q (pieces (trimmed text))).tokens ≠ [] := by
    rw [htrim]
    exact List.ne_nil_of_mem hvq
  obtain ⟨line, hscan, hwidth, hsame⟩ := scanLine_sameColumn hline.column hrun herror hne file'
  rw [htrim, ← htokens] at hsame
  refine ⟨text, line, ?_, hscan, hsame, ?_⟩
  · rw [hki]
    exact htext
  · intro before u after hsplit hu huk
    have huq : u ∈ (place file q (pieces a)).tokens := by
      rw [← htokens]
      exact List.mem_filter.mpr ⟨by simp [words, hsplit, hu], beq_iff_eq.mpr huk⟩
    have huv : indent u = indent v := (hindent u huq).trans (hindent v hvq).symm
    rw [hwidth, ← huv]
    exact ⟨rfl, (hindented.depth_mul_step hsplit hu).1⟩

theorem scanLine_of_tokenize_line_jump :
    let source := "a # x \n\n  'b' \t\n      c=d\t\n"
    ∃ tokens text line, tokenize "f" source = .ok tokens ∧
      (numberedLines source)[3]? = some (4, text) ∧ scanLine "g" text = .ok line ∧
      List.Forall₂ Token.SameColumn
        ((tokens.filter (!·.isMarker)).filter (·.location.line == (4 : Int))) line.members := by
  intro source
  have h : tokenize "f" source = .ok [⟨.identifier "a", "a", ⟨"f", 1, 1, 0⟩⟩,
      ⟨.marker .indent .none, "", ⟨"f", 3, 1, 8⟩⟩, ⟨.string "b", "'b'", ⟨"f", 3, 3, 10⟩⟩,
      ⟨.marker .indent .none, "", ⟨"f", 4, 1, 16⟩⟩, ⟨.marker .indent .none, "", ⟨"f", 4, 1, 16⟩⟩,
      ⟨.identifier "c", "c", ⟨"f", 4, 7, 22⟩⟩, ⟨.symbol .equals .none, "=", ⟨"f", 4, 8, 23⟩⟩,
      ⟨.identifier "d", "d", ⟨"f", 4, 9, 24⟩⟩, ⟨.marker .dedent .none, "", ⟨"f", 4, 10, 25⟩⟩,
      ⟨.marker .dedent .none, "", ⟨"f", 4, 10, 25⟩⟩,
      ⟨.marker .dedent .none, "", ⟨"f", 4, 10, 25⟩⟩] :=
    eq_ok_of_toOption (by decide +kernel)
  let c : Token := ⟨.identifier "c", "c", ⟨"f", 4, 7, 22⟩⟩
  obtain ⟨text, line, htext, hline, hsame, -⟩ := scanLine_of_tokenize_line (k := 4) h
    (by decide +kernel) (by decide +kernel) ⟨c, by decide +kernel, rfl⟩ "g"
  exact ⟨_, text, line, h, htext, hline, hsame⟩

end TraitMarkup
