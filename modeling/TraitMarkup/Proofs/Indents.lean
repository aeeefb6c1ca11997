import TraitMarkup.Proofs.Canonical
import TraitMarkup.Proofs.Placing

/-!
# Indents and depths

How deep a token stands is read off the text: its logical line starts after the last line feed before
it that is in no lexeme (`lineStart`), and the blanks there are its indent (`indentOf`). A scan takes
the indent of each line once, which comes to the same as taking that of each token (`Indented`), and
from there on only the state of the indentation matters: the depth of a token, times the first width
that is not zero, is the width of its indent.
-/

namespace TraitMarkup

open Token (Kind Body Payload)

variable {file : String} {p : Position} {t : Indentation}

/-! ## The indent of a token -/

/-- An offset inside the lexeme of one of some tokens. -/
def InLexeme (words : List Token) (n : Nat) : Prop :=
  ∃ u ∈ words, u.location.offset ≤ n ∧ n < u.location.offset + u.lexeme.length

instance (words : List Token) (n : Nat) : Decidable (InLexeme words n) :=
  inferInstanceAs (Decidable (∃ u ∈ words, _))

/-- A line feed outside all lexemes. -/
def EndsLine (cs : List Char) (words : List Token) (n : Nat) : Prop :=
  cs[n]? = some '\n' ∧ ¬InLexeme words n

instance (cs : List Char) (words : List Token) (n : Nat) : Decidable (EndsLine cs words n) :=
  inferInstanceAs (Decidable (_ ∧ _))

/-- The start of the logical line that reaches up to an offset. -/
def lineStart (cs : List Char) (words : List Token) : Nat → Nat
  | 0 => 0
  | n + 1 => if EndsLine cs words n then n + 1 else lineStart cs words n

/-- The blanks at an offset, up to the end of the line. -/
def blanksFrom (cs : List Char) (n : Nat) : List Char :=
  (cs.drop n).takeWhile fun c => Text.isBlank c && c != '\n'

/-- The indent of the logical line on which a token stands. -/
def indentOf (cs : List Char) (words : List Token) (u : Token) : List Char :=
  blanksFrom cs (lineStart cs words u.location.offset.toNat)

/-- The width of the first indent that is not empty. -/
def firstStep (indents : List (List Char)) : Option Nat :=
  (indents.map List.length).find? (0 < ·)

theorem lineStart_eq {cs : List Char} {words : List Token} {s n : Nat} (hle : s ≤ n)
    (hs : s = 0 ∨ ∃ m, s = m + 1 ∧ EndsLine cs words m)
    (h : ∀ m, s ≤ m → m < n → ¬EndsLine cs words m) : lineStart cs words n = s := by
  induction n with
  | zero => exact (Nat.le_zero.mp hle).symm
  | succ n ih =>
    rw [lineStart]
    rcases Nat.lt_or_eq_of_le hle with hlt | rfl
    · have hle := Nat.le_of_lt_succ hlt
      rw [if_neg (h n hle (Nat.lt_succ_self n))]
      exact ih hle fun m hm hn => h m hm (Nat.lt_succ_of_lt hn)
    · obtain hs | ⟨m, hm, hends⟩ := hs
      · cases hs
      · obtain rfl := Nat.succ.inj hm
        rw [if_pos hends]

/-! ## Logical lines in the text -/

/-- The first line goes up to the first line feed, or there is none. -/
theorem logicalLines_first {ps : List Piece} {line : LogicalLine} {lines : List LogicalLine}
    (h : logicalLines ps = line :: lines) :
    (∃ xs rest, .newline ∉ xs ∧ line = xs ++ [.newline] ∧ ps = xs ++ .newline :: rest ∧
      lines = logicalLines rest) ∨ .newline ∉ line ∧ ps = line ∧ lines = [] := by
  induction ps generalizing line with
  | nil => cases h
  | cons piece ps ih =>
    by_cases hn : piece = .newline
    · subst hn
      cases h
      exact .inl ⟨[], ps, List.not_mem_nil, rfl, rfl, rfl⟩
    · rw [logicalLines_cons hn] at h
      have hcons : ∀ xs : List Piece, .newline ∉ xs → .newline ∉ piece :: xs := by
        intro xs hxs hmem
        rcases List.mem_cons.mp hmem with heq | hmem
        · exact hn heq.symm
        · exact hxs hmem
      split at h
      · rename_i hnil
        cases h
        rw [logicalLines_eq_nil.mp hnil]
        exact .inr ⟨hcons [] List.not_mem_nil, rfl, rfl⟩
      · rename_i line' lines' heq
        cases h
        rcases ih heq with ⟨xs, rest, hxs, rfl, rfl, rfl⟩ | ⟨hline, rfl, rfl⟩
        · exact .inl ⟨piece :: xs, rest, hcons xs hxs, rfl, rfl, rfl⟩
        · exact .inr ⟨hcons _ hline, rfl, rfl⟩

theorem InLexeme.mono {words words' : List Token} {n : Nat} (h : InLexeme words n)
    (hsub : words ⊆ words') : InLexeme words' n := by
  obtain ⟨u, hu, hn⟩ := h
  exact ⟨u, hsub hu, hn⟩

/-- Before the first line feed piece, line feeds are inside lexemes. -/
theorem Cut.inLexeme {cs : List Char} {xs ys : List Piece} (h : Cut cs (xs ++ ys))
    (he : (place file p xs).error = none) (hn : .newline ∉ xs) {more : List Char} {i : Nat}
    (hi : i < (xs.flatMap Piece.chars).length) (hc : (cs ++ more)[i]? = some '\n') :
    InLexeme (place file p xs).tokens (p.offset + i) := by
  induction xs generalizing cs p i with
  | nil => exact absurd hi (Nat.not_lt_zero i)
  | cons piece xs ih =>
    -- what is left of the line after the characters of the first piece
    have hrest : ∀ {rest : List Char}, cs = piece.chars ++ rest → Cut rest (xs ++ ys) →
        (place file (p.after piece.chars) xs).error = none → piece.chars.length ≤ i →
        InLexeme (place file (p.after piece.chars) xs).tokens (p.offset + i) := by
      intro rest hcs hcut herr hle
      rw [List.flatMap_cons, List.length_append] at hi
      rw [hcs, List.append_assoc, List.getElem?_append_right hle] at hc
      have := ih hcut herr (fun hmem => hn (List.mem_cons_of_mem _ hmem)) (by omega) hc
      rw [Position.offset_after] at this
      rwa [show p.offset + piece.chars.length + (i - piece.chars.length) = p.offset + i by
        omega] at this
    have hfirst : ∀ {rest : List Char}, cs = piece.chars ++ rest → i < piece.chars.length →
        '\n' ∈ piece.chars := by
      intro rest hcs hlt
      rw [hcs, List.append_assoc, List.getElem?_append_left hlt] at hc
      exact List.mem_of_getElem? hc
    rw [List.cons_append] at h
    generalize hzs : xs ++ ys = zs at h hrest
    cases h with
    | breach => cases he
    | newline => exact absurd List.mem_cons_self hn
    | @blank c _ _ hb hne hcut =>
      rcases Nat.lt_or_ge i [c].length with hlt | hle
      · have := hfirst rfl hlt
        exact absurd (List.mem_singleton.mp this).symm hne
      · exact hrest rfl hcut he hle
    | @comment text _ _ ht _ hcut =>
      rcases Nat.lt_or_ge i ('#' :: text).length with hlt | hle
      · rcases List.mem_cons.mp (hfirst rfl hlt) with heq | hmem
        · cases heq
        · exact absurd hmem ht
      · exact hrest rfl hcut he hle
    | @token body l _ _ _ _ hcut =>
      rcases Nat.lt_or_ge i l.length with hlt | hle
      · refine ⟨_, List.mem_cons_self, ?_, ?_⟩
        · simp only [Position.inFile]
          omega
        · simp only [Position.inFile, String.length_ofList]
          omega
      · exact (hrest rfl hcut he hle).mono (List.subset_cons_self _ _)

theorem Cut.blanks {cs : List Char} {ps : List Piece} (h : Cut cs ps)
    (hb : LogicalLine.isBare ps = false) (more : List Char) :
    (cs ++ more).takeWhile (fun c => Text.isBlank c && c != '\n') = LogicalLine.indent ps := by
  induction h with
  | nil | newline | comment => cases hb
  | @blank c rest ps hc hn _ ih =>
    rw [List.cons_append, List.takeWhile_cons_of_pos (by simp [hc, hn]), ih hb]
    rfl
  | token hs _ _ =>
    obtain ⟨c, cs, rfl, hc, -⟩ := hs.form.exists_cons
    rw [List.cons_append, List.cons_append, List.takeWhile_cons_of_neg (by simp [hc])]
    rfl
  | breach rest b hc _ =>
    rw [List.cons_append, List.takeWhile_cons_of_neg (by simp [hc])]
    rfl

/-- A logical line of a text starts at a position, and the text goes on there with `rest`. -/
structure LineStartsAt (text : List Char) (words : List Token) (p : Position) (rest : List Char) :
    Prop where
  drop : text.drop p.offset = rest
  start : p.offset = 0 ∨ ∃ n, p.offset = n + 1 ∧ EndsLine text words n

section

variable {text more cs : List Char} {words : List Token} {line : LogicalLine}
  {lines : List LogicalLine} {ps xs ys : List Piece}

/-- Up to the first line feed piece, the indent of a token is what the line starts with. -/
theorem LineStartsAt.indentOf_eq (h : LineStartsAt text words p (cs ++ more))
    (hcut : Cut cs ps) (hbare : LogicalLine.isBare ps = false) (hps : ps = xs ++ ys)
    (hxs : .newline ∉ xs) (he : (place file p xs).error = none)
    (hsub : (place file p xs).tokens ⊆ words) {u : Token} (hu : u ∈ (place file p xs).tokens) :
    indentOf text words u = LogicalLine.indent ps := by
  subst hps
  obtain ⟨hfrom, hto⟩ := bounds_of_mem_place hu
  rw [position_place he, Position.offset_after] at hto
  obtain ⟨n, hn⟩ := Int.eq_ofNat_of_zero_le (Int.le_trans (Int.natCast_nonneg _) hfrom)
  have hs : lineStart text words n = p.offset := by
    refine lineStart_eq (by omega) h.start ?_
    intro m hm hmn hends
    obtain ⟨i, rfl⟩ := Nat.exists_eq_add_of_le hm
    have hc : (cs ++ more)[i]? = some '\n' := by
      rw [← h.drop, List.getElem?_drop]
      exact hends.1
    have hin : InLexeme (place file p xs).tokens (p.offset + i) :=
      hcut.inLexeme he hxs (by omega) hc
    exact hends.2 (hin.mono hsub)
  rw [indentOf, hn, Int.toNat_natCast, hs, blanksFrom, h.drop, hcut.blanks hbare]

/-- After a line feed outside all lexemes the next line starts. -/
theorem LineStartsAt.next {rest : List Char} (h : LineStartsAt text words p (cs ++ '\n' :: rest))
    (hout : ¬InLexeme words (p.after cs).offset) :
    LineStartsAt text words ((p.after cs).next '\n') rest := by
  have hdrop : text.drop (p.after cs).offset = '\n' :: rest := by
    rw [Position.offset_after, ← List.drop_drop, h.drop, List.drop_left]
  refine ⟨?_, .inr ⟨(p.after cs).offset, rfl, ?_, hout⟩⟩
  · have := congrArg (List.drop 1) hdrop
    rw [List.drop_drop] at this
    exact this
  · have := congrArg List.head? hdrop
    rwa [List.head?_drop] at this

/-- Pieces from the start of a logical line on, in the middle of a text. The tokens of the text are
those of the pieces, after some that end before. -/
structure AtLine (text more : List Char) (words : List Token) (file : String) (p : Position)
    (cs : List Char) (ps : List Piece) : Prop where
  starts : LineStartsAt text words p (cs ++ more)
  cut : Cut cs ps
  error : (place file p ps).error = none
  split : ∃ earlier, words = earlier ++ (place file p ps).tokens ∧
    ∀ u ∈ earlier, u.location.offset + (u.lexeme.length : Int) ≤ p.offset

namespace AtLine

/-- The tokens on either side of a line feed piece do not reach over it. -/
theorem not_inLexeme (h : AtLine text more words file p cs (xs ++ .newline :: ys)) :
    ¬InLexeme words (place file p xs).position.offset := by
  rintro ⟨u, hu, hfrom, hto⟩
  obtain ⟨earlier, hwords, hearlier⟩ := h.split
  have hle : p.offset ≤ (place file p xs).position.offset := offset_le_position xs
  rw [hwords, place_newline _ (error_place_left h.error), List.mem_append, List.mem_append] at hu
  rcases hu with hu | hu | hu
  · have := hearlier u hu
    omega
  · have := (bounds_of_mem_place hu).2
    omega
  · have : ((place file p xs).position.offset + 1 : Nat) ≤ u.location.offset :=
      (bounds_of_mem_place hu).1
    omega

theorem next (h : AtLine text more words file p cs (xs ++ .newline :: ys)) :
    ∃ cs', AtLine text more words file ((place file p xs).position.next '\n') cs' ys := by
  have he := error_place_left h.error
  obtain ⟨cs', rfl, hcut⟩ := h.cut.append he
  obtain ⟨earlier, hwords, hearlier⟩ := h.split
  have herror := h.error
  rw [place_newline _ he] at herror hwords
  cases hcut with
  | @newline cs' _ hcut =>
    refine ⟨cs', ?_, hcut, herror, earlier ++ (place file p xs).tokens, ?_, ?_⟩
    · have hout := h.not_inLexeme
      have hstarts := h.starts
      rw [position_place he] at hout ⊢
      rw [List.append_assoc] at hstarts
      exact hstarts.next hout
    · rw [hwords, List.append_assoc]
    · intro u hu
      have hle : p.offset ≤ (place file p xs).position.offset := offset_le_position xs
      have hnext : ((place file p xs).position.next '\n').offset =
        (place file p xs).position.offset + 1 := rfl
      rcases List.mem_append.mp hu with hu | hu
      · have := hearlier u hu
        omega
      · have := (bounds_of_mem_place hu).2
        omega

theorem indentOf_eq (h : AtLine text more words file p cs ps) (hl : logicalLines ps = line :: lines)
    (hps : ps = xs ++ ys) (hxs : .newline ∉ xs)
    (hline : (place file p line).tokens = (place file p xs).tokens) :
    ∀ u ∈ (place file p line).tokens, indentOf text words u = line.indent := by
  intro u hu
  have hbare : LogicalLine.isBare ps = false := by
    rw [Bool.eq_false_iff]
    intro hb
    rw [h.cut.tokens_bare hl hb] at hu
    cases hu
  have he : (place file p xs).error = none := by
    have he := h.error
    rw [hps] at he
    exact error_place_left he
  have hsub : (place file p xs).tokens ⊆ words := by
    obtain ⟨earlier, hwords, -⟩ := h.split
    rw [hwords, hps, place_append _ he]
    intro v hv
    simp [hv]
  rw [hline] at hu
  rw [(LogicalLine.indent_first hl).1]
  exact h.starts.indentOf_eq h.cut hbare hps hxs he hsub hu

end AtLine

/-- Each token stands on a line that starts with its indent. -/
def IndentsFit (indent : Token → List Char) (file : String) : Position → List LogicalLine → Prop
  | _, [] => True
  | p, line :: lines => (∀ u ∈ (place file p line).tokens, indent u = line.indent) ∧
      IndentsFit indent file (place file p line).position lines

theorem AtLine.indentsFit (h : AtLine text more words file p cs ps)
    (hl : logicalLines ps = lines) : IndentsFit (indentOf text words) file p lines := by
  induction lines generalizing p cs ps with
  | nil => trivial
  | cons line lines ih =>
    rcases logicalLines_first hl with ⟨xs, rest, hxs, rfl, rfl, rfl⟩ | ⟨hline, rfl, rfl⟩
    · have hplace : place file p (xs ++ [.newline]) =
          ⟨(place file p xs).tokens, (place file p xs).position.next '\n', none⟩ := by
        rw [place_newline _ (error_place_left h.error)]
        simp [place]
      obtain ⟨cs', hnext⟩ := h.next
      refine ⟨h.indentOf_eq hl rfl hxs (by rw [hplace]), ?_⟩
      rw [hplace]
      exact ih hnext rfl
    · exact ⟨h.indentOf_eq hl (List.append_nil _).symm hline rfl, trivial⟩

end

/-! ## Taking an indent -/

namespace Indentation

variable {t' : Indentation} {ws : List Char} {ms : List Marker}

theorem measure_level (h : t.measure ws = (.ok ms, t')) : t'.level = ws.length := by
  match ws with
  | [] =>
    rw [measure_nil] at h
    cases h
    rfl
  | c :: cs =>
    obtain ⟨_, _, _, -, rfl, -, -, -, -, rfl⟩ := measure_cons h
    rfl

/-- An indent that is taken consists of the blank in use, which does not change any more. -/
theorem measure_blank (h : t.measure ws = (.ok ms, t')) :
    (∀ c ∈ ws, t'.blank = some c) ∧ ∀ c, t.blank = some c → t'.blank = some c := by
  match ws with
  | [] =>
    rw [measure_nil] at h
    cases h
    exact ⟨fun c hc => absurd hc List.not_mem_nil, fun c hc => hc⟩
  | d :: ds =>
    obtain ⟨blank, _, _, hblank, -, -, hall, -, -, rfl⟩ := measure_cons h
    refine ⟨fun c hc => congrArg some (hall c hc).symm, fun c hc => ?_⟩
    rw [hblank, hc]
    rfl

/-- The first indent that is not empty gives the step. -/
theorem measure_step (h : t.measure ws = (.ok ms, t')) (indents : List (List Char)) :
    t'.step.or (firstStep indents) = t.step.or (firstStep (ws :: indents)) := by
  match ws with
  | [] =>
    rw [measure_nil] at h
    cases h
    rfl
  | c :: cs =>
    obtain ⟨_, step, width, -, rfl, rfl, -, -, -, rfl⟩ := measure_cons h
    have hfirst : firstStep ((c :: cs) :: indents) = some (c :: cs).length := by
      simp [firstStep]
    rw [hfirst]
    cases t.step <;> rfl

/-- An indent that has been taken may be taken again, with no effect. -/
theorem measure_again (h : t.measure ws = (.ok ms, t')) : t'.measure ws = (.ok [], t') := by
  match ws with
  | [] =>
    rw [measure_nil] at h
    cases h
    rw [measure_nil, markers_self]
  | c :: cs =>
    obtain ⟨blank, step, width, -, rfl, -, hall, hdvd, -, rfl⟩ := measure_cons h
    have hrun : measure ⟨(c :: cs).length, some blank, some step⟩ (c :: cs) = _ :=
      measure_run (List.cons_ne_nil c cs) hall rfl hdvd
    rw [hrun, markers_self]
    rfl

end Indentation

/-! ## The indents of tokens one by one -/

/-- Tokens from a state of the indentation on. Before each token that is no marker stand the markers
to which its indent leads, and at the end only markers are left. -/
inductive Indented (indent : Token → List Char) : Indentation → List Token → Prop where
  | close {t : Indentation} {ts : List Token} : (∀ u ∈ ts, u.isMarker) → Indented indent t ts
  | token {t t' : Indentation} {ms : List Marker} {u : Token} {us : List Token}
      (location : Location) : u.isMarker = false → t.measure (indent u) = (.ok ms, t') →
      Indented indent t' us → Indented indent t (ms.map (.ofMarker location) ++ u :: us)

section

variable {indent : Token → List Char} {ts us rest : List Token} {u : Token}

/-- Tokens on one line have one indent. -/
theorem Indented.line {ws : List Char} (ht : t.measure ws = (.ok [], t))
    (hus : ∀ u ∈ us, u.isMarker = false) (hindent : ∀ u ∈ us, indent u = ws)
    (h : Indented indent t rest) : Indented indent t (us ++ rest) := by
  induction us with
  | nil => exact h
  | cons u us ih =>
    obtain ⟨hu, hus⟩ := List.forall_mem_cons.mp hus
    obtain ⟨hiu, hindent⟩ := List.forall_mem_cons.mp hindent
    have htu : t.measure (indent u) = (.ok [], t) := by
      rw [hiu]
      exact ht
    exact .token u.location hu htu (ih hus hindent)

theorem Scan.indented {lines : List LogicalLine} (hc : ∃ cs ps, Cut cs ps ∧ logicalLines ps = lines)
    (hfit : IndentsFit indent file p lines) (h : (ofLines file p t lines).error = none) :
    Indented indent t (ofLines file p t lines).tokens := by
  induction lines generalizing p t with
  | nil =>
    refine .close fun u hu => ?_
    obtain ⟨m, -, rfl⟩ := List.mem_map.mp hu
    rfl
  | cons line lines ih =>
    obtain ⟨markers, t', hm, hp, hrest, htokens⟩ := ofLines_cons h
    obtain ⟨cs, ps, hcut, hl⟩ := hc
    have hc' := hcut.rest hl
    obtain ⟨hline, hfit⟩ := hfit
    rw [htokens]
    cases hbare : line.isBare with
    | true =>
      have hnil : (place file p line).tokens = [] :=
        hcut.tokens_bare hl ((LogicalLine.indent_first hl).2 ▸ hbare)
      simp only [Indentation.enter, hbare, if_true, Prod.mk.injEq, Except.ok.injEq] at hm
      obtain ⟨rfl, rfl⟩ := hm
      rw [hnil]
      exact ih hc' hfit hrest
    | false =>
      simp only [Indentation.enter, hbare, Bool.false_eq_true, if_false] at hm
      have hrest := ih hc' hfit hrest
      have hwords : ∀ u ∈ (place file p line).tokens, u.isMarker = false := by
        intro u hu
        rw [Token.isMarker_eq]
        exact hcut.isMarker_line hl file p _ (List.mem_map_of_mem hu)
      cases hplace : (place file p line).tokens with
      | nil => exact absurd hplace (LogicalLine.tokens_ne_nil hbare hp)
      | cons u us =>
        rw [hplace] at hline hwords
        obtain ⟨hiu, hline⟩ := List.forall_mem_cons.mp hline
        obtain ⟨hu, hus⟩ := List.forall_mem_cons.mp hwords
        rw [List.append_assoc, List.cons_append]
        refine .token (p.inFile file) hu (by rw [hiu]; exact hm) ?_
        exact hrest.line (Indentation.measure_again hm) hus hline

/-- A token that is no marker is the first after some markers, or it comes later. -/
theorem eq_or_later {ms before after : List Token} {v : Token} (hms : ∀ m ∈ ms, m.isMarker)
    (hu : u.isMarker = false) (h : ms ++ v :: us = before ++ u :: after) :
    (before = ms ∧ u = v) ∨ ∃ before', before = ms ++ v :: before' ∧ us = before' ++ u :: after := by
  rcases List.append_eq_append_iff.mp h with ⟨xs, hbefore, hrest⟩ | ⟨xs, hm, hrest⟩
  · match xs with
    | [] =>
      obtain ⟨rfl, -⟩ := List.cons.inj hrest
      exact .inl ⟨by simpa using hbefore, rfl⟩
    | x :: xs =>
      obtain ⟨rfl, hus⟩ := List.cons.inj hrest
      exact .inr ⟨xs, hbefore, hus⟩
  · match xs with
    | [] =>
      obtain ⟨rfl, -⟩ := List.cons.inj hrest
      exact .inl ⟨by simpa using hm.symm, rfl⟩
    | x :: xs =>
      obtain ⟨rfl, -⟩ := List.cons.inj hrest
      have := hms u (by simp [hm])
      rw [hu] at this
      cases this

/-! ## Depths -/

/-- How many more blocks some tokens open than they close. -/
def depthAfter (ts : List Token) : Int :=
  (ts.map Token.kind).count (.marker .indent) - (ts.map Token.kind).count (.marker .dedent)

theorem depthAfter_markers (d d' : Nat) (location : Location) :
    depthAfter ((Indentation.markers 1 d d').map (.ofMarker location)) = d' - d := by
  have hkinds : ((Indentation.markers 1 d d').map (Token.ofMarker location)).map Token.kind =
      (Indentation.markers 1 d d').map .marker := by
    rw [List.map_map]
    rfl
  have hcount := count_markers d d'
  rw [depthAfter, hkinds]
  omega

theorem depthAfter_word (hu : u.isMarker = false) (ts us : List Token) :
    depthAfter (ts ++ u :: us) = depthAfter ts + depthAfter us := by
  rw [Token.isMarker_eq] at hu
  simp only [depthAfter, List.map_append, List.map_cons, count_token hu]
  omega

theorem filter_markers (hu : u.isMarker = false) (ms : List Marker) (location : Location)
    (us : List Token) : (ms.map (Token.ofMarker location) ++ u :: us).filter (!·.isMarker) =
      u :: us.filter (!·.isMarker) := by
  have hnil : (ms.map (Token.ofMarker location)).filter (!·.isMarker) = [] := by
    rw [List.filter_eq_nil_iff]
    intro v hv
    obtain ⟨m, -, rfl⟩ := List.mem_map.mp hv
    simp [Token.ofMarker, Token.isMarker]
  rw [List.filter_append, hnil, List.nil_append, List.filter_cons_of_pos (by simp [hu])]

/-- The state in which the indent of a token has been taken. Its depth is the number of open blocks,
and its step is the first one. -/
theorem Indented.exists_state (h : Indented indent t ts) (ht : t.Sound) {before after : List Token}
    (hts : ts = before ++ u :: after) (hu : u.isMarker = false) :
    ∃ t' : Indentation, t'.Sound ∧ t'.level = (indent u).length ∧
      (t'.depth : Int) = t.depth + depthAfter before ∧
      ∀ s, t'.step = some s →
        t.step.or (firstStep ((ts.filter (!·.isMarker)).map indent)) = some s := by
  induction h generalizing before with
  | close hm =>
    have := hm u (by simp [hts])
    rw [hu] at this
    cases this
  | @token t t' ms v us location hv hmeasure h ih =>
    obtain ⟨ht', hms, -, -⟩ := Indentation.measure_ok ht hmeasure
    have hmarkers : ∀ m ∈ ms.map (Token.ofMarker location), m.isMarker := by
      intro m hm
      obtain ⟨m, -, rfl⟩ := List.mem_map.mp hm
      rfl
    have hdepth : depthAfter (ms.map (.ofMarker location)) = t'.depth - t.depth := by
      rw [hms]
      exact depthAfter_markers _ _ _
    rw [filter_markers hv, List.map_cons, ← Indentation.measure_step hmeasure]
    rcases eq_or_later hmarkers hu hts with ⟨rfl, rfl⟩ | ⟨before, rfl, hus⟩
    · refine ⟨t', ht', Indentation.measure_level hmeasure, ?_, ?_⟩
      · omega
      · intro s hs
        rw [hs]
        rfl
    · obtain ⟨t'', hsound, hlevel, hd, hstep⟩ := ih ht' hus
      refine ⟨t'', hsound, hlevel, ?_, hstep⟩
      rw [depthAfter_word hv]
      omega

/-- All indents repeat one blank. -/
theorem Indented.exists_blank (h : Indented indent t ts) :
    ∃ b, (∀ c ∈ t.blank, c = b) ∧ ∀ u ∈ ts.filter (!·.isMarker), ∀ c ∈ indent u, c = b := by
  induction h with
  | @close t ts hm =>
    refine ⟨t.blank.getD ' ', ?_, ?_⟩
    · intro c hc
      rw [Option.mem_def.mp hc]
      rfl
    · intro u hu
      obtain ⟨hu, hmarker⟩ := List.mem_filter.mp hu
      simp [hm u hu] at hmarker
  | @token t t' ms v us location hv hmeasure h ih =>
    obtain ⟨b, hb, hus⟩ := ih
    obtain ⟨hws, hkeep⟩ := Indentation.measure_blank hmeasure
    rw [filter_markers hv]
    refine ⟨b, fun c hc => hb c (hkeep c hc), ?_⟩
    intro u hu c hc
    rcases List.mem_cons.mp hu with rfl | hu
    · exact hb c (hws c hc)
    · exact hus u hu c hc

end

theorem Indentation.Sound.level_eq (h : t.Sound) : t.level = t.depth * t.step.getD 1 := by
  rw [depth, Nat.div_mul_cancel h.dvd]

/-! ## The indents of a text -/

theorem atLine_start {source : String} {words : List Token} {more : List Char}
    (hmore : source.toList = trimmed source ++ more)
    (he : (place file .start (pieces (trimmed source))).error = none)
    (hwords : (place file .start (pieces (trimmed source))).tokens = words) :
    AtLine source.toList more words file .start (trimmed source) (pieces (trimmed source)) :=
  ⟨⟨hmore, .inl rfl⟩, cut_pieces _, he, [], hwords.symm, fun _ hu => absurd hu List.not_mem_nil⟩

theorem indented_of_tokenize {source : String} {tokens : List Token}
    (h : tokenize file source = .ok tokens) :
    Indented (indentOf source.toList (tokens.filter (!·.isMarker))) .fresh tokens := by
  obtain ⟨he, hwords⟩ := place_pieces h
  obtain ⟨more, hmore, -⟩ := Text.exists_trimEnd_append source.toList
  obtain ⟨hscan, htokens⟩ := Scan.result_eq_ok.mp h
  have hcut := cut_pieces (trimmed source)
  have hline := atLine_start hmore he hwords
  have hindented : Indented _ .fresh (scan file source).tokens :=
    Scan.indented ⟨_, _, hcut, rfl⟩ (hline.indentsFit rfl) hscan
  rwa [htokens] at hindented

theorem Indented.depth_mul_step {indent : Token → List Char} {ts before after : List Token}
    {u : Token} (h : Indented indent .fresh ts) (hts : ts = before ++ u :: after)
    (hu : u.isMarker = false) :
    let step := firstStep ((ts.filter (!·.isMarker)).map indent)
    depthAfter before * (step.getD 1 : Nat) = (indent u).length ∧
      (step = none → (indent u).length = 0) := by
  intro step
  obtain ⟨t, ht, hlevel, hdepth, hstep⟩ := h.exists_state Indentation.sound_fresh hts hu
  have hdepth : (t.depth : Int) = depthAfter before := by
    rw [hdepth]
    exact Int.zero_add _
  rw [← hdepth, ← hlevel]
  cases hs : t.step with
  | none =>
    rw [ht.depth_unfixed hs, ht.unfixed hs]
    simp
  | some s =>
    have hfirst : step = some s := hstep s hs
    have hlevel := ht.level_eq
    rw [hs] at hlevel
    rw [hfirst, hlevel]
    exact ⟨(Int.natCast_mul _ _).symm, nofun⟩

/-- The number of blocks open before a token, times the first width of an indent that is not zero, is
the width of the indent of the token's line. Where there is no such width, all lines start without
blanks and no block is ever open. All indents repeat one blank. -/
theorem depth_mul_step_of_tokenize {source : String} {tokens : List Token}
    (h : tokenize file source = .ok tokens) :
    let words := tokens.filter (!·.isMarker)
    let indent := indentOf source.toList words
    let step := firstStep (words.map indent)
    (∀ before u after, tokens = before ++ u :: after → u.isMarker = false →
      (∀ s, step = some s → depthAfter before * s = (indent u).length) ∧
        (step = none → (indent u).length = 0 ∧ depthAfter before = 0)) ∧
      ∃ b, ∀ u ∈ words, ∀ c ∈ indent u, c = b := by
  intro words indent step
  have hindented := indented_of_tokenize h
  constructor
  · intro before u after htokens hu
    obtain ⟨hmul, hzero⟩ := hindented.depth_mul_step htokens hu
    constructor
    · intro s hs
      have hmul : depthAfter before * (step.getD 1 : Nat) = (indent u).length := hmul
      rwa [hs] at hmul
    · intro hs
      have hmul : depthAfter before * (step.getD 1 : Nat) = (indent u).length := hmul
      rw [hs, hzero hs] at hmul
      simp only [Option.getD_none] at hmul
      exact ⟨hzero hs, by omega⟩
  · obtain ⟨b, -, hb⟩ := hindented.exists_blank
    exact ⟨b, hb⟩

theorem depth_mul_step_of_tokenize_jump :
    let source := "a\n  'x\n y'\n\t# c\n      b\\\nc\nd"
    ∃ before u after, tokenize "f" source = .ok (before ++ u :: after) ∧ depthAfter before = 3 ∧
      (let words := (before ++ u :: after).filter (!·.isMarker)
      firstStep (words.map (indentOf source.toList words)) = some 2 ∧
        depthAfter before * (2 : Nat) = (indentOf source.toList words u).length) := by
  intro source
  let before : List Token := [⟨.identifier "a", "a", ⟨"f", 1, 1, 0⟩⟩,
    ⟨.marker .indent .none, "", ⟨"f", 2, 1, 2⟩⟩, ⟨.string "x\n y", "'x\n y'", ⟨"f", 2, 3, 4⟩⟩,
    ⟨.marker .indent .none, "", ⟨"f", 5, 1, 16⟩⟩, ⟨.marker .indent .none, "", ⟨"f", 5, 1, 16⟩⟩]
  let u : Token := ⟨.identifier "b\nc", "b\\\nc", ⟨"f", 5, 7, 22⟩⟩
  let after : List Token := [⟨.marker .dedent .none, "", ⟨"f", 7, 1, 27⟩⟩,
    ⟨.marker .dedent .none, "", ⟨"f", 7, 1, 27⟩⟩, ⟨.marker .dedent .none, "", ⟨"f", 7, 1, 27⟩⟩,
    ⟨.identifier "d", "d", ⟨"f", 7, 1, 27⟩⟩]
  have h : tokenize "f" source = .ok (before ++ u :: after) :=
    eq_ok_of_toOption (by decide +kernel)
  let words := (before ++ u :: after).filter (!·.isMarker)
  have hstep : firstStep (words.map (indentOf source.toList words)) = some 2 := by decide +kernel
  refine ⟨before, u, after, h, by decide, hstep, ?_⟩
  exact ((depth_mul_step_of_tokenize h).1 before u after rfl rfl).1 2 hstep

end TraitMarkup
