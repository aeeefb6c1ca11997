import Mathlib.Data.List.Forall2
import TraitMarkup.Proofs.Coverage

/-!
# Pieces in their places

To put the pieces of a text in their places is to take one lexeme or blank of the text after the other
(`place_lexeme`, `place_blanks`). An error keeps what follows it from being seen. Where there is none,
each token stands where the characters before it lead, there is one way to cut the text
(`Cut.eq_pieces`), and a line feed outside all lexemes cuts it in two (`Cut.split_newline`).
-/

namespace TraitMarkup

open Token (Kind Body Payload)

variable {file : String} {p : Position}

/-- The placed pieces with one more token in front. -/
def Placed.cons (u : Token) (s : Placed) : Placed := { s with tokens := u :: s.tokens }

theorem place_lexeme {body : Body} {l rest : List Char} (h : Spells body l)
    (hr : Ends body.kind l rest) : place file p (pieces (l ++ rest)) =
      (place file (p.after l) (pieces rest)).cons ⟨body, String.ofList l, p.inFile file⟩ := by
  obtain ⟨c, cs, heq, hread⟩ := Piece.read_append h hr
  rw [heq, pieces_cons, hread]
  rfl

/-- Line feeds are blanks like others here. -/
theorem place_blank {c : Char} (h : Text.isBlank c) (rest : List Char) :
    place file p (pieces (c :: rest)) = place file (p.next c) (pieces rest) := by
  by_cases hn : c = '\n'
  · subst hn
    rw [pieces_cons, Piece.read_newline]
    rfl
  · rw [pieces_cons, Piece.read_blank rest h hn]
    rfl

theorem place_blanks {ws : List Char} (h : ∀ c ∈ ws, Text.isBlank c) (rest : List Char) :
    place file p (pieces (ws ++ rest)) = place file (p.after ws) (pieces rest) := by
  induction ws generalizing p with
  | nil => rfl
  | cons c ws ih =>
    obtain ⟨hc, hw⟩ := List.forall_mem_cons.mp h
    rw [List.cons_append, place_blank hc, ih hw, Position.after_cons]

theorem place_append_error {xs : List Piece} {e : ScanError} (ys : List Piece)
    (h : (place file p xs).error = some e) : place file p (xs ++ ys) = place file p xs := by
  induction xs generalizing p with
  | nil => cases h
  | cons piece xs ih =>
    cases piece with
    | breach b => rfl
    | token body lexeme => simp only [List.cons_append, place, ih h]
    | blank | newline | comment => exact ih h

theorem place_newline {xs : List Piece} (ys : List Piece) (h : (place file p xs).error = none) :
    place file p (xs ++ .newline :: ys) =
      { place file ((place file p xs).position.next '\n') ys with
        tokens := (place file p xs).tokens ++
          (place file ((place file p xs).position.next '\n') ys).tokens } :=
  place_append _ h

theorem error_place_left {xs ys : List Piece} (h : (place file p (xs ++ ys)).error = none) :
    (place file p xs).error = none := by
  cases he : (place file p xs).error with
  | none => rfl
  | some e =>
    rw [place_append_error ys he, he] at h
    cases h

/-! ## Where the tokens are -/

theorem position_place {ps : List Piece} (h : (place file p ps).error = none) :
    (place file p ps).position = p.after (ps.flatMap Piece.chars) := by
  induction ps generalizing p with
  | nil => rfl
  | cons piece ps ih =>
    rw [List.flatMap_cons, Position.after_append]
    cases piece with
    | breach b => cases h
    | token | blank | newline | comment => exact ih h

theorem offset_le_position (ps : List Piece) : p.offset ≤ (place file p ps).position.offset := by
  induction ps generalizing p with
  | nil => exact Nat.le_refl _
  | cons piece ps ih =>
    have hnext : ∀ cs : List Char, p.offset ≤ (place file (p.after cs) ps).position.offset := by
      intro cs
      refine Nat.le_trans ?_ ih
      rw [Position.offset_after]
      exact Nat.le_add_right _ _
    cases piece with
    | breach b =>
      simp only [place, Position.offset_after]
      exact Nat.le_add_right _ _
    | token | blank | newline | comment => exact hnext _

/-- The lexemes of tokens stand between the start of the pieces and their end. -/
theorem bounds_of_mem_place {ps : List Piece} {u : Token} (h : u ∈ (place file p ps).tokens) :
    (p.offset : Int) ≤ u.location.offset ∧
      u.location.offset + (u.lexeme.length : Int) ≤ (place file p ps).position.offset := by
  induction ps generalizing p with
  | nil => cases h
  | cons piece ps ih =>
    have hnext : ∀ cs : List Char, u ∈ (place file (p.after cs) ps).tokens →
        (p.offset : Int) ≤ u.location.offset ∧ u.location.offset + (u.lexeme.length : Int) ≤
          (place file (p.after cs) ps).position.offset := by
      intro cs hu
      obtain ⟨hfrom, hto⟩ := ih hu
      rw [Position.offset_after] at hfrom
      exact ⟨by omega, hto⟩
    cases piece with
    | breach b => cases h
    | token body l =>
      rcases List.mem_cons.mp h with rfl | h
      · refine ⟨Int.le_refl _, ?_⟩
        have hle : (p.after l).offset ≤ (place file (p.after l) ps).position.offset :=
          offset_le_position ps
        rw [Position.offset_after] at hle
        simp only [Position.inFile, String.length_ofList]
        exact_mod_cast hle
      · exact hnext l h
    | blank | newline | comment => exact hnext _ h

/-- A token stands where the characters of the pieces before it lead. -/
theorem exists_prefix_of_mem_place {ps : List Piece} {u : Token}
    (h : u ∈ (place file p ps).tokens) : ∃ xs body l ys, ps = xs ++ .token body l :: ys ∧
      u = ⟨body, String.ofList l, (p.after (xs.flatMap Piece.chars)).inFile file⟩ := by
  induction ps generalizing p with
  | nil => cases h
  | cons piece ps ih =>
    have hnext : u ∈ (place file (p.after piece.chars) ps).tokens → ∃ xs body l ys,
        piece :: ps = xs ++ .token body l :: ys ∧
          u = ⟨body, String.ofList l, (p.after (xs.flatMap Piece.chars)).inFile file⟩ := by
      intro hu
      obtain ⟨xs, body, l, ys, rfl, rfl⟩ := ih hu
      refine ⟨piece :: xs, body, l, ys, rfl, ?_⟩
      rw [List.flatMap_cons, Position.after_append]
    cases piece with
    | breach b => cases h
    | token body l =>
      rcases List.mem_cons.mp h with rfl | h
      · exact ⟨[], body, l, ps, rfl, rfl⟩
      · exact hnext h
    | blank | newline | comment => exact hnext h

/-! ## Lines and columns -/

namespace Position

theorem line_after (p : Position) (cs : List Char) :
    (p.after cs).line = p.line + cs.count '\n' := by
  induction cs generalizing p with
  | nil => rfl
  | cons c cs ih =>
    rw [after_cons, ih, List.count_cons, next]
    by_cases h : c = '\n'
    · simp [h]
      omega
    · simp [h]

theorem after_of_not_mem {cs : List Char} (h : '\n' ∉ cs) (p : Position) :
    p.after cs = ⟨p.line, p.column + cs.length, p.offset + cs.length⟩ := by
  induction cs generalizing p with
  | nil => rfl
  | cons c cs ih =>
    rw [List.mem_cons, not_or] at h
    rw [after_cons, ih h.2, next, if_neg (Ne.symm h.1), List.length_cons, Nat.add_right_comm,
      Nat.add_right_comm p.offset]
    rfl

theorem column_after {q : Position} (h : p.column = q.column) (cs : List Char) :
    (p.after cs).column = (q.after cs).column := by
  induction cs generalizing p q with
  | nil => exact h
  | cons c cs ih =>
    apply ih
    unfold next
    split
    · rfl
    · simp only [h]

end Position

/-- Two tokens that are the same and stand in the same column. -/
structure Token.SameColumn (u v : Token) : Prop where
  body : u.body = v.body
  lexeme : u.lexeme = v.lexeme
  column : u.location.column = v.location.column

/-- Only the column of the place where pieces start shows in the columns of their tokens. -/
theorem place_sameColumn {q : Position} (h : p.column = q.column) (file' : String)
    (ps : List Piece) :
    List.Forall₂ Token.SameColumn (place file p ps).tokens (place file' q ps).tokens ∧
      ((place file p ps).error = none → (place file' q ps).error = none) := by
  induction ps generalizing p q with
  | nil => exact ⟨.nil, fun _ => rfl⟩
  | cons piece ps ih =>
    obtain ⟨htokens, herror⟩ := ih (Position.column_after h piece.chars)
    cases piece with
    | breach b => exact ⟨.nil, nofun⟩
    | token body l =>
      refine ⟨.cons ⟨rfl, rfl, ?_⟩ htokens, herror⟩
      simp only [Position.inFile, h]
    | blank | newline | comment => exact ⟨htokens, herror⟩

/-! ## The characters of pieces -/

theorem Cut.append {cs : List Char} {xs ys : List Piece} (h : Cut cs (xs ++ ys))
    (he : (place file p xs).error = none) :
    ∃ rest, cs = xs.flatMap Piece.chars ++ rest ∧ Cut rest ys := by
  induction xs generalizing cs p with
  | nil => exact ⟨cs, rfl, h⟩
  | cons piece xs ih =>
    rw [List.cons_append] at h
    generalize hzs : xs ++ ys = zs at h
    cases h with
    | breach => cases he
    | blank _ _ h | newline h =>
      subst hzs
      obtain ⟨rest, rfl, hrest⟩ := ih h he
      exact ⟨rest, rfl, hrest⟩
    | comment _ _ h | token _ _ h =>
      subst hzs
      obtain ⟨rest, rfl, hrest⟩ := ih h he
      refine ⟨rest, ?_, hrest⟩
      rw [List.flatMap_cons, List.append_assoc]
      rfl

/-- There is one way to cut a text. -/
theorem Cut.eq_pieces {cs : List Char} {ps : List Piece} (h : Cut cs ps)
    (he : (place file p ps).error = none) : pieces cs = ps := by
  induction h generalizing p with
  | nil => exact pieces_nil
  | @blank c rest ps hb hn _ ih =>
    rw [pieces_cons, Piece.read_blank rest hb hn, ih he]
    rfl
  | @newline rest ps _ ih =>
    rw [pieces_cons, Piece.read_newline, ih he]
    rfl
  | @comment text rest ps ht hr _ ih =>
    rw [List.cons_append, pieces_cons, Piece.read_comment ht hr, ih he]
    rfl
  | @token body l rest ps hs hr _ ih =>
    obtain ⟨c, cs, heq, hread⟩ := Piece.read_append hs hr
    rw [heq, pieces_cons, hread, ih he]
    rfl
  | breach => cases he

theorem mem_head?_append {c : Char} {a : List Char} (h : c ∈ a.head?) (b : List Char) :
    c ∈ (a ++ b).head? := by
  rw [List.head?_append, Option.mem_def.mp h]
  rfl

/-- What does not extend a lexeme does not do so where it is cut off. -/
theorem Ends.left {k : Kind} {l a b : List Char} (h : Ends k l (a ++ b)) : Ends k l a := by
  cases k with
  | marker | string => trivial
  | identifier | number | symbol => exact fun c hc => h c (mem_head?_append hc b)

/-- The first line feed of a text comes after what has none. -/
theorem exists_append_of_newline {l rest a b : List Char} (h : l ++ rest = a ++ '\n' :: b)
    (hl : '\n' ∉ l) : ∃ a', a = l ++ a' ∧ rest = a' ++ '\n' :: b := by
  rcases List.append_eq_append_iff.mp h with ⟨a', ha, hrest⟩ | ⟨c', hc, hb⟩
  · exact ⟨a', ha, hrest⟩
  · match c' with
    | [] => exact ⟨[], by simpa using hc.symm, hb.symm⟩
    | c :: c' =>
      obtain ⟨rfl, -⟩ := List.cons.inj hb
      exact absurd (by simp [hc]) hl

/-- A line feed that is in no lexeme cuts a text in two. -/
theorem Cut.split_newline {cs a b : List Char} {ps : List Piece} (h : Cut cs ps)
    (he : (place file p ps).error = none)
    (hl : ∀ u ∈ (place file p ps).tokens, '\n' ∉ u.lexeme.toList) (hcs : cs = a ++ '\n' :: b)
    (ha : '\n' ∉ a) : ∃ xs ys, ps = xs ++ .newline :: ys ∧ Cut a xs ∧ Cut b ys := by
  induction h generalizing p a with
  | nil => simp at hcs
  | breach => cases he
  | @blank c rest ps hb hn _ ih =>
    have hc : '\n' ∉ [c] := fun hmem => hn (List.mem_singleton.mp hmem).symm
    obtain ⟨a, rfl, hrest⟩ := exists_append_of_newline hcs hc
    obtain ⟨xs, ys, rfl, hxs, hys⟩ := ih he hl hrest fun hmem => ha (List.mem_append_right _ hmem)
    exact ⟨_, ys, rfl, .blank hb hn hxs, hys⟩
  | @newline rest ps hrest ih =>
    match a with
    | [] =>
      obtain ⟨-, rfl⟩ := List.cons.inj hcs
      exact ⟨[], ps, rfl, .nil, hrest⟩
    | d :: a =>
      obtain ⟨rfl, -⟩ := List.cons.inj hcs
      exact absurd List.mem_cons_self ha
  | @comment text rest ps ht hr _ ih =>
    have hc : '\n' ∉ '#' :: text := by
      rw [List.mem_cons, not_or]
      exact ⟨by decide, ht⟩
    obtain ⟨a, rfl, hrest⟩ := exists_append_of_newline hcs hc
    obtain ⟨xs, ys, rfl, hxs, hys⟩ := ih he hl hrest fun hmem => ha (List.mem_append_right _ hmem)
    refine ⟨_, ys, rfl, .comment ht ?_ hxs, hys⟩
    intro d hd
    apply hr
    rw [hrest]
    exact mem_head?_append hd _
  | @token body l rest ps hs hr _ ih =>
    obtain ⟨hu, hl⟩ := List.forall_mem_cons.mp hl
    rw [String.toList_ofList] at hu
    obtain ⟨a, rfl, hrest⟩ := exists_append_of_newline hcs hu
    obtain ⟨xs, ys, rfl, hxs, hys⟩ := ih he hl hrest fun hmem => ha (List.mem_append_right _ hmem)
    rw [hrest] at hr
    exact ⟨_, ys, rfl, .token hs hr.left hxs, hys⟩

end TraitMarkup
