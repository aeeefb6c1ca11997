import TraitMarkup.Proofs.RoundTrip

/-!
# Scanning a text that is cut off or goes on

What a scan does with a text up to some place depends little on what follows. A lexeme stays as it
is before any character that does not extend it, and the indent of a line is measured or not by the
first character on it that is not blank (`Indentation.enter_line`). So a scan may be followed
through a text and then through another that starts in the same way, by induction along the pieces
(`pieces_induction`).
-/

namespace TraitMarkup

open Token (Kind Body Payload)

variable {file : String} {p : Position} {t : Indentation}

/-- Texts are scanned piece by piece, to their end or to where they cannot be cut any further. -/
@[elab_as_elim]
theorem pieces_induction {motive : List Char → Prop} (nil : motive [])
    (blank : ∀ c rest, Text.isBlank c → c ≠ '\n' → motive rest → motive (c :: rest))
    (newline : ∀ rest, motive rest → motive ('\n' :: rest))
    (comment : ∀ text rest, '\n' ∉ text → (∀ c ∈ rest.head?, c = '\n') → motive rest →
      motive ('#' :: text ++ rest))
    (token : ∀ body l rest, Spells body l → Ends body.kind l rest → motive rest →
      motive (l ++ rest))
    (breach : ∀ c cs b rest, Piece.read c cs = (.breach b, rest) → motive (c :: cs))
    (cs : List Char) : motive cs := by
  induction hn : cs.length using Nat.strongRecOn generalizing cs with
  | ind n ih =>
    subst hn
    match cs with
    | [] => exact nil
    | c :: cs =>
      rcases Piece.read_cases c cs with ⟨rfl, text, rest, rfl, ht, hr, -⟩ | ⟨rfl, -⟩ |
        ⟨hb, hn, -⟩ | ⟨body, l, rest, heq, hs, hr, -⟩ | ⟨-, -, b, rest, hread⟩
      · apply comment text rest ht hr
        apply ih rest.length _ rest rfl
        rw [List.length_cons, List.length_append]
        omega
      · exact newline cs (ih cs.length (Nat.lt_succ_self _) cs rfl)
      · exact blank c cs hb hn (ih cs.length (Nat.lt_succ_self _) cs rfl)
      · obtain ⟨d, ds, rfl, -⟩ := hs.form.exists_cons
        rw [heq]
        apply token body _ rest hs hr
        apply ih rest.length _ rest rfl
        rw [heq, List.length_append, List.length_cons]
        omega
      · exact breach c cs b rest hread

/-- What follows a text matters to a lexeme before it only if the text is empty. -/
theorem Ends.append {k : Kind} {l a b : List Char} (h : Ends k l a) (hb : a = [] → Ends k l b) :
    Ends k l (a ++ b) := by
  match a with
  | [] => exact hb rfl
  | c :: a => cases k <;> exact h

/-! ## The first line of a text -/

namespace LogicalLine

/-- Blanks that may start a line. -/
theorem isBare_append {ws : List Char} (hw : ∀ c ∈ ws, Text.isBlank c ∧ c ≠ '\n')
    (cs : List Char) : isBare (pieces (ws ++ cs)) = isBare (pieces cs) := by
  rw [pieces_blanks hw, isBare_blanks]

theorem isBare_of_head {cs : List Char} (h : ∀ c ∈ cs.head?, c = '\n' ∨ c = '#') :
    isBare (pieces cs) = true := by
  match cs with
  | [] =>
    rw [pieces_nil]
    rfl
  | c :: cs =>
    rw [pieces_cons]
    rcases h c rfl with rfl | rfl
    · rw [Piece.read_newline]
      rfl
    · rw [Piece.read_hash]
      rfl

end LogicalLine

namespace Indentation

theorem enter_bare {cs : List Char} (h : LogicalLine.isBare (pieces cs) = true) :
    t.enter (pieces cs) = (.ok [], t) := by
  rw [enter, h]
  rfl

/-- Whether an indent is measured depends on the first character behind it. -/
theorem enter_line {ws : List Char} (hw : ∀ c ∈ ws, Text.isBlank c ∧ c ≠ '\n') {c : Char}
    (hc : Text.isBlank c → c = '\n') (cs : List Char) :
    t.enter (pieces (ws ++ c :: cs)) =
      if c = '\n' ∨ c = '#' then (.ok [], t) else t.measure ws := by
  split
  · rename_i hbare
    apply enter_bare
    rw [LogicalLine.isBare_append hw]
    apply LogicalLine.isBare_of_head
    rintro d ⟨⟩
    exact hbare
  · rename_i hsolid
    rw [not_or] at hsolid
    have hblank : Text.isBlank c = false := by
      rw [Bool.eq_false_iff]
      exact fun hb => hsolid.1 (hc hb)
    obtain ⟨hindent, hbare⟩ := LogicalLine.indent_solid hblank hsolid.2 cs
    rw [enter, LogicalLine.isBare_append hw, hbare, pieces_blanks hw, LogicalLine.indent_blanks,
      hindent, List.append_nil]
    rfl

/-- A text is nothing but blanks on one line, or it is clear how its first line is entered. -/
theorem enter_append_cases (a : List Char) :
    (∀ c ∈ a, Text.isBlank c ∧ c ≠ '\n') ∨
      ∀ (t : Indentation) (b : List Char), t.enter (pieces (a ++ b)) = t.enter (pieces a) := by
  obtain ⟨ws, rest, rfl, hws, hrest⟩ :=
    exists_span (fun c => Text.isBlank c && decide (c ≠ '\n')) a
  have hws : ∀ c ∈ ws, Text.isBlank c ∧ c ≠ '\n' := by simpa using hws
  match rest with
  | [] =>
    left
    rwa [List.append_nil]
  | c :: rest =>
    right
    have hc : Text.isBlank c → c = '\n' := by simpa using hrest c rfl
    intro t b
    rw [List.append_assoc, List.cons_append, enter_line hws hc, enter_line hws hc]

/-- A bare line that follows does not change how a text is entered. -/
theorem enter_append {b : List Char} (h : LogicalLine.isBare (pieces b) = true) (a : List Char) :
    t.enter (pieces (a ++ b)) = t.enter (pieces a) := by
  rcases enter_append_cases a with hblank | happ
  · have hbare : LogicalLine.isBare (pieces (a ++ [])) = true := by
      rw [LogicalLine.isBare_append hblank]
      exact LogicalLine.isBare_of_head (by simp)
    rw [List.append_nil] at hbare
    rw [enter_bare hbare]
    apply enter_bare
    rw [LogicalLine.isBare_append hblank, h]
  · exact happ t b

end Indentation

namespace Scan

theorem start_eq (cs : List Char) : start file p t cs =
      match t.enter (pieces cs) with
      | (.error cause, t) =>
        ⟨[], p.after (LogicalLine.indent (pieces cs)), t, some ⟨cause, p.inFile file⟩⟩
      | (.ok markers, t) =>
        (inside file p t cs).prepend (markers.map (.ofMarker (p.inFile file))) :=
  ofLines_logicalLines (pieces cs)

theorem start_ok {cs : List Char} {markers : List Marker} {t' : Indentation}
    (h : t.enter (pieces cs) = (.ok markers, t')) : start file p t cs =
      (inside file p t' cs).prepend (markers.map (.ofMarker (p.inFile file))) := by
  rw [start_eq, h]

theorem start_error {cs : List Char} {cause : ScanError.Cause} {t' : Indentation}
    (h : t.enter (pieces cs) = (.error cause, t')) :
    (start file p t cs).error = some ⟨cause, p.inFile file⟩ := by
  rw [start_eq, h]

/-- The block structure ignores bare lines. -/
theorem start_bare {cs : List Char} (h : LogicalLine.isBare (pieces cs) = true) :
    start file p t cs = inside file p t cs :=
  start_ok (Indentation.enter_bare h)

/-- A comment may end a text. -/
theorem inside_comment_end {text : List Char} (h : '\n' ∉ text) :
    inside file p t ('#' :: text) = ofLines file (p.after ('#' :: text)) t [] := by
  have hcomment : inside file p t ('#' :: text ++ []) = _ := inside_comment h (by simp)
  rwa [List.append_nil, inside_nil] at hcomment

theorem inside_breach {c : Char} {cs rest : List Char} {b : Breach}
    (h : Piece.read c cs = (.breach b, rest)) : inside file p t (c :: cs) =
      ⟨[], p.after b.seen, t, some ⟨b.cause, (p.after b.before).inFile file⟩⟩ := by
  rw [inside, pieces_cons, h]
  rfl

end Scan

end TraitMarkup
