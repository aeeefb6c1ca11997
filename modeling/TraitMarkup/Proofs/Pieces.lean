import TraitMarkup.Proofs.Lexeme

/-!
# The pieces of a text

`Cut cs ps` says what the pieces `ps` of a text `cs` are, piece by piece: a blank, a line feed, a
comment up to the end of its line, or a lexeme that what follows does not extend, until the text
ends or cannot be cut any further. Every text is cut in this way (`cut_pieces`), so facts about scans
go by induction on a cut and never look into the readers again.
-/

namespace TraitMarkup

open Token (Kind Body Payload)

namespace Piece

/-- What starts with none of the characters that may be passed over is a token, or the end of the
scan. -/
theorem read_solid {c : Char} (h : Text.isBlank c = false) (hh : c ≠ '#') (cs : List Char) :
    (∃ body l, (read c cs).1 = .token body l) ∨ ∃ b, (read c cs).1 = .breach b := by
  have hn : c ≠ '\n' := by
    rintro rfl
    cases h
  have hword : ∀ lead cs, (∃ body l, (readWord lead cs).1 = .token body l) ∨
      ∃ b, (readWord lead cs).1 = .breach b := by
    intro lead cs
    unfold readWord
    split <;> simp
  unfold read
  rw [if_neg hh, if_neg hn]
  split
  · unfold readLiteral
    split <;> simp
  split
  · unfold readNumber
    split
    · exact hword _ _
    · simp
  split
  · exact hword _ _
  split
  · unfold readSymbol
    split <;> simp
  · simp [h]

/-- A comment runs to the end of its line. -/
theorem read_comment {text rest : List Char} (h : '\n' ∉ text) (hr : ∀ c ∈ rest.head?, c = '\n') :
    read '#' (text ++ rest) = (.comment ('#' :: text), rest) := by
  have ht : ∀ c ∈ text, c != '\n' := by
    intro c hc
    rw [bne_iff_ne]
    rintro rfl
    exact h hc
  have hr : ∀ c ∈ rest.head?, (c != '\n') = false := by
    intro c hc
    simp [hr c hc]
  obtain ⟨htake, hdrop⟩ := span_append ht hr
  rw [read_hash, htake, hdrop]

theorem read_cases (c : Char) (cs : List Char) :
    (c = '#' ∧ ∃ text rest, cs = text ++ rest ∧ '\n' ∉ text ∧ (∀ d ∈ rest.head?, d = '\n') ∧
      read c cs = (.comment ('#' :: text), rest)) ∨
    (c = '\n' ∧ read c cs = (.newline, cs)) ∨
    (Text.isBlank c ∧ c ≠ '\n' ∧ read c cs = (.blank c, cs)) ∨
    (∃ body l rest, c :: cs = l ++ rest ∧ Spells body l ∧ Ends body.kind l rest ∧
      read c cs = (.token body l, rest)) ∨
    (Text.isBlank c = false ∧ c ≠ '#' ∧ ∃ b rest, read c cs = (.breach b, rest)) := by
  by_cases hh : c = '#'
  · subst hh
    obtain ⟨text, rest, rfl, ht, hr⟩ := exists_span (· != '\n') cs
    have ht : '\n' ∉ text := fun hn => by simpa using ht _ hn
    have hr : ∀ d ∈ rest.head?, d = '\n' := by simpa using hr
    exact .inl ⟨rfl, text, rest, rfl, ht, hr, read_comment ht hr⟩
  by_cases hn : c = '\n'
  · subst hn
    exact .inr (.inl ⟨rfl, read_newline cs⟩)
  by_cases hb : Text.isBlank c
  · exact .inr (.inr (.inl ⟨hb, hn, read_blank cs hb hn⟩))
  have hb : Text.isBlank c = false := by simpa using hb
  obtain ⟨body, l, he⟩ | ⟨b, he⟩ := read_solid hb hh cs
  · have hread : read c cs = (.token body l, (read c cs).2) := Prod.ext he rfl
    obtain ⟨heq, hs, hr⟩ := spells_of_read hread
    exact .inr (.inr (.inr (.inl ⟨body, l, _, heq, hs, hr, hread⟩)))
  · exact .inr (.inr (.inr (.inr ⟨hb, hh, b, _, Prod.ext he rfl⟩)))

end Piece

/-- The pieces of a text. -/
inductive Cut : List Char → List Piece → Prop where
  | nil : Cut [] []
  | blank {c : Char} {rest : List Char} {ps : List Piece} : Text.isBlank c → c ≠ '\n' →
      Cut rest ps → Cut (c :: rest) (.blank c :: ps)
  | newline {rest : List Char} {ps : List Piece} : Cut rest ps →
      Cut ('\n' :: rest) (.newline :: ps)
  | comment {text rest : List Char} {ps : List Piece} : '\n' ∉ text →
      (∀ c ∈ rest.head?, c = '\n') → Cut rest ps →
      Cut ('#' :: text ++ rest) (.comment ('#' :: text) :: ps)
  | token {body : Body} {l rest : List Char} {ps : List Piece} : Spells body l →
      Ends body.kind l rest → Cut rest ps → Cut (l ++ rest) (.token body l :: ps)
  | breach {c : Char} (rest : List Char) (b : Breach) : Text.isBlank c = false → c ≠ '#' →
      Cut (c :: rest) [.breach b]

theorem cut_pieces (cs : List Char) : Cut cs (pieces cs) := by
  fun_induction pieces cs with
  | case1 => exact .nil
  | case2 c rest step h =>
    obtain ⟨rfl, text, rest', rfl, ht, hr, he⟩ | ⟨rfl, he⟩ | ⟨hb, hn, he⟩ |
      ⟨body, l, rest', heq, hs, hr, he⟩ | ⟨hb, hh, b, rest', he⟩ := Piece.read_cases c rest
    · rw [show step = _ from he] at h
      cases h
    · rw [show step = _ from he] at h
      cases h
    · rw [show step = _ from he] at h
      cases h
    · rw [show step = _ from he] at h
      cases h
    · rw [show step = _ from he]
      exact .breach rest b hb hh
  | case3 c rest step h ih =>
    obtain ⟨rfl, text, rest', rfl, ht, hr, he⟩ | ⟨rfl, he⟩ | ⟨hb, hn, he⟩ |
      ⟨body, l, rest', heq, hs, hr, he⟩ | ⟨hb, hh, b, rest', he⟩ := Piece.read_cases c rest
    · rw [show step = _ from he] at ih ⊢
      exact .comment ht hr ih
    · rw [show step = _ from he] at ih ⊢
      exact .newline ih
    · rw [show step = _ from he] at ih ⊢
      exact .blank hb hn ih
    · rw [show step = _ from he] at ih ⊢
      rw [heq]
      exact .token hs hr ih
    · rw [show step = _ from he] at h
      exact absurd rfl h

theorem pieces_blanks {ws : List Char} (h : ∀ c ∈ ws, Text.isBlank c ∧ c ≠ '\n')
    (rest : List Char) : pieces (ws ++ rest) = ws.map .blank ++ pieces rest := by
  induction ws with
  | nil => rfl
  | cons c ws ih =>
    obtain ⟨hc, hw⟩ := List.forall_mem_cons.mp h
    rw [List.cons_append, pieces_cons, Piece.read_blank _ hc.1 hc.2, ih hw]
    rfl

end TraitMarkup
