import TraitMarkup.Proofs.Scanning

/-!
# What a scan covers

The lexemes of the tokens that a scan finds beside the markers make up the text, but for gaps of
blanks and comments: `Covers` says so with the offset of each token. Together with the forms of the
lexemes and what they carry this says that nothing is lost, read twice or misread.
-/

namespace TraitMarkup

open Token (Kind Body Payload)

variable {file : String} {p : Position} {t : Indentation}

/-- Characters that are passed over before `rest`: blanks, and comments that run to the end of their
line. -/
inductive Skipped (rest : List Char) : List Char → Prop where
  | nil : Skipped rest []
  | blank {c : Char} {gap : List Char} : Text.isBlank c → Skipped rest gap →
      Skipped rest (c :: gap)
  | comment {text gap : List Char} : '\n' ∉ text → (∀ c ∈ (gap ++ rest).head?, c = '\n') →
      Skipped rest gap → Skipped rest ('#' :: text ++ gap)

/-- The lexemes of tokens in their order, from an offset on, with nothing but what is passed over
around them. -/
inductive Covers : Nat → List Char → List Token → Prop where
  | done {n : Nat} {gap : List Char} : Skipped [] gap → Covers n gap []
  | token {n : Nat} {gap l rest : List Char} {token : Token} {tokens : List Token} :
      Skipped (l ++ rest) gap → token.lexeme = String.ofList l →
      token.location.offset = (n + gap.length : Nat) →
      Covers (n + gap.length + l.length) rest tokens →
      Covers n (gap ++ (l ++ rest)) (token :: tokens)

namespace Covers

variable {n : Nat} {cs : List Char} {tokens : List Token}

/-- More may be passed over in front. -/
theorem extend {more : List Char} (h : Covers (n + more.length) cs tokens)
    (hs : ∀ gap rest, gap ++ rest = cs → Skipped rest gap → Skipped rest (more ++ gap)) :
    Covers n (more ++ cs) tokens := by
  cases h with
  | done hg => exact .done (hs _ [] (by simp) hg)
  | @token _ gap l rest token tokens hg hl ho h =>
    rw [← List.append_assoc]
    refine .token (hs gap (l ++ rest) rfl hg) hl ?_ ?_
    · rw [ho, List.length_append, Nat.add_assoc]
    · rwa [List.length_append, ← Nat.add_assoc]

theorem blank {c : Char} (hc : Text.isBlank c) (h : Covers (n + 1) cs tokens) :
    Covers n ([c] ++ cs) tokens :=
  h.extend fun _ _ _ hg => .blank hc hg

theorem comment {text : List Char} (ht : '\n' ∉ text) (hr : ∀ c ∈ cs.head?, c = '\n')
    (h : Covers (n + ('#' :: text).length) cs tokens) : Covers n ('#' :: text ++ cs) tokens := by
  refine h.extend fun gap rest heq hg => ?_
  subst heq
  exact .comment ht hr hg

theorem token_nil {l : List Char} {token : Token} (hl : token.lexeme = String.ofList l)
    (ho : token.location.offset = n) (h : Covers (n + l.length) cs tokens) :
    Covers n (l ++ cs) (token :: tokens) := by
  have : Covers n ([] ++ (l ++ cs)) (token :: tokens) := .token .nil hl ho h
  exact this

/-- Each lexeme stands in the text at its token's offset. -/
theorem slice (h : Covers n cs tokens) : ∀ token ∈ tokens, ∃ k : Nat,
    token.location.offset = (n + k : Nat) ∧
      (cs.drop k).take token.lexeme.length = token.lexeme.toList := by
  induction h with
  | done => simp
  | @token n gap l rest token tokens _ hl ho _ ih =>
    intro u hu
    obtain rfl | hu := List.mem_cons.mp hu
    · refine ⟨gap.length, ho, ?_⟩
      rw [List.drop_left, hl, String.length_ofList, List.take_left, String.toList_ofList]
    · obtain ⟨k, hk, hs⟩ := ih u hu
      refine ⟨gap.length + l.length + k, by rw [hk]; congr 1; omega, ?_⟩
      rw [← hs, ← List.append_assoc, ← List.drop_drop, ← List.length_append, List.drop_left]

theorem le_offset (h : Covers n cs tokens) {token : Token} (ht : token ∈ tokens) :
    (n : Int) ≤ token.location.offset := by
  obtain ⟨k, hk, -⟩ := h.slice token ht
  omega

/-- The lexemes stand one after the other. -/
theorem pairwise (h : Covers n cs tokens) : tokens.Pairwise fun t u =>
    t.location.offset + (t.lexeme.length : Int) ≤ u.location.offset := by
  induction h with
  | done => exact .nil
  | @token n gap l rest token tokens _ hl ho hrest ih =>
    refine .cons (fun u hu => ?_) ih
    have := hrest.le_offset hu
    rw [ho, hl, String.length_ofList]
    omega

end Covers

/-! ## Pieces in their places -/

@[simp] theorem Position.offset_after (p : Position) (cs : List Char) :
    (p.after cs).offset = p.offset + cs.length := by
  induction cs generalizing p with
  | nil => rfl
  | cons c cs ih =>
    have hn : (p.next c).offset = p.offset + 1 := by
      unfold next
      split <;> rfl
    rw [after_cons, ih, hn, List.length_cons]
    omega

/-- The tokens among the pieces of a text cover it. -/
theorem Cut.covers {cs : List Char} {ps : List Piece} (h : Cut cs ps)
    (he : (place file p ps).error = none) : Covers p.offset cs (place file p ps).tokens := by
  induction h generalizing p with
  | nil => exact .done .nil
  | blank hc _ _ ih =>
    have := ih he
    rw [Position.offset_after] at this
    exact this.blank hc
  | newline _ ih =>
    have := ih he
    rw [Position.offset_after] at this
    exact this.blank (by decide)
  | comment ht hr _ ih =>
    have := ih he
    rw [Position.offset_after] at this
    exact this.comment ht hr
  | @token body l rest ps _ _ _ ih =>
    have := ih he
    rw [Position.offset_after] at this
    exact .token_nil rfl rfl this
  | breach b => cases he

/-- The lexemes of a text's tokens make up the text but for blanks and comments. They stand at the
offsets of their tokens, one after the other, each in the form of its kind, and each token carries
what its lexeme says. -/
theorem tokenize_covers {source : String} {tokens : List Token}
    (h : tokenize file source = .ok tokens) :
    let words := tokens.filter (!·.isMarker)
    Covers 0 (trimmed source) words ∧
      (∀ u ∈ words, ((trimmed source).drop u.location.offset.toNat).take u.lexeme.length =
        u.lexeme.toList) ∧
      (words.Pairwise fun u v => u.location.offset < v.location.offset ∧
        u.location.offset + (u.lexeme.length : Int) ≤ v.location.offset) ∧
      (∀ u ∈ words, HasForm u.kind u.lexeme.toList) ∧
      ∀ u ∈ tokens, u.payload = decode u.kind u.lexeme.toList := by
  intro words
  obtain ⟨he, hw⟩ := place_pieces h
  have hcovers : Covers 0 (trimmed source) words := by
    have := (cut_pieces (trimmed source)).covers he
    rwa [hw] at this
  have hform : ∀ u ∈ words, HasForm u.kind u.lexeme.toList := by
    intro u hu
    obtain ⟨hu, hm⟩ := List.mem_filter.mp hu
    obtain ⟨m, hb, -⟩ | hs := marker_or_spells_of_tokenize h hu
    · simp [Token.isMarker, hb] at hm
    · exact hs.form
  refine ⟨hcovers, ?_, ?_, hform, ?_⟩
  · intro u hu
    obtain ⟨k, hk, hs⟩ := hcovers.slice u hu
    rw [hk, Nat.zero_add, Int.toNat_natCast]
    exact hs
  · refine hcovers.pairwise.imp_of_mem fun {u v} hu _ hle => ⟨?_, hle⟩
    obtain ⟨c, cs, hl, -⟩ := (hform u hu).exists_cons
    have hlen : u.lexeme.length = cs.length + 1 := by
      rw [← String.length_toList, hl, List.length_cons]
    omega
  · intro u hu
    obtain ⟨m, hb, -⟩ | hs := marker_or_spells_of_tokenize h hu
    · simp [Token.payload, Token.kind, hb, Body.payload, Body.kind, decode]
    · exact hs.payload

theorem tokenize_covers_quoted_hash : ∃ tokens,
    tokenize "f" "a='#'\n 1.\\x # c " = .ok tokens ∧ tokens.length = 6 ∧
      Covers 0 (trimmed "a='#'\n 1.\\x # c ") (tokens.filter (!·.isMarker)) := by
  have h : tokenize "f" "a='#'\n 1.\\x # c " = .ok
      [⟨.identifier "a", "a", ⟨"f", 1, 1, 0⟩⟩, ⟨.symbol .equals .none, "=", ⟨"f", 1, 2, 1⟩⟩,
       ⟨.string "#", "'#'", ⟨"f", 1, 3, 2⟩⟩, ⟨.marker .indent .none, "", ⟨"f", 2, 1, 6⟩⟩,
       ⟨.identifier "1.x", "1.\\x", ⟨"f", 2, 2, 7⟩⟩,
       ⟨.marker .dedent .none, "", ⟨"f", 2, 10, 15⟩⟩] :=
    eq_ok_of_toOption (by decide +kernel)
  exact ⟨_, h, rfl, (tokenize_covers h).1⟩

end TraitMarkup
