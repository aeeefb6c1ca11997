import Mathlib.Data.List.Forall2
import TraitMarkup.Proofs.Grammar

/-!
# Tokens that reduce alike

A reduction looks at what a token is and at how it is written back, but neither at its place nor at
the quotes and escapes with which it was written. So tokens that are the same in this respect
(`Token.Alike`) come to the same expressions, or they are refused for the same reason at tokens that
are alike. Each reader of phrases keeps to this, and so does the reduction as a whole
(`reduce_agree`).
-/

namespace TraitMarkup

/-! ## Outcomes that agree -/

/-- Both succeed with results that are related, or both fail with errors that are. -/
inductive Agree {ε α : Type} (E : ε → ε → Prop) (R : α → α → Prop) :
    Except ε α → Except ε α → Prop where
  | ok {a b : α} : R a b → Agree E R (.ok a) (.ok b)
  | error {e e' : ε} : E e e' → Agree E R (.error e) (.error e')

namespace Agree

variable {ε α β : Type} {E : ε → ε → Prop} {R : α → α → Prop} {S : β → β → Prop}
  {x y : Except ε α}

theorem bind {f g : α → Except ε β} (h : Agree E R x y)
    (hf : ∀ a b, R a b → Agree E S (f a) (g b)) : Agree E S (x >>= f) (y >>= g) := by
  cases h with
  | ok h => exact hf _ _ h
  | error h => exact .error h

theorem map {f g : α → β} (h : Agree E R x y) (hf : ∀ a b, R a b → S (f a) (g b)) :
    Agree E S (x.map f) (y.map g) := by
  cases h with
  | ok h => exact .ok (hf _ _ h)
  | error h => exact .error h

theorem exists_ok {a : α} (h : Agree E R (.ok a) y) : ∃ b, y = .ok b ∧ R a b := by
  cases h with
  | ok h => exact ⟨_, rfl, h⟩

theorem exists_error {e : ε} (h : Agree E R (.error e) y) : ∃ e', y = .error e' ∧ E e e' := by
  cases h with
  | error h => exact ⟨_, rfl, h⟩

end Agree

/-! ## Tokens and failures -/

/-- Two tokens that are the same and that are written back in the same way. -/
structure Token.Alike (t u : Token) : Prop where
  body : t.body = u.body
  text : t.text = u.text

namespace Token.Alike

variable {t u : Token}

theorem kind (h : t.Alike u) : t.kind = u.kind := congrArg Body.kind h.body

theorem isSymbol (h : t.Alike u) (s : Symbol) : t.isSymbol s = u.isSymbol s := by
  rw [Token.isSymbol, Token.isSymbol, h.kind]

theorem name? (h : t.Alike u) : t.name? = u.name? := by
  rw [Token.name?, Token.name?, h.body]

/-- A number is written back as it was written. -/
theorem lexeme (h : t.Alike u) (ht : t.kind = .number) : t.lexeme = u.lexeme := by
  obtain ⟨body, lexeme, location⟩ := t
  obtain ⟨body', lexeme', location'⟩ := u
  obtain rfl : body = body' := h.body
  cases body with
  | number x => exact h.text
  | marker | symbol | string | identifier => cases ht

theorem word? (h : t.Alike u) : t.word? = u.word? := by
  have hlexeme := h.lexeme
  obtain ⟨body, lexeme, location⟩ := t
  obtain ⟨body', lexeme', location'⟩ := u
  obtain rfl : body = body' := h.body
  cases body with
  | number x => exact congrArg some (hlexeme rfl)
  | marker | symbol | string | identifier => rfl

end Token.Alike

/-- The same cause at tokens that are alike. -/
structure ReduceError.Alike (e e' : ReduceError) : Prop where
  cause : e.cause = e'.cause
  token : e.token.Alike e'.token

theorem ReduceError.Alike.message {e e' : ReduceError} (h : e.Alike e') :
    e.message = e'.message := by
  rw [ReduceError.message, ReduceError.message, h.cause, h.token.text, h.token.kind]

inductive ReduceFailure.Alike : ReduceFailure → ReduceFailure → Prop where
  | refused {e e' : ReduceError} : e.Alike e' → Alike (.refused e) (.refused e')
  | tooLong (e : Unsigned.TooLong) : Alike (.tooLong e) (.tooLong e)

/-! ## Phrases -/

namespace Phrase

/-- The same is read from tokens that are alike, and what is left is alike. -/
inductive Left {α : Type} : α × List Token → α × List Token → Prop where
  | intro {ts us : List Token} (a : α) : List.Forall₂ Token.Alike ts us → Left (a, ts) (a, us)

/-- The same is read, up to tokens that are alike, and what is left is alike. -/
inductive Taken {α : Type} : α × Token × List Token → α × Token × List Token → Prop where
  | intro {t u : Token} {ts us : List Token} (a : α) : t.Alike u →
      List.Forall₂ Token.Alike ts us → Taken (a, t, ts) (a, u, us)

def StopsAlike (s s' : Stop) : Prop := s.failure.Alike s'.failure

theorem refused_agree {α : Type} {R : α → α → Prop} {t u : Token} (h : t.Alike u)
    (cause : ReduceError.Cause) (ts us : List Token) :
    Agree StopsAlike R (.error ⟨.refused ⟨cause, t⟩, ts⟩) (.error ⟨.refused ⟨cause, u⟩, us⟩) :=
  .error (.refused ⟨rfl, h⟩)

variable {t u last last' : Token} {ts us : List Token}

theorem expect_agree {α : Type} {accept : Token → Option α} {missing invalid : String}
    (hlast : last.Alike last') (h : List.Forall₂ Token.Alike ts us)
    (haccept : ∀ {t u : Token}, t.Alike u → accept t = accept u) :
    Agree StopsAlike Taken (expect accept missing invalid last ts)
      (expect accept missing invalid last' us) := by
  cases h with
  | nil => exact refused_agree hlast _ _ _
  | @cons t u ts us ht hts =>
    rw [expect, expect, haccept ht]
    cases accept u with
    | some a => exact .ok ⟨a, ht, hts⟩
    | none => exact refused_agree ht _ _ _

theorem expectName_agree {missing : String} (hlast : last.Alike last')
    (h : List.Forall₂ Token.Alike ts us) :
    Agree StopsAlike Taken (expectName missing last ts) (expectName missing last' us) :=
  expect_agree hlast h Token.Alike.name?

theorem expectSymbol_agree {s : Symbol} {expected : String} (hlast : last.Alike last')
    (h : List.Forall₂ Token.Alike ts us) :
    Agree StopsAlike Taken (expectSymbol s expected last ts) (expectSymbol s expected last' us) := by
  apply expect_agree hlast h
  intro t u ht
  rw [ht.isSymbol]

theorem word_agree (text : String) (h : List.Forall₂ Token.Alike ts us) :
    Agree StopsAlike Left (word text ts) (word text us) := by
  unfold word
  cases Unsigned.expression text with
  | ok e => exact .ok ⟨e, h⟩
  | error e => exact .error (.tooLong e)

theorem attr_agree (key : String) (ht : t.Alike u) (h : List.Forall₂ Token.Alike ts us) :
    Agree StopsAlike Left (attr key t ts) (attr key u us) := by
  apply (expect_agree ht h Token.Alike.word?).bind
  rintro _ _ ⟨value, -, hrest⟩
  exact .ok ⟨_, hrest⟩

theorem trait_agree (object : String) (ht : t.Alike u) (h : List.Forall₂ Token.Alike ts us) :
    Agree StopsAlike Left (trait object t ts) (trait object u us) := by
  apply (expectName_agree ht h).bind
  rintro _ _ ⟨name, -, hrest⟩
  exact .ok ⟨_, hrest⟩

theorem name_agree (text : String) (h : List.Forall₂ Token.Alike ts us) :
    Agree StopsAlike Left (name text ts) (name text us) := by
  cases h with
  | nil => exact word_agree text .nil
  | @cons t u ts us ht hts =>
    rw [name, name, ht.isSymbol, ht.isSymbol]
    split
    · exact attr_agree text ht hts
    split
    · exact trait_agree text ht hts
    · exact word_agree text (.cons ht hts)

theorem givenArgument_agree (ht : t.Alike u) (h : List.Forall₂ Token.Alike ts us) :
    Agree StopsAlike Taken (givenArgument t ts) (givenArgument u us) := by
  apply (expect_agree ht h Token.Alike.word?).bind
  rintro _ _ ⟨argument, hlast, hrest⟩
  apply (expectSymbol_agree hlast hrest).bind
  rintro _ _ ⟨-, hlast, hrest⟩
  exact .ok ⟨_, hlast, hrest⟩

theorem argument_agree (hlast : last.Alike last') (h : List.Forall₂ Token.Alike ts us) :
    Agree StopsAlike Taken (argument last ts) (argument last' us) := by
  cases h with
  | nil => exact .ok ⟨_, hlast, .nil⟩
  | @cons t u ts us ht hts =>
    rw [argument.eq_def, argument.eq_def]
    simp only [ht.isSymbol]
    split
    · cases hts with
      | nil => exact givenArgument_agree ht .nil
      | @cons t' u' ts us ht' hts =>
        simp only [ht'.isSymbol]
        split
        · exact .ok ⟨_, ht', hts⟩
        · exact givenArgument_agree ht (.cons ht' hts)
    · exact .ok ⟨_, hlast, .cons ht hts⟩

theorem selector_agree (ht : t.Alike u) (h : List.Forall₂ Token.Alike ts us) :
    Agree StopsAlike Left (selector t ts) (selector u us) := by
  apply (expectName_agree ht h).bind
  rintro _ _ ⟨object, hlast, hrest⟩
  apply (argument_agree hlast hrest).bind
  rintro _ _ ⟨argument, hlast, hrest⟩
  apply (expectSymbol_agree hlast hrest).bind
  rintro _ _ ⟨-, hlast, hrest⟩
  apply (expectName_agree hlast hrest).bind
  rintro _ _ ⟨name, -, hrest⟩
  exact .ok ⟨_, hrest⟩

theorem symbol_agree (s : Symbol) (ht : t.Alike u) (h : List.Forall₂ Token.Alike ts us) :
    Agree StopsAlike Left (symbol s t ts) (symbol s u us) := by
  unfold symbol
  split
  · exact .ok ⟨_, h⟩
  · exact .ok ⟨_, h⟩
  · split
    · exact .ok ⟨_, h⟩
    · exact refused_agree ht _ _ _
    · exact refused_agree ht _ _ _

theorem read_agree (ht : t.Alike u) (h : List.Forall₂ Token.Alike ts us) :
    Agree StopsAlike Left (read t ts) (read u us) := by
  unfold read
  have hlexeme := ht.lexeme
  rw [Token.kind, ht.body] at hlexeme
  rw [ht.body]
  split
  · exact name_agree _ h
  · exact .ok ⟨_, h⟩
  · rename_i hbody
    rw [hbody] at hlexeme
    rw [hlexeme rfl]
    exact word_agree _ h
  · exact selector_agree ht h
  · exact symbol_agree _ ht h
  · exact refused_agree ht _ _ _

end Phrase

/-! ## Reductions -/

/-- Tokens that are alike come to the same expressions, or to failures that are alike. -/
theorem reduce_agree {ts us : List Token} (h : List.Forall₂ Token.Alike ts us) :
    Agree ReduceFailure.Alike Eq (reduce ts) (reduce us) := by
  induction ts using Reduction.of.induct generalizing us with
  | case1 =>
    cases h
    rw [reduce_nil]
    exact .ok rfl
  | case2 t ts e rest hread ih =>
    cases h with
    | @cons _ u _ us ht hts =>
      have hagree := Phrase.read_agree ht hts
      rw [hread] at hagree
      obtain ⟨_, hread', ⟨_, hrest⟩⟩ := hagree.exists_ok
      rw [reduce_cons_ok hread, reduce_cons_ok hread']
      exact (ih hrest).map fun _ _ => congrArg (e :: ·)
  | case3 t ts stop hread =>
    cases h with
    | @cons _ u _ us ht hts =>
      have hagree := Phrase.read_agree ht hts
      rw [hread] at hagree
      obtain ⟨stop', hread', hstop⟩ := hagree.exists_error
      rw [reduce_cons_error hread, reduce_cons_error hread']
      exact .error hstop

theorem reduceLine_eq_ok {l : Line Token} {es : List Expression} (h : reduce l.members = .ok es) :
    ∃ hne, reduceLine l = .ok ⟨l.indent, es, hne⟩ := by
  refine ⟨Reduction.ne_nil_of_result l.nonempty h, ?_⟩
  unfold reduceLine
  split
  · rename_i es' h'
    rw [h] at h'
    cases h'
    rfl
  · rename_i e h'
    rw [h] at h'
    cases h'

theorem reduceLine_eq_error {l : Line Token} {e : ReduceFailure}
    (h : reduce l.members = .error e) : reduceLine l = .error e := by
  unfold reduceLine
  split
  · rename_i es' h'
    rw [h] at h'
    cases h'
  · rename_i e' h'
    rw [h] at h'
    cases h'
    rfl

theorem reduceLine_agree {l l' : Line Token} (hindent : l.indent = l'.indent)
    (h : List.Forall₂ Token.Alike l.members l'.members) :
    Agree ReduceFailure.Alike Eq (reduceLine l) (reduceLine l') := by
  have hagree := reduce_agree h
  cases hl : reduce l.members with
  | ok es =>
    rw [hl] at hagree
    obtain ⟨_, hl', rfl⟩ := hagree.exists_ok
    obtain ⟨hne, heq⟩ := reduceLine_eq_ok hl
    obtain ⟨hne', heq'⟩ := reduceLine_eq_ok hl'
    rw [heq, heq', hindent]
    exact .ok rfl
  | error e =>
    rw [hl] at hagree
    obtain ⟨e', hl', he⟩ := hagree.exists_error
    rw [reduceLine_eq_error hl, reduceLine_eq_error hl']
    exact .error he

end TraitMarkup
