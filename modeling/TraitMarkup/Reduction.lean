import TraitMarkup.Line
import TraitMarkup.Phrase

/-! # Reduction

Tokens are folded into expressions from left to right, phrase by phrase. The first token that fits
nothing ends the reduction. -/

namespace TraitMarkup

/-- What a reduction has come to: the expressions up to its end or to the first failure. -/
structure Reduction where
  expressions : List Expression
  stop : Option Stop

namespace Reduction

/-- The reduction with one more expression in front. -/
def cons (e : Expression) (r : Reduction) : Reduction :=
  { r with expressions := e :: r.expressions }

/-- Folds tokens into expressions. -/
def of : List Token → Reduction
  | [] => ⟨[], none⟩
  | t :: ts =>
    match _h : Phrase.read t ts with
    | .ok (e, rest) => (of rest).cons e
    | .error stop => ⟨[], some stop⟩
  termination_by ts => ts.length
  decreasing_by
    have := Phrase.length_read _h
    simp only [List.length_cons]
    omega

/-- The expressions, if there was no failure. -/
def result (r : Reduction) : Except ReduceFailure (List Expression) :=
  match r.stop with
  | some stop => .error stop.failure
  | none => .ok r.expressions

/-- How many tokens are still unread. -/
def unread (r : Reduction) : Nat :=
  match r.stop with
  | some stop => stop.unread.length
  | none => 0

@[simp] theorem of_nil : of [] = ⟨[], none⟩ := by rw [of]

theorem of_cons_ok {t : Token} {ts rest : List Token} {e : Expression}
    (h : Phrase.read t ts = .ok (e, rest)) : of (t :: ts) = (of rest).cons e := by
  rw [of]
  split <;> simp_all

theorem of_cons_error {t : Token} {ts : List Token} {stop : Stop}
    (h : Phrase.read t ts = .error stop) : of (t :: ts) = ⟨[], some stop⟩ := by
  rw [of]
  split <;> simp_all

/-- There is an expression for some tokens, or a failure. -/
theorem ne_nil_of_result {ts : List Token} {es : List Expression} (hts : ts ≠ [])
    (h : (of ts).result = .ok es) : es ≠ [] := by
  match ts with
  | [] => exact absurd rfl hts
  | t :: ts =>
    cases hr : Phrase.read t ts with
    | error stop =>
      rw [of_cons_error hr] at h
      cases h
    | ok p =>
      rw [of_cons_ok hr] at h
      unfold result at h
      split at h
      · cases h
      · cases h
        exact List.cons_ne_nil _ _

end Reduction

/-- The expressions of some tokens. -/
def reduce (ts : List Token) : Except ReduceFailure (List Expression) := (Reduction.of ts).result

/-- The expressions of a line of tokens, with the same indent. -/
def reduceLine (l : Line Token) : Except ReduceFailure (Line Expression) :=
  match h : reduce l.members with
  | .ok es => .ok ⟨l.indent, es, Reduction.ne_nil_of_result l.nonempty h⟩
  | .error e => .error e

end TraitMarkup
