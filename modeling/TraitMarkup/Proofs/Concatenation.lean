import TraitMarkup.Proofs.Refusals

/-!
# Reductions one after another

The expressions of some tokens are those of any first part of them and those of the rest, as long as
no phrase reaches over the seam. A phrase that ends before the seam goes on beyond it if and only if it
is a lone name (`EndsInName`) and what comes next is an equals sign or a period
(`Reduction.of_append_iff`).
-/

namespace TraitMarkup

variable {t : Token} {ts rest xs ys : List Token} {x : Expression}

/-- Phrases lead up to a lone name at the end. -/
inductive EndsInName : List Token → Prop where
  | last {t : Token} {text : String} : t.name? = some text → EndsInName [t]
  | later {phrase rest : List Token} {x : Expression} : Forms rest phrase x → EndsInName rest →
      EndsInName (phrase ++ rest)

theorem EndsInName.ne_nil (h : EndsInName ts) : ts ≠ [] := by
  induction h with
  | last => exact List.cons_ne_nil _ _
  | later _ _ ih => exact List.append_ne_nil_of_right_ne_nil _ ih

/-- A phrase is the same where more tokens follow, if it cannot go on with them. -/
theorem Phrase.read_append (h : read t ts = .ok (x, rest))
    (hys : StandsAlone ys ∨ ¬EndsInName (t :: ts)) :
    read t (ts ++ ys) = .ok (x, rest ++ ys) := by
  obtain ⟨phrase, rfl, hforms⟩ := forms_of_read h
  have hmore : Forms (rest ++ ys) (t :: phrase) x := by
    match rest with
    | u :: us => exact hforms.of_head rfl
    | [] =>
      apply hforms.mono
      rintro _ text ⟨⟩ hname -
      exact hys.resolve_right (absurd (.last hname))
  obtain ⟨_, _, ⟨⟩, hread⟩ := read_of_forms hmore
  rwa [List.append_assoc]

/-- A name goes on with an equals sign or a period, and then it is more than a word. -/
theorem Phrase.name_goes_on {text : String} (hys : ¬StandsAlone ys)
    (h : name text ys = .ok (x, rest)) : ∀ e, Unsigned.expression text = .ok e → x ≠ e := by
  intro e he
  have hword := Unsigned.expression_cases he
  rcases following_cases ys with ⟨equals, us, rfl, heq⟩ | ⟨period, us, rfl, hp⟩ | halone
  · rw [name_equals heq, attr_eq_ok] at h
    obtain ⟨v, value, -, -, rfl⟩ := h
    rcases hword with ⟨rfl, -⟩ | ⟨n, rfl⟩ <;> exact nofun
  · rw [name_period hp, trait_eq_ok] at h
    obtain ⟨n, name, -, -, rfl⟩ := h
    rcases hword with ⟨rfl, -⟩ | ⟨n, rfl⟩ <;> exact nofun
  · exact absurd halone hys

namespace Reduction

/-- The reduction with more expressions in front. -/
def prepend (xs : List Expression) (r : Reduction) : Reduction :=
  { r with expressions := xs ++ r.expressions }

theorem result_eq_ok {r : Reduction} {es : List Expression} :
    r.result = .ok es ↔ r.stop = none ∧ r.expressions = es := by
  unfold result
  cases r.stop <;> simp

theorem result_prepend (es : List Expression) (r : Reduction) :
    (r.prepend es).result = r.result.map (es ++ ·) := by
  unfold result prepend
  cases r.stop <;> rfl

/-- Tokens that cannot go on with what follows are reduced first, and then what follows. -/
theorem of_append (h : (of xs).stop = none) (hys : StandsAlone ys ∨ ¬EndsInName xs) :
    of (xs ++ ys) = (of ys).prepend (of xs).expressions := by
  induction xs using Reduction.of.induct with
  | case1 =>
    rw [of_nil]
    rfl
  | case2 t ts x rest hread ih =>
    have hrest : StandsAlone ys ∨ ¬EndsInName rest := by
      refine hys.imp_right fun hnot hrest => hnot ?_
      obtain ⟨phrase, rfl, hforms⟩ := Phrase.forms_of_read hread
      exact .later hforms hrest
    rw [of_cons_ok hread] at h ⊢
    rw [List.cons_append, of_cons_ok (Phrase.read_append hread hys), ih h hrest]
    rfl
  | case3 t ts stop hread =>
    rw [of_cons_error hread] at h
    cases h

theorem expressions_of_seam (hys : ¬StandsAlone ys) : (of ys).expressions = [] := by
  rcases Phrase.following_cases ys with ⟨u, us, rfl, hu⟩ | ⟨u, us, rfl, hu⟩ | halone
  · rw [of_cons_error (Phrase.read_symbol hu (by decide))]
  · rw [of_cons_error (Phrase.read_symbol hu (by decide))]
  · exact absurd halone hys

theorem expressions_of_name_ne {text : String} (ht : t.name? = some text)
    (hstop : (of [t]).stop = none) (hys : ¬StandsAlone ys) :
    (of (t :: ys)).expressions ≠ (of [t]).expressions := by
  have hread : ∀ ts, Phrase.read t ts = Phrase.name text ts := fun _ => Phrase.read_name ht
  cases halone : Phrase.read t [] with
  | error stop =>
    rw [of_cons_error halone] at hstop
    cases hstop
  | ok a =>
    obtain ⟨e, rest⟩ := a
    rw [of_cons_ok halone]
    rw [hread] at halone
    obtain ⟨he, rfl⟩ := Phrase.word_eq_ok.mp halone
    rw [of_nil]
    cases hmore : Phrase.read t ys with
    | error stop =>
      rw [of_cons_error hmore]
      exact (List.cons_ne_nil _ _).symm
    | ok b =>
      obtain ⟨x, rest⟩ := b
      rw [of_cons_ok hmore]
      rw [hread] at hmore
      intro heq
      exact Phrase.name_goes_on hys hmore e he (List.cons.inj heq).1

/-- A lone name at the end goes on with an equals sign or a period. -/
theorem expressions_of_append_ne (h : EndsInName xs) (hstop : (of xs).stop = none)
    (hys : ¬StandsAlone ys) : (of (xs ++ ys)).expressions ≠ (of xs).expressions := by
  induction h with
  | last ht => exact expressions_of_name_ne ht hstop hys
  | @later phrase rest x hforms hrest ih =>
    obtain ⟨t, us, rfl, hread⟩ := Phrase.read_of_forms hforms
    obtain ⟨u, vs, rfl⟩ := List.exists_cons_of_ne_nil hrest.ne_nil
    have hmore : Forms (u :: vs ++ ys) (t :: us) x := hforms.of_head rfl
    obtain ⟨_, _, ⟨⟩, hread'⟩ := Phrase.read_of_forms hmore
    rw [List.cons_append, of_cons_ok hread] at hstop ⊢
    rw [List.cons_append, List.append_assoc, of_cons_ok hread']
    intro heq
    exact ih hstop (List.cons.inj heq).2

/-- A reduction falls into two at every seam but one: that between a lone name and an equals sign or a
period. -/
theorem of_append_iff (h : (of xs).stop = none) :
    of (xs ++ ys) = (of ys).prepend (of xs).expressions ↔ StandsAlone ys ∨ ¬EndsInName xs := by
  refine ⟨fun heq => ?_, of_append h⟩
  by_cases hys : StandsAlone ys
  · exact .inl hys
  · refine .inr fun hname => expressions_of_append_ne hname h hys ?_
    rw [heq, prepend, expressions_of_seam hys, List.append_nil]

end Reduction

/-- Tokens that can be reduced, before others that do not begin with an equals sign or a period, are
reduced to their own expressions. The others give theirs after these, or they fail as they do by
themselves. -/
theorem reduce_append {es : List Expression} (h : reduce xs = .ok es) (hys : StandsAlone ys) :
    (∀ fs, reduce ys = .ok fs → reduce (xs ++ ys) = .ok (es ++ fs)) ∧
      ∀ failure, reduce ys = .error failure → reduce (xs ++ ys) = .error failure := by
  obtain ⟨hstop, rfl⟩ := Reduction.result_eq_ok.mp h
  have happend : reduce (xs ++ ys) = (reduce ys).map ((Reduction.of xs).expressions ++ ·) := by
    rw [reduce, (Reduction.of_append_iff hstop).mpr (.inl hys), Reduction.result_prepend]
    rfl
  constructor
  · intro fs hfs
    rw [happend, hfs]
    rfl
  · intro failure hfailure
    rw [happend, hfailure]
    rfl

-- A lone name before a comparison, and before a comparison with a selector that ends early.
theorem reduce_append_less :
    let make (body : Token.Body) : Token := .make body none .unknown
    let keyed := [make (.identifier "k"), make (.symbol .equals .none), make (.string "v"),
      make (.identifier "x")]
    let less := make (.symbol .leftAngle .none)
    let dollar := make (.symbol .dollar .none)
    reduce keyed = .ok [.attr "k" "v", .raw "x"] ∧ StandsAlone [less, make (.identifier "y")] ∧
      StandsAlone [less, dollar] ∧
      reduce (keyed ++ [less, make (.identifier "y")]) =
        .ok [.attr "k" "v", .raw "x", .relational .less, .raw "y"] ∧
      reduce (keyed ++ [less, dollar]) = .error (.refused ⟨.endsEarly "expected string", dollar⟩) := by
  intro make keyed less dollar
  have hname : ∀ text, Unsigned.expression text = .ok (.raw text) →
      Phrases [make (.identifier text)] [([make (.identifier text)], .raw text)] :=
    fun text htext => .cons (.name rfl (by simp [StandsAlone]) htext) .nil
  have hkeyed : reduce keyed = .ok [.attr "k" "v", .raw "x"] :=
    Phrases.reduce_eq (.cons (.attr rfl rfl rfl) (hname "x" rfl))
  have hless : ∀ u, StandsAlone [less, u] := by
    rintro u _ ⟨⟩
    exact ⟨rfl, rfl⟩
  have hy : reduce [less, make (.identifier "y")] = .ok [.relational .less, .raw "y"] :=
    Phrases.reduce_eq (.cons (.relational (s := .leftAngle) rfl rfl) (hname "y" rfl))
  have hdollar : reduce [less, dollar] =
      .error (.refused ⟨.endsEarly "expected string", dollar⟩) := by
    have hread : Phrase.read less [dollar] = .ok (.relational .less, [dollar]) := rfl
    have hstop : Phrase.read dollar [] =
      .error ⟨.refused ⟨.endsEarly "expected string", dollar⟩, []⟩ := rfl
    rw [reduce_cons_ok hread, reduce_cons_error hstop]
    rfl
  exact ⟨hkeyed, hless _, hless _, (reduce_append hkeyed (hless _)).1 _ hy,
    (reduce_append hkeyed (hless _)).2 _ hdollar⟩

end TraitMarkup
