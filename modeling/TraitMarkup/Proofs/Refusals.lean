import Mathlib.Data.List.Basic
import TraitMarkup.Proofs.Grammar

/-!
# Where tokens are refused

There are two ways for tokens to be refused (`Phrase.Refusal`). Either they run out in the middle of
a phrase, and then there are more tokens that would complete it; or one of them does not fit, and
then it is refused whatever comes after it. No reader of phrases has looked at a token beyond the
one that it refuses, so the same holds of whole reductions (`refused_of_reduce`).
-/

namespace TraitMarkup

variable {t u last : Token} {ts us rest unread : List Token} {e : ReduceError} {text : String}

namespace Phrase

/-- How a reader of what comes after `last` refuses tokens. -/
inductive Refusal (f : List Token → Except Stop (Expression × List Token)) (last : Token)
    (ts : List Token) (e : ReduceError) : List Token → Prop where
  /-- The tokens run out, and with more of them they would be a phrase. -/
  | early (more : List Token) (x : Expression) : e.cause.name = "UnexpectedLastToken" →
      (last :: ts).getLast? = some e.token → f (ts ++ more) = .ok (x, []) →
      Refusal f last ts e []
  /-- A token is refused whatever comes after it. -/
  | wrong (pre : List Token) {unread : List Token} :
      e.cause.name ≠ "UnexpectedLastToken" → ts = pre ++ e.token :: unread →
      (∀ more, f (pre ++ e.token :: more) = .error ⟨.refused e, more⟩) →
      Refusal f last ts e unread

/-- Whatever a reader of what comes after `last` refuses, it refuses in one of these ways. -/
def Exact (f : List Token → Except Stop (Expression × List Token)) (last : Token) : Prop :=
  ∀ ts e unread, f ts = .error ⟨.refused e, unread⟩ → Refusal f last ts e unread

/-! ## One token after another -/

section

variable {f g : List Token → Except Stop (Expression × List Token)}

theorem Refusal.cons (h : Refusal g u rest e unread) (hfg : ∀ more, f (u :: more) = g more) :
    Refusal f last (u :: rest) e unread := by
  cases h with
  | early more x hname hlast hg =>
    refine .early more x hname ?_ ((hfg _).trans hg)
    rwa [List.getLast?_cons_cons]
  | wrong pre hname hsplit hg =>
    exact .wrong (u :: pre) hname (congrArg (u :: ·) hsplit) fun more => (hfg _).trans (hg more)

/-- A reader may do as another one only if what it sees next has the property `ahead`. -/
theorem Refusal.ahead {ahead : Token → Prop} (h : Refusal g last ts e unread)
    (hts : ∀ v ∈ ts.head?, ahead v) (hok : ∀ more x, g more = .ok x → ∀ v ∈ more.head?, ahead v)
    (hfg : ∀ more, (∀ v ∈ more.head?, ahead v) → f more = g more) :
    Refusal f last ts e unread := by
  cases h with
  | early more x hname hlast hg => exact .early more x hname hlast ((hfg _ (hok _ _ hg)).trans hg)
  | wrong pre hname hsplit hg =>
    refine .wrong pre hname hsplit fun more => (hfg _ ?_).trans (hg more)
    -- What comes next is the token that is refused or one before it, so it is as in `ts`.
    rw [hsplit] at hts
    cases pre <;> exact hts

end

theorem exact_pure (x : Expression) (last : Token) : Exact (fun ts => .ok (x, ts)) last := by
  intro ts e unread h
  cases h

theorem expect_bind {α β : Type} {accept : Token → Option α} {a : α} (h : accept t = some a)
    (missing invalid : String) (last : Token) (f : α × Token × List Token → Except Stop β)
    (ts : List Token) : (expect accept missing invalid last (t :: ts) >>= f) = f (a, t, ts) := by
  have hok : expect accept missing invalid last (t :: ts) = .ok (a, t, ts) :=
    expect_eq_ok.mpr ⟨rfl, h⟩
  rw [hok]
  rfl

/-- A reader that first takes a token of a certain kind, if it can go on from there. -/
theorem exact_expect {α : Type} {accept : Token → Option α} (missing invalid : String)
    {f : α × Token × List Token → Except Stop (Expression × List Token)}
    (hf : ∀ a t, accept t = some a → Exact (fun ts => f (a, t, ts)) t)
    (hsome : ∃ a t ts x, accept t = some a ∧ f (a, t, ts) = .ok (x, [])) (last : Token) :
    Exact (fun ts => expect accept missing invalid last ts >>= f) last := by
  intro ts e unread h
  dsimp only at h
  match ts with
  | [] =>
    obtain ⟨a, t, ts, x, ha, hx⟩ := hsome
    cases h
    exact .early (t :: ts) x rfl rfl ((expect_bind ha missing invalid last f ts).trans hx)
  | u :: rest =>
    cases hu : accept u with
    | none =>
      have hread : ∀ more, (expect accept missing invalid last (u :: more) >>= f) =
          .error ⟨.refused ⟨.invalid invalid, u⟩, more⟩ := by
        intro more
        rw [expect, hu]
        rfl
      rw [hread] at h
      cases h
      refine .wrong [] ?_ rfl hread
      simp [ReduceError.Cause.name]
    | some a =>
      have hread := expect_bind hu missing invalid last f
      rw [hread] at h
      exact (hf a u hu rest e unread h).cons hread

/-! ## Attributes and traits -/

/-- A name made by hand. -/
def someName : Token := .make (.identifier "a") none .unknown

/-- A symbol made by hand. -/
def someSymbol (s : Symbol) : Token := .make (.symbol s .none) none .unknown

theorem exact_attr (key : String) (equals : Token) : Exact (attr key equals) equals :=
  exact_expect _ _ (fun value _ _ => exact_pure (.attr key value) _)
    ⟨"a", someName, [], _, rfl, rfl⟩ equals

theorem exact_trait (object : String) (period : Token) : Exact (trait object period) period :=
  exact_expect _ _ (fun name _ _ => exact_pure (.trait object .direct name) _)
    ⟨"a", someName, [], _, rfl, rfl⟩ period

/-! ## Selectors -/

/-- What comes after the object and the argument of a selector. -/
def member (object : String) (argument : Option String) (last : Token) (rest : List Token) :
    Except Stop (Expression × List Token) := do
  let (_, last, rest) ← expectSymbol .period "expected period" last rest
  let (name, _, rest) ← expectName "expected string" last rest
  return (.trait object (.selector argument) name, rest)

theorem member_eq_ok {object : String} {argument : Option String} {x : Expression}
    (h : member object argument last ts = .ok (x, rest)) :
    ∃ period us, ts = period :: us ∧ period.isSymbol .period := by
  simp only [member, bind_eq_ok, Prod.exists, expectSymbol_eq_ok] at h
  obtain ⟨-, period, us, ⟨rfl, hp⟩, -⟩ := h
  exact ⟨period, us, rfl, hp⟩

theorem exists_member (object : String) (argument : Option String) (last : Token) :
    ∃ ts x, member object argument last ts = .ok (x, []) :=
  ⟨[someSymbol .period, someName], _, rfl⟩

theorem exact_member (object : String) (argument : Option String) (last : Token) :
    Exact (member object argument last) last := by
  refine exact_expect _ _ (fun _ period _ => ?_) ?_ last
  · exact exact_expect _ _ (fun name _ _ => exact_pure (.trait object (.selector argument) name) _)
      ⟨"a", someName, [], _, rfl, rfl⟩ period
  · exact ⟨(), someSymbol .period, [someName], _, rfl, rfl⟩

/-- A selector with a given argument, from its opening bracket on. -/
def givenMember (object : String) (bracket : Token) (rest : List Token) :
    Except Stop (Expression × List Token) :=
  givenArgument bracket rest >>= fun (a, last, rest) => member object a last rest

theorem givenMember_eq (object : String) (bracket : Token) (ts : List Token) :
    givenMember object bracket ts =
      expect Token.word? "expected string or right angle bracket"
          "expected string or right angle bracket" bracket ts >>= fun (text, last, rest) =>
        expectSymbol .rightAngle "expected right angle bracket" last rest >>= fun (_, last, rest) =>
          member object (some text) last rest := by
  simp only [givenMember, givenArgument, bind_assoc, pure_bind]

theorem exact_givenMember (object : String) (bracket : Token) :
    Exact (givenMember object bracket) bracket := by
  have hclosing : ∀ (text : String) (w : Token), Exact (fun ts =>
      expectSymbol .rightAngle "expected right angle bracket" w ts >>= fun (_, last, rest) =>
        member object (some text) last rest) w := by
    intro text w
    refine exact_expect _ _ (fun _ right _ => exact_member object (some text) right) ?_ w
    obtain ⟨ts, x, hx⟩ := exists_member object (some text) (someSymbol .rightAngle)
    exact ⟨(), someSymbol .rightAngle, ts, x, rfl, hx⟩
  rw [funext (givenMember_eq object bracket)]
  refine exact_expect _ _ (fun text w _ => hclosing text w) ?_ bracket
  obtain ⟨ts, x, hx⟩ := exists_member object (some "a") (someSymbol .rightAngle)
  exact ⟨"a", someName, someSymbol .rightAngle :: ts, x, rfl, hx⟩

theorem givenMember_eq_ok {object : String} {bracket : Token} {x : Expression}
    (h : givenMember object bracket ts = .ok (x, rest)) :
    ∃ w text us, ts = w :: us ∧ w.word? = some text := by
  simp only [givenMember, bind_eq_ok, Prod.exists, givenArgument_eq_ok] at h
  obtain ⟨-, right, us, ⟨w, text, rfl, hw, -⟩, -⟩ := h
  exact ⟨w, text, _, rfl, hw⟩

theorem exact_argument (object : String) (last : Token) : Exact (fun ts =>
    argument last ts >>= fun (a, last, rest) => member object a last rest) last := by
  intro ts e unread h
  dsimp only at h
  by_cases hleft : ∀ v ∈ ts.head?, v.isSymbol .leftAngle = false
  · rw [argument_none last hleft] at h
    refine (exact_member object none last ts e unread h).ahead hleft ?_ ?_
    · intro more x hx v hv
      obtain ⟨period, us, rfl, hp⟩ := member_eq_ok hx
      cases hv
      exact Token.isSymbol_ne hp (by decide)
    · intro more hmore
      rw [argument_none last hmore]
      rfl
  match ts with
  | [] => simp at hleft
  | left :: us =>
    have hl : left.isSymbol .leftAngle := by simpa using hleft
    by_cases hright : ∀ v ∈ us.head?, v.isSymbol .rightAngle = false
    · rw [argument_given last hl hright] at h
      have hrefusal := exact_givenMember object left us e unread h
      refine (hrefusal.ahead (f := fun us => argument last (left :: us) >>= _) hright ?_ ?_).cons
        fun _ => rfl
      · intro more x hx v hv
        obtain ⟨w, text, us, rfl, hw⟩ := givenMember_eq_ok hx
        cases hv
        exact Token.not_isSymbol_of_word? hw _
      · intro more hmore
        rw [argument_given last hl hmore]
        rfl
    match us with
    | [] => simp at hright
    | right :: vs =>
      have hr : right.isSymbol .rightAngle := by simpa using hright
      have hmember : ∀ more, (argument last (left :: right :: more) >>= fun (a, last, rest) =>
          member object a last rest) = member object (some "") right more := by
        intro more
        rw [argument_empty last hl hr]
        rfl
      rw [hmember] at h
      have hrefusal := exact_member object (some "") right vs e unread h
      have hopen : Refusal (fun us => argument last (left :: us) >>= fun (a, last, rest) =>
          member object a last rest) left (right :: vs) e unread := hrefusal.cons hmember
      exact hopen.cons fun _ => rfl

theorem exact_selector (dollar : Token) : Exact (selector dollar) dollar := by
  refine exact_expect _ _ (fun object o _ => exact_argument object o) ?_ dollar
  exact ⟨"a", someName, [someSymbol .period, someName], _, rfl, rfl⟩

/-! ## Phrases -/

theorem word_ne_refused : word text ts ≠ .error ⟨.refused e, unread⟩ := by
  unfold word
  split <;> simp

/-- A symbol that means nothing on its own is refused whatever comes after it. -/
theorem symbol_refused {s : Symbol} (hs : symbol s t ts = .error ⟨.refused e, unread⟩) :
    e.cause.name ≠ "UnexpectedLastToken" ∧ e.token = t ∧ unread = ts ∧
      ∀ more, symbol s t more = .error ⟨.refused e, more⟩ := by
  unfold symbol at hs ⊢
  split at hs
  · cases hs
  · cases hs
  · split at hs <;> cases hs <;> simp_all [ReduceError.Cause.name]

/-- What starts with a token is refused at the token itself, or at what comes after it. -/
theorem refusal_of_read (h : read t ts = .error ⟨.refused e, unread⟩) :
    (e.cause.name ≠ "UnexpectedLastToken" ∧ e.token = t ∧ unread = ts ∧
      ∀ more, read t more = .error ⟨.refused e, more⟩) ∨ Refusal (read t) t ts e unread := by
  cases hbody : t.body with
  | identifier text =>
    have hread : ∀ ts, read t ts = name text ts :=
      fun _ => read_name (Token.name?_eq_some.mpr hbody)
    rw [hread] at h
    rw [funext hread]
    rcases following_cases ts with ⟨equals, us, rfl, heq⟩ | ⟨period, us, rfl, hp⟩ | halone
    · rw [name_equals heq] at h
      exact .inr ((exact_attr text equals us e unread h).cons fun _ => name_equals heq)
    · rw [name_period hp] at h
      exact .inr ((exact_trait text period us e unread h).cons fun _ => name_period hp)
    · rw [name_alone halone] at h
      exact absurd h word_ne_refused
  | string text =>
    rw [read, hbody] at h
    cases h
  | number x =>
    rw [read, hbody] at h
    exact absurd h word_ne_refused
  | symbol s carried =>
    have ht := Token.isSymbol_iff.mpr ⟨carried, hbody⟩
    by_cases hs : s = .dollar
    · subst hs
      have hread : ∀ ts, read t ts = selector t ts := fun _ => read_dollar ht
      rw [hread] at h
      rw [funext hread]
      exact .inr (exact_selector t ts e unread h)
    · have hread : ∀ ts, read t ts = symbol s t ts := fun _ => read_symbol ht hs
      rw [hread] at h
      rw [funext hread]
      exact .inl (symbol_refused h)
  | marker m carried =>
    have hread : ∀ ts, read t ts = .error ⟨.refused ⟨.unsupported, t⟩, ts⟩ := by
      intro ts
      rw [read, hbody]
    rw [hread] at h
    cases h
    exact .inl ⟨by simp [ReduceError.Cause.name], rfl, rfl, hread⟩

end Phrase

/-! ## Reductions -/

/-- What follows a phrase matters only if the phrase is a lone name. -/
theorem Forms.mono {following following' phrase : List Token} {x : Expression}
    (h : Forms following phrase x)
    (hname : ∀ t text, phrase = [t] → t.name? = some text → StandsAlone following →
      StandsAlone following') : Forms following' phrase x := by
  cases h with
  | attr hk heq hv => exact .attr hk heq hv
  | trait ho hp hn => exact .trait ho hp hn
  | selector hd ho hp hn => exact .selector hd ho hp hn
  | emptySelector hd ho hl hr hp hn => exact .emptySelector hd ho hl hr hp hn
  | givenSelector hd ho hl hw hr hp hn => exact .givenSelector hd ho hl hw hr hp hn
  | name ht halone hx => exact .name ht (hname _ _ rfl ht halone) hx
  | number ht hx => exact .number ht hx
  | string ht => exact .string ht
  | colon ht => exact .colon ht
  | arithmetic ht hop => exact .arithmetic ht hop
  | relational ht hop => exact .relational ht hop

/-- Only the next token matters to a phrase. -/
theorem Forms.of_head {following following' phrase : List Token} {x : Expression}
    (h : Forms following phrase x) (hhead : following'.head? = following.head?) :
    Forms following' phrase x := by
  apply h.mono
  intro t text _ _ halone
  rwa [StandsAlone, hhead]

/-- What comes after the next token makes no difference to a phrase that is read. -/
theorem Phrase.exists_read_head {x : Expression} (h : read t ts = .ok (x, rest)) :
    ∃ phrase, ts = phrase ++ rest ∧
      ∀ rest', rest'.head? = rest.head? → read t (phrase ++ rest') = .ok (x, rest') := by
  obtain ⟨phrase, rfl, hforms⟩ := forms_of_read h
  refine ⟨phrase, rfl, fun rest' hhead => ?_⟩
  obtain ⟨t', phrase', heq, hread⟩ := read_of_forms (hforms.of_head hhead)
  cases heq
  exact hread

/-- How the tokens of a whole reduction are refused. -/
inductive Refused (ts : List Token) (e : ReduceError) : Prop where
  /-- They run out, and with more of them they would be phrases. -/
  | early (more : List Token) (xs : List Expression) : e.cause.name = "UnexpectedLastToken" →
      ts.getLast? = some e.token → (Reduction.of ts).unread = 0 → reduce (ts ++ more) = .ok xs →
      Refused ts e
  /-- One of them is refused whatever comes after it. -/
  | wrong (pre : List Token) {unread : List Token} :
      e.cause.name ≠ "UnexpectedLastToken" → ts = pre ++ e.token :: unread →
      (Reduction.of ts).unread = unread.length →
      (∀ more, reduce (pre ++ e.token :: more) = .error (.refused e)) → Refused ts e

/-- A phrase in front changes nothing. -/
theorem Refused.cons {x : Expression} (h : Refused rest e)
    (hread : Phrase.read t ts = .ok (x, rest)) : Refused (t :: ts) e := by
  have hunread : (Reduction.of (t :: ts)).unread = (Reduction.of rest).unread := by
    rw [Reduction.of_cons_ok hread]
    rfl
  obtain ⟨phrase, rfl, hphrase⟩ := Phrase.exists_read_head hread
  cases h with
  | early more xs hname hlast hzero hok =>
    have hne : rest ≠ [] := by
      rintro rfl
      cases hlast
    have hmore := hphrase (rest ++ more) (List.head?_append_of_ne_nil _ hne)
    refine .early more (x :: xs) hname ?_ (hunread.trans hzero) ?_
    · rw [← List.cons_append, List.getLast?_append_of_ne_nil _ hne, hlast]
    · rw [List.cons_append, List.append_assoc, reduce_cons_ok hmore, hok]
      rfl
  | wrong pre hname hsplit hlength herror =>
    subst hsplit
    refine .wrong (t :: (phrase ++ pre)) hname (by simp) (hunread.trans hlength) ?_
    intro more
    have hmore := hphrase (pre ++ e.token :: more) (by cases pre <;> rfl)
    rw [List.cons_append, List.append_assoc, reduce_cons_ok hmore, herror]
    rfl

theorem refused_of_reduce (h : reduce ts = .error (.refused e)) : Refused ts e := by
  induction ts using Reduction.of.induct with
  | case1 =>
    rw [reduce_nil] at h
    cases h
  | case2 t ts x rest hread ih =>
    rw [reduce_cons_ok hread] at h
    cases hrest : reduce rest with
    | ok xs =>
      rw [hrest] at h
      cases h
    | error failure =>
      rw [hrest] at h
      cases h
      exact (ih hrest).cons hread
  | case3 t ts stop hread =>
    rw [reduce_cons_error hread] at h
    obtain ⟨failure, unread⟩ := stop
    cases h
    have hunread : (Reduction.of (t :: ts)).unread = unread.length := by
      rw [Reduction.of_cons_error hread]
      rfl
    rcases Phrase.refusal_of_read hread with ⟨hname, rfl, rfl, herror⟩ | hrefusal
    · exact .wrong [] hname rfl hunread fun more => reduce_cons_error (herror more)
    · cases hrefusal with
      | early more x hname hlast hok =>
        refine .early more [x] hname hlast hunread ?_
        rw [List.cons_append, reduce_cons_ok hok, reduce_nil]
        rfl
      | wrong pre hname hsplit herror =>
        exact .wrong (t :: pre) hname (congrArg (t :: ·) hsplit) hunread fun more =>
          reduce_cons_error (herror more)

/-- Tokens are refused at the last token read. They end early if and only if more tokens would make
phrases of them, and then all of them have been read; in any other case the tokens read are enough
to be refused in the same way, whatever comes after them. -/
theorem reduce_refused_exact (h : reduce ts = .error (.refused e)) :
    let cursor := ts.length - (Reduction.of ts).unread
    0 < cursor ∧ ts[cursor - 1]? = some e.token ∧
      (e.cause.name = "UnexpectedLastToken" ↔ ∃ more xs, reduce (ts ++ more) = .ok xs) ∧
      (e.cause.name = "UnexpectedLastToken" → cursor = ts.length) ∧
      (e.cause.name ≠ "UnexpectedLastToken" →
        ∀ us, ts.take cursor <+: us → reduce us = .error (.refused e)) := by
  intro cursor
  cases refused_of_reduce h with
  | early more xs hname hlast hzero hok =>
    have hcursor : cursor = ts.length := by simp [cursor, hzero]
    rw [hcursor]
    refine ⟨?_, ?_, ⟨fun _ => ⟨more, xs, hok⟩, fun _ => hname⟩, fun _ => rfl, absurd hname⟩
    · rw [List.length_pos_iff]
      rintro rfl
      cases hlast
    · rw [← hlast, List.getLast?_eq_getElem?]
  | @wrong pre unread hname hsplit hlength herror =>
    have hcursor : cursor = pre.length + 1 := by
      have hcount := congrArg List.length hsplit
      simp only [List.length_append, List.length_cons] at hcount
      simp only [cursor, hlength]
      omega
    rw [hcursor]
    refine ⟨Nat.succ_pos _, ?_, ⟨fun hearly => absurd hearly hname, ?_⟩,
      fun hearly => absurd hearly hname, ?_⟩
    · simp [hsplit]
    · rintro ⟨more, xs, hok⟩
      rw [hsplit, List.append_assoc, List.cons_append, herror] at hok
      cases hok
    · rintro - us ⟨more, rfl⟩
      have htake : ts.take (pre.length + 1) = pre ++ [e.token] := by
        rw [hsplit, List.take_length_add_append]
        rfl
      rw [htake, List.append_assoc]
      exact herror more

theorem reduce_refused_exact_selector_and_colon :
    let make (body : Token.Body) : Token := .make body none .unknown
    let selector := [make (.symbol .dollar .none), make (.identifier "a"),
      make (.symbol .leftAngle .none)]
    let keyed := [make (.identifier "k"), make (.symbol .equals .none),
      make (.symbol .colon .none)]
    (∃ e, reduce selector = .error (.refused e) ∧ e.cause.name = "UnexpectedLastToken" ∧
      ∃ more xs, reduce (selector ++ more) = .ok xs) ∧
    ∃ e, reduce (keyed ++ selector) = .error (.refused e) ∧ e.cause.name = "InvalidToken" ∧
      ∀ us, keyed <+: us → reduce us = .error (.refused e) := by
  intro make selector keyed
  have hread : Phrase.read (make (.symbol .dollar .none)) selector.tail = .error ⟨.refused
      ⟨.endsEarly "expected string or right angle bracket", make (.symbol .leftAngle .none)⟩, []⟩ :=
    rfl
  have hread' : Phrase.read (make (.identifier "k")) (keyed ++ selector).tail = .error ⟨.refused
      ⟨.invalid "expected string after equals sign", make (.symbol .colon .none)⟩, selector⟩ := rfl
  have hselector : reduce selector = _ := reduce_cons_error hread
  have hkeyed : reduce (keyed ++ selector) = _ := reduce_cons_error hread'
  have hunread : (Reduction.of (keyed ++ selector)).unread = 3 :=
    congrArg Reduction.unread (Reduction.of_cons_error hread')
  refine ⟨⟨_, hselector, rfl, ?_⟩, _, hkeyed, rfl, ?_⟩
  · exact (reduce_refused_exact hselector).2.2.1.mp rfl
  · have hexact := (reduce_refused_exact hkeyed).2.2.2.2 (by simp [ReduceError.Cause.name])
    rw [hunread] at hexact
    exact hexact

end TraitMarkup
