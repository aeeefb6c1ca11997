import TraitMarkup.Reduction

/-!
# The grammar of phrases

The phrases are given here one by one, without the order in which their tokens are looked at
(`Forms`). The reader of phrases takes exactly these (`Phrase.read_of_forms` and
`Phrase.forms_of_read`), so a reduction splits tokens into phrases, in the only way there is
(`reduce_eq_ok`). Where it does not, a word is too long, or the tokens are refused for one of a few
causes (`Phrase.Objection`).
-/

namespace TraitMarkup

variable {t u : Token} {ts rest phrase : List Token} {e : Expression} {text : String}

/-! ## Words and symbols -/

namespace Token

theorem name?_eq_some : t.name? = some text ↔ t.body = .identifier text := by
  obtain ⟨body, lexeme, location⟩ := t
  cases body <;> simp [name?]

theorem isSymbol_iff {s : Symbol} : t.isSymbol s ↔ ∃ carried, t.body = .symbol s carried := by
  obtain ⟨body, lexeme, location⟩ := t
  cases body <;> simp [isSymbol, kind, Body.kind]

theorem isSymbol_ne {s s' : Symbol} (h : t.isSymbol s) (hs : s ≠ s') : t.isSymbol s' = false := by
  obtain ⟨carried, hbody⟩ := isSymbol_iff.mp h
  simpa [isSymbol, kind, hbody, Body.kind] using hs

theorem not_isSymbol_of_word? (h : t.word? = some text) (s : Symbol) : t.isSymbol s = false := by
  rw [Bool.eq_false_iff]
  intro hs
  obtain ⟨carried, hbody⟩ := isSymbol_iff.mp hs
  simp [word?, hbody] at h

end Token

/-! ## Phrases -/

/-- The token that follows is neither an equals sign nor a period. -/
def StandsAlone (following : List Token) : Prop :=
  ∀ u ∈ following.head?, u.isSymbol .equals = false ∧ u.isSymbol .period = false

/-- The phrases, with the expressions that they form. What follows matters to a lone name only. -/
inductive Forms (following : List Token) : List Token → Expression → Prop where
  | attr {k equals v : Token} {key value : String} : k.name? = some key →
      equals.isSymbol .equals → v.word? = some value →
      Forms following [k, equals, v] (.attr key value)
  | trait {o period n : Token} {object name : String} : o.name? = some object →
      period.isSymbol .period → n.name? = some name →
      Forms following [o, period, n] (.trait object .direct name)
  | selector {dollar o period n : Token} {object name : String} : dollar.isSymbol .dollar →
      o.name? = some object → period.isSymbol .period → n.name? = some name →
      Forms following [dollar, o, period, n] (.trait object (.selector none) name)
  | emptySelector {dollar o left right period n : Token} {object name : String} :
      dollar.isSymbol .dollar → o.name? = some object → left.isSymbol .leftAngle →
      right.isSymbol .rightAngle → period.isSymbol .period → n.name? = some name →
      Forms following [dollar, o, left, right, period, n]
        (.trait object (.selector (some "")) name)
  | givenSelector {dollar o left a right period n : Token} {object argument name : String} :
      dollar.isSymbol .dollar → o.name? = some object → left.isSymbol .leftAngle →
      a.word? = some argument → right.isSymbol .rightAngle → period.isSymbol .period →
      n.name? = some name →
      Forms following [dollar, o, left, a, right, period, n]
        (.trait object (.selector (some argument)) name)
  | name {t : Token} {text : String} {e : Expression} : t.name? = some text →
      StandsAlone following → Unsigned.expression text = .ok e → Forms following [t] e
  | number {t : Token} {e : Expression} : t.kind = .number →
      Unsigned.expression t.lexeme = .ok e → Forms following [t] e
  | string {t : Token} {text : String} : t.body = .string text → Forms following [t] (.raw text)
  | colon {t : Token} : t.isSymbol .colon → Forms following [t] .colon
  | arithmetic {t : Token} {s : Symbol} {op : Arithmetic} : t.isSymbol s →
      s.arithmetic? = some op → Forms following [t] (.arithmetic op)
  | relational {t : Token} {s : Symbol} {op : Relational} : t.isSymbol s →
      s.relational? = some op → Forms following [t] (.relational op)

/-- Tokens split into phrases, each with its expression. -/
inductive Phrases : List Token → List (List Token × Expression) → Prop where
  | nil : Phrases [] []
  | cons {phrase rest : List Token} {e : Expression} {ps : List (List Token × Expression)} :
      Forms rest phrase e → Phrases rest ps → Phrases (phrase ++ rest) ((phrase, e) :: ps)

/-- A word to which the phrases lead up and that is a phrase of its own, if it is not too long. -/
inductive Standalone : List Token → String → Prop where
  | name {t : Token} {text : String} {rest : List Token} : t.name? = some text →
      StandsAlone rest → Standalone (t :: rest) text
  | number {t : Token} (rest : List Token) : t.kind = .number → Standalone (t :: rest) t.lexeme
  | later {phrase rest : List Token} {e : Expression} {text : String} : Forms rest phrase e →
      Standalone rest text → Standalone (phrase ++ rest) text

namespace Phrase

theorem expect_eq_ok {α : Type} {accept : Token → Option α} {missing invalid : String}
    {last : Token} {a : α} : expect accept missing invalid last ts = .ok (a, t, rest) ↔
      ts = t :: rest ∧ accept t = some a := by
  cases ts with
  | nil => simp [expect]
  | cons u ts =>
    rw [expect]
    cases hu : accept u with
    | some b =>
      constructor
      · intro h
        cases h
        exact ⟨rfl, hu⟩
      · rintro ⟨⟨⟩, ha⟩
        rw [hu] at ha
        cases ha
        rfl
    | none =>
      constructor
      · intro h
        cases h
      · rintro ⟨⟨⟩, ha⟩
        rw [hu] at ha
        cases ha

theorem expectSymbol_eq_ok {s : Symbol} {expected : String} {last : Token} {a : Unit} :
    expectSymbol s expected last ts = .ok (a, t, rest) ↔ ts = t :: rest ∧ t.isSymbol s := by
  simp [expectSymbol, expect_eq_ok]

theorem word_eq_ok :
    word text ts = .ok (e, rest) ↔ Unsigned.expression text = .ok e ∧ ts = rest := by
  unfold word
  split <;> simp_all

theorem attr_eq_ok {key : String} {equals : Token} : attr key equals ts = .ok (e, rest) ↔
    ∃ v value, ts = v :: rest ∧ v.word? = some value ∧ e = .attr key value := by
  simp only [attr, bind_eq_ok, Prod.exists, expect_eq_ok]
  constructor
  · rintro ⟨value, v, rest, ⟨rfl, hv⟩, ⟨⟩⟩
    exact ⟨v, value, rfl, hv, rfl⟩
  · rintro ⟨v, value, rfl, hv, rfl⟩
    exact ⟨value, v, rest, ⟨rfl, hv⟩, rfl⟩

theorem trait_eq_ok {object : String} {period : Token} : trait object period ts = .ok (e, rest) ↔
    ∃ n name, ts = n :: rest ∧ n.name? = some name ∧ e = .trait object .direct name := by
  simp only [trait, expectName, bind_eq_ok, Prod.exists, expect_eq_ok]
  constructor
  · rintro ⟨name, n, rest, ⟨rfl, hn⟩, ⟨⟩⟩
    exact ⟨n, name, rfl, hn, rfl⟩
  · rintro ⟨n, name, rfl, hn, rfl⟩
    exact ⟨name, n, rest, ⟨rfl, hn⟩, rfl⟩

theorem name_equals (h : t.isSymbol .equals) : name text (t :: ts) = attr text t ts := by
  simp [name, h]

theorem name_period (h : t.isSymbol .period) : name text (t :: ts) = trait text t ts := by
  have hne : t.isSymbol .equals = false := Token.isSymbol_ne h (by decide)
  simp [name, h, hne]

theorem name_alone (h : StandsAlone ts) : name text ts = word text ts := by
  match ts with
  | [] => rfl
  | t :: ts =>
    obtain ⟨he, hp⟩ := h t rfl
    simp [name, he, hp]

/-- After a name there is an equals sign, a period, or something else or nothing. -/
theorem following_cases (ts : List Token) :
    (∃ t us, ts = t :: us ∧ t.isSymbol .equals) ∨ (∃ t us, ts = t :: us ∧ t.isSymbol .period) ∨
      StandsAlone ts := by
  match ts with
  | [] => exact .inr (.inr (by simp [StandsAlone]))
  | t :: us =>
    cases he : t.isSymbol .equals with
    | true => exact .inl ⟨t, us, rfl, he⟩
    | false =>
      cases hp : t.isSymbol .period with
      | true => exact .inr (.inl ⟨t, us, rfl, hp⟩)
      | false =>
        refine .inr (.inr ?_)
        rintro u ⟨⟩
        exact ⟨he, hp⟩

theorem givenArgument_eq_ok {bracket : Token} {a : Option String} :
    givenArgument bracket ts = .ok (a, t, rest) ↔
      ∃ w text, ts = w :: t :: rest ∧ w.word? = some text ∧ t.isSymbol .rightAngle ∧
        a = some text := by
  simp only [givenArgument, bind_eq_ok, Prod.exists, expect_eq_ok, expectSymbol_eq_ok]
  constructor
  · rintro ⟨text, w, us, ⟨rfl, hw⟩, -, t, rest, ⟨rfl, ht⟩, ⟨⟩⟩
    exact ⟨w, text, rfl, hw, ht, rfl⟩
  · rintro ⟨w, text, rfl, hw, ht, rfl⟩
    exact ⟨text, w, t :: rest, ⟨rfl, hw⟩, (), t, rest, ⟨rfl, ht⟩, rfl⟩

theorem argument_none (last : Token) (h : ∀ u ∈ ts.head?, u.isSymbol .leftAngle = false) :
    argument last ts = .ok (none, last, ts) := by
  match ts with
  | [] => rfl
  | t :: ts => simp [argument, h t rfl]

theorem argument_empty (last : Token) (ht : t.isSymbol .leftAngle) (hu : u.isSymbol .rightAngle) :
    argument last (t :: u :: ts) = .ok (some "", u, ts) := by
  simp [argument, ht, hu]

theorem argument_given (last : Token) (ht : t.isSymbol .leftAngle)
    (h : ∀ u ∈ ts.head?, u.isSymbol .rightAngle = false) :
    argument last (t :: ts) = givenArgument t ts := by
  match ts with
  | [] => simp [argument, ht]
  | u :: ts => simp [argument, ht, h u rfl]

theorem argument_cases {last : Token} {a : Option String}
    (h : argument last ts = .ok (a, t, rest)) :
    (a = none ∧ ts = rest) ∨
      (∃ left, ts = left :: t :: rest ∧ left.isSymbol .leftAngle ∧ t.isSymbol .rightAngle ∧
        a = some "") ∨
      ∃ left w text, ts = left :: w :: t :: rest ∧ left.isSymbol .leftAngle ∧
        w.word? = some text ∧ t.isSymbol .rightAngle ∧ a = some text := by
  match ts with
  | [] =>
    cases h
    exact .inl ⟨rfl, rfl⟩
  | left :: ts =>
    cases hl : left.isSymbol .leftAngle with
    | false =>
      rw [argument_none last (by simpa using hl)] at h
      cases h
      exact .inl ⟨rfl, rfl⟩
    | true =>
      by_cases hr : ∀ u ∈ ts.head?, u.isSymbol .rightAngle = false
      · rw [argument_given last hl hr, givenArgument_eq_ok] at h
        obtain ⟨w, text, rfl, hw, ht, rfl⟩ := h
        exact .inr (.inr ⟨left, w, text, rfl, hl, hw, ht, rfl⟩)
      · match ts with
        | [] => simp at hr
        | right :: ts =>
          have hright : right.isSymbol .rightAngle := by simpa using hr
          rw [argument_empty last hl hright] at h
          cases h
          exact .inr (.inl ⟨left, rfl, hl, hright, rfl⟩)

theorem selector_eq_ok {dollar : Token} : selector dollar ts = .ok (e, rest) ↔
    ∃ o object us a last period n name, ts = o :: us ∧ o.name? = some object ∧
      argument o us = .ok (a, last, period :: n :: rest) ∧ period.isSymbol .period ∧
      n.name? = some name ∧ e = .trait object (.selector a) name := by
  simp only [selector, expectName, bind_eq_ok, Prod.exists, expect_eq_ok, expectSymbol_eq_ok]
  constructor
  · rintro ⟨object, o, us, ⟨rfl, ho⟩, a, last, vs, ha, -, period, ws, ⟨rfl, hp⟩, name, n, rest,
      ⟨rfl, hn⟩, ⟨⟩⟩
    exact ⟨o, object, us, a, last, period, n, name, rfl, ho, ha, hp, hn, rfl⟩
  · rintro ⟨o, object, us, a, last, period, n, name, rfl, ho, ha, hp, hn, rfl⟩
    exact ⟨object, o, us, ⟨rfl, ho⟩, a, last, _, ha, (), period, n :: rest, ⟨rfl, hp⟩, name, n,
      rest, ⟨rfl, hn⟩, rfl⟩

theorem symbol_arithmetic {s : Symbol} {op : Arithmetic} (h : s.arithmetic? = some op) :
    symbol s t ts = .ok (.arithmetic op, ts) := by
  simp [symbol, h]

theorem symbol_relational {s : Symbol} {op : Relational} (h : s.relational? = some op) :
    symbol s t ts = .ok (.relational op, ts) := by
  cases s <;> cases h <;> rfl

theorem symbol_cases {s : Symbol} (h : symbol s t ts = .ok (e, rest)) : ts = rest ∧
    ((s = .colon ∧ e = .colon) ∨ (∃ op, s.arithmetic? = some op ∧ e = .arithmetic op) ∨
      ∃ op, s.relational? = some op ∧ e = .relational op) := by
  cases ha : s.arithmetic? with
  | some op =>
    rw [symbol_arithmetic ha] at h
    cases h
    exact ⟨rfl, .inr (.inl ⟨op, rfl, rfl⟩)⟩
  | none =>
    cases hr : s.relational? with
    | some op =>
      rw [symbol_relational hr] at h
      cases h
      exact ⟨rfl, .inr (.inr ⟨op, rfl, rfl⟩)⟩
    | none =>
      cases s with
      | colon =>
        cases h
        exact ⟨rfl, .inl ⟨rfl, rfl⟩⟩
      | dollar | period | bang | equals => cases h
      | leftAngle | rightAngle | equalTo | atMost | atLeast | notEqual => cases hr
      | _ => cases ha

/-! ## Reading a phrase -/

theorem read_name (h : t.name? = some text) : read t ts = name text ts := by
  rw [read, Token.name?_eq_some.mp h]

theorem read_number (h : t.kind = .number) : read t ts = word t.lexeme ts := by
  obtain ⟨body, lexeme, location⟩ := t
  cases body <;> cases h
  rfl

theorem read_dollar (h : t.isSymbol .dollar) : read t ts = selector t ts := by
  obtain ⟨carried, hbody⟩ := Token.isSymbol_iff.mp h
  rw [read, hbody]

theorem read_symbol {s : Symbol} (h : t.isSymbol s) (hs : s ≠ .dollar) :
    read t ts = symbol s t ts := by
  obtain ⟨carried, hbody⟩ := Token.isSymbol_iff.mp h
  unfold read
  rw [hbody]
  cases s with
  | dollar => exact absurd rfl hs
  | _ => rfl

/-- A phrase is read, and what follows it is left. -/
theorem read_of_forms (h : Forms rest phrase e) :
    ∃ t ts, phrase = t :: ts ∧ read t (ts ++ rest) = .ok (e, rest) := by
  cases h with
  | attr hk heq hv =>
    refine ⟨_, _, rfl, ?_⟩
    rw [read_name hk]
    exact (name_equals heq).trans (attr_eq_ok.mpr ⟨_, _, rfl, hv, rfl⟩)
  | trait ho hp hn =>
    refine ⟨_, _, rfl, ?_⟩
    rw [read_name ho]
    exact (name_period hp).trans (trait_eq_ok.mpr ⟨_, _, rfl, hn, rfl⟩)
  | @selector dollar o period n _ _ hd ho hp hn =>
    have ha : argument o (period :: n :: rest) = .ok (none, o, period :: n :: rest) :=
      argument_none o (by simpa using Token.isSymbol_ne hp (by decide))
    refine ⟨_, _, rfl, ?_⟩
    rw [read_dollar hd]
    exact selector_eq_ok.mpr ⟨_, _, _, _, _, _, _, _, rfl, ho, ha, hp, hn, rfl⟩
  | @emptySelector dollar o left right period n _ _ hd ho hl hr hp hn =>
    have ha : argument o (left :: right :: period :: n :: rest) = _ := argument_empty o hl hr
    refine ⟨_, _, rfl, ?_⟩
    rw [read_dollar hd]
    exact selector_eq_ok.mpr ⟨_, _, _, _, _, _, _, _, rfl, ho, ha, hp, hn, rfl⟩
  | @givenSelector dollar o left w right period n _ text _ hd ho hl hw hr hp hn =>
    have ha : argument o (left :: w :: right :: period :: n :: rest) =
        .ok (some text, right, period :: n :: rest) := by
      rw [argument_given o hl (by simpa using Token.not_isSymbol_of_word? hw _)]
      exact givenArgument_eq_ok.mpr ⟨_, _, rfl, hw, hr, rfl⟩
    refine ⟨_, _, rfl, ?_⟩
    rw [read_dollar hd]
    exact selector_eq_ok.mpr ⟨_, _, _, _, _, _, _, _, rfl, ho, ha, hp, hn, rfl⟩
  | name ht halone he =>
    refine ⟨_, _, rfl, ?_⟩
    rw [read_name ht]
    exact (name_alone halone).trans (word_eq_ok.mpr ⟨he, rfl⟩)
  | number ht he =>
    refine ⟨_, _, rfl, ?_⟩
    rw [read_number ht]
    exact word_eq_ok.mpr ⟨he, rfl⟩
  | string ht =>
    refine ⟨_, _, rfl, ?_⟩
    rw [read, ht]
    rfl
  | colon ht =>
    refine ⟨_, _, rfl, ?_⟩
    rw [read_symbol ht (by decide)]
    rfl
  | arithmetic ht hop =>
    refine ⟨_, _, rfl, ?_⟩
    rw [read_symbol ht (by rintro rfl; cases hop)]
    exact symbol_arithmetic hop
  | relational ht hop =>
    refine ⟨_, _, rfl, ?_⟩
    rw [read_symbol ht (by rintro rfl; cases hop)]
    exact symbol_relational hop

theorem forms_of_name (ht : t.name? = some text) (h : name text ts = .ok (e, rest)) :
    ∃ phrase, ts = phrase ++ rest ∧ Forms rest (t :: phrase) e := by
  rcases following_cases ts with ⟨equals, us, rfl, heq⟩ | ⟨period, us, rfl, hp⟩ | halone
  · rw [name_equals heq, attr_eq_ok] at h
    obtain ⟨v, value, rfl, hv, rfl⟩ := h
    exact ⟨[equals, v], rfl, .attr ht heq hv⟩
  · rw [name_period hp, trait_eq_ok] at h
    obtain ⟨n, name, rfl, hn, rfl⟩ := h
    exact ⟨[period, n], rfl, .trait ht hp hn⟩
  · rw [name_alone halone, word_eq_ok] at h
    obtain ⟨he, rfl⟩ := h
    exact ⟨[], rfl, .name ht halone he⟩

theorem forms_of_selector (ht : t.isSymbol .dollar) (h : selector t ts = .ok (e, rest)) :
    ∃ phrase, ts = phrase ++ rest ∧ Forms rest (t :: phrase) e := by
  obtain ⟨o, object, us, a, last, period, n, name, rfl, ho, ha, hp, hn, rfl⟩ := selector_eq_ok.mp h
  rcases argument_cases ha with ⟨rfl, rfl⟩ | ⟨left, rfl, hl, hr, rfl⟩ |
    ⟨left, w, text, rfl, hl, hw, hr, rfl⟩
  · exact ⟨[o, period, n], rfl, .selector ht ho hp hn⟩
  · exact ⟨[o, left, last, period, n], rfl, .emptySelector ht ho hl hr hp hn⟩
  · exact ⟨[o, left, w, last, period, n], rfl, .givenSelector ht ho hl hw hr hp hn⟩

/-- What is read is a phrase, and what is left follows it. -/
theorem forms_of_read (h : read t ts = .ok (e, rest)) :
    ∃ phrase, ts = phrase ++ rest ∧ Forms rest (t :: phrase) e := by
  cases hbody : t.body with
  | identifier text =>
    have ht := Token.name?_eq_some.mpr hbody
    rw [read_name ht] at h
    exact forms_of_name ht h
  | string text =>
    rw [read, hbody] at h
    cases h
    exact ⟨[], rfl, .string hbody⟩
  | number x =>
    have ht : t.kind = .number := by rw [Token.kind, hbody]; rfl
    rw [read_number ht, word_eq_ok] at h
    obtain ⟨he, rfl⟩ := h
    exact ⟨[], rfl, .number ht he⟩
  | symbol s carried =>
    have ht := Token.isSymbol_iff.mpr ⟨carried, hbody⟩
    by_cases hs : s = .dollar
    · subst hs
      rw [read_dollar ht] at h
      exact forms_of_selector ht h
    · rw [read_symbol ht hs] at h
      obtain ⟨rfl, ⟨rfl, rfl⟩ | ⟨op, hop, rfl⟩ | ⟨op, hop, rfl⟩⟩ := symbol_cases h
      · exact ⟨[], rfl, .colon ht⟩
      · exact ⟨[], rfl, .arithmetic ht hop⟩
      · exact ⟨[], rfl, .relational ht hop⟩
  | marker m carried =>
    rw [read, hbody] at h
    cases h

/-! ## Refusals -/

/-- The words in which phrases say what they expect. -/
def expectations : List String :=
  ["expected string", "expected period", "expected token after period",
   "expected token after attribute operator", "expected string after equals sign",
   "expected string or right angle bracket", "expected right angle bracket",
   "incorrect token to start expression"]

/-- The causes for which phrases are refused. -/
inductive Objection : ReduceError.Cause → Prop where
  | invalid {expected : String} : expected ∈ expectations → Objection (.invalid expected)
  | endsEarly {expected : String} : expected ∈ expectations → Objection (.endsEarly expected)
  | unsupported : Objection .unsupported
  | reserved : Objection .reserved

/-- Where there is a failure, the tokens are refused for one of these causes. -/
def Refuses {α : Type} (x : Except Stop α) : Prop :=
  ∀ stop, x = .error stop → ∃ e, stop.failure = .refused e ∧ Objection e.cause

theorem Refuses.ok {α : Type} (a : α) : Refuses (.ok a : Except Stop α) := by
  rintro stop ⟨⟩

theorem Refuses.error {α : Type} {e : ReduceError} (h : Objection e.cause) (ts : List Token) :
    Refuses (.error ⟨.refused e, ts⟩ : Except Stop α) := by
  rintro stop ⟨⟩
  exact ⟨e, rfl, h⟩

theorem Refuses.bind {α β : Type} {x : Except Stop α} {f : α → Except Stop β} (hx : Refuses x)
    (hf : ∀ a, Refuses (f a)) : Refuses (x >>= f) := by
  cases x with
  | ok a => exact hf a
  | error stop =>
    rintro _ ⟨⟩
    exact hx stop rfl

theorem refuses_expect {α : Type} {accept : Token → Option α} {missing invalid : String}
    {last : Token} (hmissing : missing ∈ expectations) (hinvalid : invalid ∈ expectations) :
    Refuses (expect accept missing invalid last ts) := by
  match ts with
  | [] => exact .error (.endsEarly hmissing) _
  | t :: ts =>
    rw [expect]
    split
    · exact .ok _
    · exact .error (.invalid hinvalid) _

theorem refuses_expectName {missing : String} {last : Token} (h : missing ∈ expectations) :
    Refuses (expectName missing last ts) :=
  refuses_expect h (by simp [expectations])

theorem refuses_expectSymbol {s : Symbol} {expected : String} {last : Token}
    (h : expected ∈ expectations) : Refuses (expectSymbol s expected last ts) :=
  refuses_expect h h

theorem refuses_attr (key : String) (equals : Token) (ts : List Token) :
    Refuses (attr key equals ts) :=
  .bind (refuses_expect (by simp [expectations]) (by simp [expectations])) fun _ => .ok _

theorem refuses_trait (object : String) (period : Token) (ts : List Token) :
    Refuses (trait object period ts) :=
  .bind (refuses_expectName (by simp [expectations])) fun _ => .ok _

theorem refuses_givenArgument (bracket : Token) (ts : List Token) :
    Refuses (givenArgument bracket ts) := by
  refine .bind (refuses_expect (by simp [expectations]) (by simp [expectations])) fun _ => ?_
  exact .bind (refuses_expectSymbol (by simp [expectations])) fun _ => .ok _

theorem refuses_argument (last : Token) (ts : List Token) : Refuses (argument last ts) := by
  unfold argument
  split
  · exact .ok _
  · split
    · split
      · exact refuses_givenArgument _ _
      · split
        · exact .ok _
        · exact refuses_givenArgument _ _
    · exact .ok _

theorem refuses_selector (dollar : Token) (ts : List Token) : Refuses (selector dollar ts) := by
  refine .bind (refuses_expectName (by simp [expectations])) fun _ => ?_
  refine .bind (refuses_argument _ _) fun _ => ?_
  refine .bind (refuses_expectSymbol (by simp [expectations])) fun _ => ?_
  exact .bind (refuses_expectName (by simp [expectations])) fun _ => .ok _

theorem refuses_symbol (s : Symbol) (t : Token) (ts : List Token) : Refuses (symbol s t ts) := by
  unfold symbol
  split
  · exact .ok _
  · exact .ok _
  · split
    · exact .ok _
    · exact .error .reserved _
    · exact .error (.invalid (by simp [expectations])) _

theorem word_error {stop : Stop} (h : word text ts = .error stop) :
    ∃ e, Unsigned.expression text = .error e := by
  unfold word at h
  split at h
  · cases h
  · rename_i e he
    exact ⟨e, he⟩

/-- Only a word that stands alone can be too long. -/
theorem read_error {stop : Stop} (h : read t ts = .error stop) :
    (∃ e, stop.failure = .refused e ∧ Objection e.cause) ∨
      ∃ text e, Standalone (t :: ts) text ∧ Unsigned.expression text = .error e := by
  cases hbody : t.body with
  | identifier text =>
    have ht := Token.name?_eq_some.mpr hbody
    rw [read_name ht] at h
    rcases following_cases ts with ⟨equals, us, rfl, heq⟩ | ⟨period, us, rfl, hp⟩ | halone
    · rw [name_equals heq] at h
      exact .inl (refuses_attr _ _ _ stop h)
    · rw [name_period hp] at h
      exact .inl (refuses_trait _ _ _ stop h)
    · rw [name_alone halone] at h
      obtain ⟨e, he⟩ := word_error h
      exact .inr ⟨text, e, .name ht halone, he⟩
  | string text =>
    rw [read, hbody] at h
    cases h
  | number x =>
    have ht : t.kind = .number := by rw [Token.kind, hbody]; rfl
    rw [read_number ht] at h
    obtain ⟨e, he⟩ := word_error h
    exact .inr ⟨t.lexeme, e, .number ts ht, he⟩
  | symbol s carried =>
    have ht := Token.isSymbol_iff.mpr ⟨carried, hbody⟩
    by_cases hs : s = .dollar
    · subst hs
      rw [read_dollar ht] at h
      exact .inl (refuses_selector _ _ stop h)
    · rw [read_symbol ht hs] at h
      exact .inl (refuses_symbol _ _ _ stop h)
  | marker m carried =>
    rw [read, hbody] at h
    exact .inl (Refuses.error .unsupported _ stop h)

end Phrase

theorem Unsigned.exists_digits_of_error {e : TooLong} (h : expression text = .error e) :
    ∃ ds, digits? text.toList = some ds ∧ maxDigits < ds.length := by
  unfold expression read at h
  split at h
  · cases h
  · rename_i ds hds
    split at h
    · rename_i hlong
      exact ⟨ds, hds, hlong⟩
    · split at h <;> cases h

theorem Unsigned.expression_cases (h : expression text = .ok e) :
    (e = .raw text ∧ read text = .ok none) ∨ ∃ n, e = .int n := by
  rw [expression] at h
  cases hread : read text with
  | error err =>
    rw [hread] at h
    cases h
  | ok value =>
    rw [hread] at h
    cases value with
    | none =>
      cases h
      exact .inl ⟨rfl, rfl⟩
    | some n =>
      cases h
      exact .inr ⟨n, rfl⟩

/-! ## Splitting tokens into phrases -/

theorem reduce_cons_ok (h : Phrase.read t ts = .ok (e, rest)) :
    reduce (t :: ts) = (reduce rest).map (e :: ·) := by
  rw [reduce, reduce, Reduction.of_cons_ok h]
  unfold Reduction.result
  simp only [Reduction.cons]
  cases (Reduction.of rest).stop <;> rfl

theorem reduce_cons_error {stop : Stop} (h : Phrase.read t ts = .error stop) :
    reduce (t :: ts) = .error stop.failure := by
  rw [reduce, Reduction.of_cons_error h]
  rfl

theorem reduce_nil : reduce [] = .ok [] := by
  rw [reduce, Reduction.of_nil]
  rfl

variable {ps qs : List (List Token × Expression)}

theorem Phrases.reduce_eq (h : Phrases ts ps) : reduce ts = .ok (ps.map Prod.snd) := by
  induction h with
  | nil => exact reduce_nil
  | cons hf _ ih =>
    obtain ⟨t, us, rfl, hread⟩ := Phrase.read_of_forms hf
    rw [List.cons_append, reduce_cons_ok hread, ih]
    rfl

/-- What a reduction gives are the expressions of phrases. -/
theorem reduce_eq_ok {es : List Expression} :
    reduce ts = .ok es ↔ ∃ ps, Phrases ts ps ∧ ps.map Prod.snd = es := by
  constructor
  · intro h
    induction ts using Reduction.of.induct generalizing es with
    | case1 =>
      rw [reduce_nil] at h
      cases h
      exact ⟨[], .nil, rfl⟩
    | case2 t ts e rest hread ih =>
      rw [reduce_cons_ok hread] at h
      obtain ⟨us, rfl, hf⟩ := Phrase.forms_of_read hread
      cases hrest : reduce rest with
      | error failure =>
        rw [hrest] at h
        cases h
      | ok es' =>
        rw [hrest] at h
        cases h
        obtain ⟨ps, hps, rfl⟩ := ih hrest
        exact ⟨_, .cons hf hps, rfl⟩
    | case3 t ts stop hread =>
      rw [reduce_cons_error hread] at h
      cases h
  · rintro ⟨ps, hps, rfl⟩
    exact hps.reduce_eq

theorem Phrases.flatten (h : Phrases ts ps) : (ps.map Prod.fst).flatten = ts := by
  induction h with
  | nil => rfl
  | cons _ _ ih => rw [List.map_cons, List.flatten_cons, ih]

/-- Two phrases that start the same tokens are the same. -/
theorem Forms.unique {phrase' rest' : List Token} {e' : Expression} (h : Forms rest phrase e)
    (h' : Forms rest' phrase' e') (heq : phrase ++ rest = phrase' ++ rest') :
    phrase = phrase' ∧ rest = rest' ∧ e = e' := by
  obtain ⟨t, us, rfl, hread⟩ := Phrase.read_of_forms h
  obtain ⟨t', us', rfl, hread'⟩ := Phrase.read_of_forms h'
  obtain ⟨rfl, htail⟩ := List.cons.inj heq
  have htail : us ++ rest = us' ++ rest' := htail
  rw [htail, hread'] at hread
  cases hread
  exact ⟨List.append_cancel_right heq, rfl, rfl⟩

theorem Phrases.split (h : Phrases ts ps) : (ts = [] ∧ ps = []) ∨ ∃ phrase rest e qs,
    ts = phrase ++ rest ∧ ps = (phrase, e) :: qs ∧ Forms rest phrase e ∧ Phrases rest qs := by
  cases h with
  | nil => exact .inl ⟨rfl, rfl⟩
  | cons hf h => exact .inr ⟨_, _, _, _, rfl, rfl, hf, h⟩

theorem Phrases.unique (hp : Phrases ts ps) (hq : Phrases ts qs) : ps = qs := by
  induction hp generalizing qs with
  | nil =>
    rcases hq.split with ⟨-, rfl⟩ | ⟨phrase, rest, e, qs, heq, -, hf, -⟩
    · rfl
    · obtain ⟨t, us, rfl, -⟩ := Phrase.read_of_forms hf
      cases heq
  | cons hf _ ih =>
    rcases hq.split with ⟨heq, -⟩ | ⟨phrase, rest, e, qs, heq, rfl, hf', hqs⟩
    · obtain ⟨t, us, rfl, -⟩ := Phrase.read_of_forms hf
      cases heq
    · obtain ⟨rfl, rfl, rfl⟩ := hf.unique hf' heq
      rw [ih hqs]

theorem Standalone.exists_mem (h : Standalone ts text) : ∃ t ∈ ts, t.word? = some text := by
  induction h with
  | @name t text rest ht _ =>
    refine ⟨t, List.mem_cons_self, ?_⟩
    rw [Token.word?, Token.name?_eq_some.mp ht]
  | @number t rest ht =>
    refine ⟨t, List.mem_cons_self, ?_⟩
    obtain ⟨body, lexeme, location⟩ := t
    cases body <;> cases ht
    rfl
  | later _ _ ih =>
    obtain ⟨t, ht, hw⟩ := ih
    exact ⟨t, List.mem_append_right _ ht, hw⟩

/-- Tokens split into phrases, or they are refused, or a word among them is too long. -/
theorem phrases_or_error (ts : List Token) : (∃ ps, Phrases ts ps) ∨
    (∃ e, reduce ts = .error (.refused e) ∧ Phrase.Objection e.cause) ∨
      ∃ text ds, Standalone ts text ∧ Unsigned.digits? text.toList = some ds ∧
        Unsigned.maxDigits < ds.length := by
  induction ts using Reduction.of.induct with
  | case1 => exact .inl ⟨[], .nil⟩
  | case2 t ts e rest hread ih =>
    obtain ⟨us, rfl, hf⟩ := Phrase.forms_of_read hread
    rcases ih with ⟨ps, hps⟩ | ⟨err, herr, hcause⟩ | ⟨text, ds, halone, hds⟩
    · exact .inl ⟨_, .cons hf hps⟩
    · refine .inr (.inl ⟨err, ?_, hcause⟩)
      rw [reduce_cons_ok hread, herr]
      rfl
    · exact .inr (.inr ⟨text, ds, .later hf halone, hds⟩)
  | case3 t ts stop hread =>
    rcases Phrase.read_error hread with ⟨err, herr, hcause⟩ | ⟨text, err, halone, herr⟩
    · refine .inr (.inl ⟨err, ?_, hcause⟩)
      rw [reduce_cons_error hread, herr]
    · obtain ⟨ds, hds⟩ := Unsigned.exists_digits_of_error herr
      exact .inr (.inr ⟨text, ds, halone, hds⟩)

/-- A reduction gives the expressions of the phrases into which the tokens split. There is one way
to split them at most, it leaves nothing out, and where there is none the tokens are refused. -/
theorem reduce_eq_ok_iff_phrases (h : ∀ text ds, Standalone ts text →
      Unsigned.digits? text.toList = some ds → ds.length ≤ 4300) :
    (∀ es, reduce ts = .ok es ↔ ∃ ps, Phrases ts ps ∧ ps.map Prod.snd = es) ∧
      (∀ ps qs, Phrases ts ps → Phrases ts qs → ps = qs) ∧
      (∀ ps, Phrases ts ps → (ps.map Prod.fst).flatten = ts) ∧
      ((¬∃ ps, Phrases ts ps) → ∃ e, reduce ts = .error (.refused e)) := by
  have hrefused : (¬∃ ps, Phrases ts ps) → ∃ e, reduce ts = .error (.refused e) := by
    intro hnone
    rcases phrases_or_error ts with hps | ⟨e, he, -⟩ | ⟨text, ds, halone, hds, hlong⟩
    · exact absurd hps hnone
    · exact ⟨e, he⟩
    · exact absurd (h text ds halone hds) (Nat.not_le.mpr hlong)
  exact ⟨fun _ => reduce_eq_ok, fun _ _ => Phrases.unique, fun _ => Phrases.flatten, hrefused⟩

theorem reduce_eq_ok_iff_phrases_selector : ∃ ts : List Token,
    (∀ text ds, Standalone ts text → Unsigned.digits? text.toList = some ds → ds.length ≤ 4300) ∧
      ts.map Token.text = ["$", "a", "<", ">", ".", "b", "<", "x"] ∧
      reduce ts = .ok [.trait "a" (.selector (some "")) "b", .relational .less, .raw "x"] := by
  let make (body : Token.Body) : Token := .make body none ⟨"", 1, 1, 0⟩
  let ts : List Token := [make (.symbol .dollar .none), make (.identifier "a"),
    make (.symbol .leftAngle .none), make (.symbol .rightAngle .none), make (.symbol .period .none),
    make (.identifier "b"), make (.symbol .leftAngle .none), make (.identifier "x")]
  have h : ∀ text ds, Standalone ts text → Unsigned.digits? text.toList = some ds →
      ds.length ≤ 4300 := by
    intro text ds halone hds
    obtain ⟨t, ht, hw⟩ := halone.exists_mem
    have hwords : ∀ t ∈ ts, ∀ w ∈ t.word?, Unsigned.digits? w.toList = none := by decide
    rw [hwords t ht text hw] at hds
    cases hds
  have hname : Forms [] [make (.identifier "x")] (.raw "x") := .name rfl (by simp [StandsAlone]) rfl
  have hless : Forms [make (.identifier "x")] [make (.symbol .leftAngle .none)]
      (.relational .less) := .relational (s := .leftAngle) rfl rfl
  refine ⟨ts, h, by decide, ((reduce_eq_ok_iff_phrases h).1 _).mpr ?_⟩
  exact ⟨_, .cons (.emptySelector rfl rfl rfl rfl rfl rfl) (.cons hless (.cons hname .nil)), rfl⟩

end TraitMarkup
