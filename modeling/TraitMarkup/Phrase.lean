import TraitMarkup.Reduction.Error
import TraitMarkup.Unsigned

/-! # Phrases

A phrase is the tokens that make up one expression. Three phrases take more than one token:

* `name = word`, an attribute;
* `name . name`, a trait of an object;
* `$ name . name` and `$ name < word > . name`, a trait of what a selector finds, where the word may
  be missing.

Every other token is an expression of its own or none. -/

namespace TraitMarkup

/-- Why a reduction stops. -/
inductive ReduceFailure where
  | refused (e : ReduceError)
  /-- A bare word spells an integer with too many digits. -/
  | tooLong (e : Unsigned.TooLong)
  deriving DecidableEq

/-- The operator of arithmetic that a symbol stands for. -/
def Symbol.arithmetic? : Symbol → Option Arithmetic
  | .leftBracket => some .leftBracket
  | .rightBracket => some .rightBracket
  | .slash => some .div
  | .asterisk => some .mult
  | .minus => some .sub
  | .plus => some .add
  | .percent => some .mod
  | _ => none

/-- The comparison that a symbol stands for. Angle brackets are comparisons unless they enclose a
selector's argument. -/
def Symbol.relational? : Symbol → Option Relational
  | .leftAngle => some .less
  | .rightAngle => some .greater
  | .equalTo => some .equal
  | .atMost => some .lessEqual
  | .atLeast => some .greaterEqual
  | .notEqual => some .notEqual
  | _ => none

/-- A reduction stops with some tokens still unread. -/
structure Stop where
  failure : ReduceFailure
  unread : List Token

namespace Phrase

/-- The token that has to come after `last`, with what it is accepted as. -/
def expect {α : Type} (accept : Token → Option α) (missing invalid : String) (last : Token) :
    List Token → Except Stop (α × Token × List Token)
  | [] => .error ⟨.refused ⟨.endsEarly missing, last⟩, []⟩
  | t :: rest =>
    match accept t with
    | some a => .ok (a, t, rest)
    | none => .error ⟨.refused ⟨.invalid invalid, t⟩, rest⟩

/-- The identifier that has to come after `last`. -/
def expectName (missing : String) (last : Token) (rest : List Token) :
    Except Stop (String × Token × List Token) :=
  expect Token.name? missing "expected string" last rest

/-- The symbol that has to come after `last`. -/
def expectSymbol (s : Symbol) (expected : String) (last : Token) (rest : List Token) :
    Except Stop (Unit × Token × List Token) :=
  expect (fun t => if t.isSymbol s then some () else none) expected expected last rest

/-- What a lone word means. -/
def word (text : String) (rest : List Token) : Except Stop (Expression × List Token) :=
  match Unsigned.expression text with
  | .ok e => .ok (e, rest)
  | .error e => .error ⟨.tooLong e, rest⟩

/-- An attribute, from its equals sign on. -/
def attr (key : String) (equals : Token) (rest : List Token) :
    Except Stop (Expression × List Token) := do
  let (value, _, rest) ← expect Token.word? "expected token after attribute operator"
    "expected string after equals sign" equals rest
  return (.attr key value, rest)

/-- A trait of an object, from its period on. -/
def trait (object : String) (period : Token) (rest : List Token) :
    Except Stop (Expression × List Token) := do
  let (name, _, rest) ← expectName "expected token after period" period rest
  return (.trait object .direct name, rest)

/-- What starts with an identifier. -/
def name (text : String) : List Token → Except Stop (Expression × List Token)
  | [] => word text []
  | t :: rest =>
    if t.isSymbol .equals then attr text t rest
    else if t.isSymbol .period then trait text t rest
    else word text (t :: rest)

/-- The word and the closing bracket that have to come after a selector's opening bracket. -/
def givenArgument (bracket : Token) (rest : List Token) :
    Except Stop (Option String × Token × List Token) := do
  let expected := "expected string or right angle bracket"
  let (argument, last, rest) ← expect Token.word? expected expected bracket rest
  let (_, last, rest) ← expectSymbol .rightAngle "expected right angle bracket" last rest
  return (some argument, last, rest)

/-- The argument of a selector, if it has one, with the last token read. An argument of nothing is
the empty text. -/
def argument (last : Token) : List Token → Except Stop (Option String × Token × List Token)
  | [] => .ok (none, last, [])
  | t :: rest =>
    if t.isSymbol .leftAngle then
      match rest with
      | [] => givenArgument t []
      | u :: rest =>
        if u.isSymbol .rightAngle then .ok (some "", u, rest) else givenArgument t (u :: rest)
    else .ok (none, last, t :: rest)

/-- A trait of what a selector finds, from the dollar sign on. -/
def selector (dollar : Token) (rest : List Token) : Except Stop (Expression × List Token) := do
  let (object, last, rest) ← expectName "expected string" dollar rest
  let (argument, last, rest) ← argument last rest
  let (_, last, rest) ← expectSymbol .period "expected period" last rest
  let (name, _, rest) ← expectName "expected string" last rest
  return (.trait object (.selector argument) name, rest)

/-- What a symbol other than the dollar sign means on its own. -/
def symbol (s : Symbol) (t : Token) (rest : List Token) : Except Stop (Expression × List Token) :=
  match s.arithmetic?, s.relational? with
  | some op, _ => .ok (.arithmetic op, rest)
  | none, some op => .ok (.relational op, rest)
  | none, none =>
    match s with
    | .colon => .ok (.colon, rest)
    | .bang => .error ⟨.refused ⟨.reserved, t⟩, rest⟩
    | _ => .error ⟨.refused ⟨.invalid "incorrect token to start expression", t⟩, rest⟩

/-- Reads the expression that starts with the token `t`. -/
def read (t : Token) (rest : List Token) : Except Stop (Expression × List Token) :=
  match t.body with
  | .identifier text => name text rest
  | .string text => .ok (.raw text, rest)
  | .number _ => word t.lexeme rest
  | .symbol .dollar _ => selector t rest
  | .symbol s _ => symbol s t rest
  | .marker .. => .error ⟨.refused ⟨.unsupported, t⟩, rest⟩

/-! ## No phrase gives tokens back -/

theorem bind_eq_ok {α β : Type} {x : Except Stop α} {f : α → Except Stop β} {b : β} :
    x >>= f = .ok b ↔ ∃ a, x = .ok a ∧ f a = .ok b := by
  cases x with
  | error e => exact ⟨nofun, nofun⟩
  | ok a =>
    constructor
    · exact fun h => ⟨a, rfl, h⟩
    · rintro ⟨a, ⟨⟩, h⟩
      exact h

theorem length_expect {α : Type} {accept : Token → Option α} {missing invalid : String}
    {last t : Token} {ts rest : List Token} {a : α}
    (h : expect accept missing invalid last ts = .ok (a, t, rest)) : rest.length ≤ ts.length := by
  match ts with
  | [] => simp [expect] at h
  | u :: ts =>
    simp only [expect] at h
    split at h
    · simp only [Except.ok.injEq, Prod.mk.injEq] at h
      obtain ⟨-, -, rfl⟩ := h
      simp
    · cases h

theorem length_word {text : String} {ts rest : List Token} {e : Expression}
    (h : word text ts = .ok (e, rest)) : rest.length ≤ ts.length := by
  unfold word at h
  split at h
  · cases h
    exact Nat.le_refl _
  · cases h

theorem length_attr {key : String} {equals : Token} {ts rest : List Token} {e : Expression}
    (h : attr key equals ts = .ok (e, rest)) : rest.length ≤ ts.length := by
  obtain ⟨⟨value, t, rest'⟩, h₁, h⟩ := bind_eq_ok.mp h
  cases h
  exact length_expect h₁

theorem length_trait {object : String} {period : Token} {ts rest : List Token} {e : Expression}
    (h : trait object period ts = .ok (e, rest)) : rest.length ≤ ts.length := by
  obtain ⟨⟨name, t, rest'⟩, h₁, h⟩ := bind_eq_ok.mp h
  cases h
  exact length_expect h₁

theorem length_name {text : String} {ts rest : List Token} {e : Expression}
    (h : name text ts = .ok (e, rest)) : rest.length ≤ ts.length := by
  match ts with
  | [] => exact length_word h
  | t :: ts =>
    simp only [name] at h
    split at h
    · exact Nat.le_succ_of_le (length_attr h)
    split at h
    · exact Nat.le_succ_of_le (length_trait h)
    · exact length_word h

theorem length_givenArgument {bracket t : Token} {ts rest : List Token} {a : Option String}
    (h : givenArgument bracket ts = .ok (a, t, rest)) : rest.length ≤ ts.length := by
  obtain ⟨⟨argument, last, rest₁⟩, h₁, h⟩ := bind_eq_ok.mp h
  obtain ⟨⟨_, closing, rest₂⟩, h₂, h⟩ := bind_eq_ok.mp h
  cases h
  exact Nat.le_trans (length_expect h₂) (length_expect h₁)

theorem length_argument {last t : Token} {ts rest : List Token} {a : Option String}
    (h : argument last ts = .ok (a, t, rest)) : rest.length ≤ ts.length := by
  match ts with
  | [] => cases h; exact Nat.le_refl _
  | [u] =>
    simp only [argument] at h
    split at h
    · exact Nat.le_succ_of_le (length_givenArgument h)
    · cases h; exact Nat.le_refl _
  | u :: v :: ts =>
    simp only [argument] at h
    split at h
    · split at h
      · cases h; simp only [List.length_cons]; omega
      · exact Nat.le_succ_of_le (length_givenArgument h)
    · cases h; exact Nat.le_refl _

theorem length_selector {dollar : Token} {ts rest : List Token} {e : Expression}
    (h : selector dollar ts = .ok (e, rest)) : rest.length ≤ ts.length := by
  obtain ⟨⟨object, last₁, rest₁⟩, h₁, h⟩ := bind_eq_ok.mp h
  obtain ⟨⟨argument, last₂, rest₂⟩, h₂, h⟩ := bind_eq_ok.mp h
  obtain ⟨⟨_, last₃, rest₃⟩, h₃, h⟩ := bind_eq_ok.mp h
  obtain ⟨⟨name, last₄, rest₄⟩, h₄, h⟩ := bind_eq_ok.mp h
  cases h
  have h₁ := length_expect h₁
  have h₂ := length_argument h₂
  have h₃ := length_expect h₃
  have h₄ := length_expect h₄
  omega

theorem length_symbol {s : Symbol} {t : Token} {ts rest : List Token} {e : Expression}
    (h : symbol s t ts = .ok (e, rest)) : rest.length ≤ ts.length := by
  unfold symbol at h
  split at h
  · cases h; exact Nat.le_refl _
  · cases h; exact Nat.le_refl _
  split at h <;> cases h
  exact Nat.le_refl _

theorem length_read {t : Token} {ts rest : List Token} {e : Expression}
    (h : read t ts = .ok (e, rest)) : rest.length ≤ ts.length := by
  unfold read at h
  split at h
  · exact length_name h
  · cases h; exact Nat.le_refl _
  · exact length_word h
  · exact length_selector h
  · exact length_symbol h
  · cases h

end Phrase

end TraitMarkup
