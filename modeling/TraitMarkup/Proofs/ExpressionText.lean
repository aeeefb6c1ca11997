import TraitMarkup.Proofs.LineStart
import TraitMarkup.Proofs.LineText
import TraitMarkup.Proofs.Spacing

/-!
# The text of expressions

An expression whose words need no escapes is written so that it is read as the same expression
again, beside other such expressions on a line. Its text is made of lexemes that touch and do not
extend each other (`Expression.WrittenAs`); they make up a phrase whatever comes after a blank, and
none of them can be taken as part of the phrase before.
-/

namespace TraitMarkup

open Token (Kind Body Payload)

/-! ## Plain words and numerals -/

/-- Whether a word can be written as it is, without escapes. -/
def Word.isPlain : List Char → Bool
  | [] => false
  | c :: cs => isStart c && cs.all isContinue

namespace Word

variable {cs : List Char}

theorem exists_of_isPlain (h : isPlain cs) :
    ∃ c rest, cs = c :: rest ∧ isStart c ∧ ∀ d ∈ rest, isContinue d := by
  match cs with
  | c :: rest =>
    rw [isPlain, Bool.and_eq_true, List.all_eq_true] at h
    exact ⟨c, rest, rfl, h⟩

theorem isContinue_of_isPlain (h : isPlain cs) : ∀ c ∈ cs, isContinue c := by
  obtain ⟨c, rest, rfl, hc, hrest⟩ := exists_of_isPlain h
  exact List.forall_mem_cons.mpr ⟨isContinue_of_isStart hc, hrest⟩

theorem not_mem_backslash_of_isPlain (h : isPlain cs) : '\\' ∉ cs :=
  fun hmem => absurd (isContinue_of_isPlain h _ hmem) (by decide)

end Word

theorem Escaped.of_forall {plain : Char → Bool} {cs : List Char} (h : ∀ c ∈ cs, plain c) :
    Escaped plain cs := by
  induction cs with
  | nil => exact .nil
  | cons c cs ih =>
    obtain ⟨hc, hcs⟩ := List.forall_mem_cons.mp h
    exact .plain hc (ih hcs)

theorem spells_of_isPlain {s : String} (h : Word.isPlain s.toList) :
    Spells (.identifier s) s.toList := by
  constructor
  · obtain ⟨c, rest, hs, hc, hrest⟩ := Word.exists_of_isPlain h
    rw [hs]
    exact .name hc (.of_forall hrest)
  · have hunescape : unescape (s.toList ++ []) = s.toList ++ unescape [] :=
      unescape_append (Word.not_mem_backslash_of_isPlain h) []
    rw [unescape_nil, List.append_nil] at hunescape
    simp only [Body.payload, Body.kind, decode]
    rw [hunescape, String.ofList_toList]

theorem spells_quoteChars (s : String) : Spells (.string s) (Word.quoteChars s.toList) := by
  have hspells := spells_quote s
  rwa [Word.quote, String.toList_ofList] at hspells

theorem Text.isDecimal_of_isDigit {c : Char} (h : c.isDigit) : isDecimal c := by
  rw [isDecimal, decimalValue?, Option.isSome_map, List.find?_isSome]
  exact ⟨48, by decide, by simpa using Char.isDigit_iff_toNat.mp h⟩

theorem Text.trim_eq_self {cs : List Char} (h : ∀ c ∈ cs, isBlank c = false) : trim cs = cs := by
  have hdrop : ∀ ds : List Char, (∀ c ∈ ds, isBlank c = false) → ds.dropWhile isBlank = ds := by
    intro ds hds
    cases ds with
    | nil => rfl
    | cons d ds => exact List.dropWhile_cons_of_neg (by simp [hds d List.mem_cons_self])
  rw [trim, trimEnd, hdrop cs h, hdrop cs.reverse (by simpa using h), List.reverse_reverse]

namespace Unsigned

theorem digits?_eq {cs : List Char} (hblank : ∀ c ∈ cs, Text.isBlank c = false)
    (hplus : '+' ∉ cs) :
    digits? cs = if cs ≠ [] ∧ cs.all Char.isDigit then some cs else none := by
  rw [digits?, Text.trim_eq_self hblank]
  split
  · exact absurd List.mem_cons_self hplus
  · rfl

theorem expression_of_read_none {text : String} (h : read text = .ok none) :
    expression text = .ok (.raw text) := by
  rw [expression, h]
  rfl

/-- A plain word spells no integer. -/
theorem expression_of_isPlain {text : String} (h : Word.isPlain text.toList) :
    expression text = .ok (.raw text) := by
  have hcontinue := Word.isContinue_of_isPlain h
  obtain ⟨c, rest, htext, hc, -⟩ := Word.exists_of_isPlain h
  have hdigit : c.isDigit = false := by
    rw [Bool.eq_false_iff]
    intro hdigit
    have := Word.not_isStart_of_isDecimal (Text.isDecimal_of_isDigit hdigit)
    rw [hc] at this
    cases this
  have hdigits : digits? text.toList = none := by
    rw [digits?_eq, htext, List.all_cons, hdigit]
    · exact if_neg (by simp)
    · intro d hd
      exact Word.not_isBlank_of_isContinue (hcontinue d hd)
    · intro hplus
      exact absurd (hcontinue _ hplus) (by decide)
  apply expression_of_read_none
  rw [read, hdigits]

theorem valueOf_toDigits (n : Nat) : valueOf (Nat.toDigits 10 n) = n := by
  rw [valueOf, ← Nat.ofDigitChars_eq_foldl]
  exact Nat.ofDigitChars_ten_toDigits

theorem isDigit_toDigits {n : Nat} : ∀ c ∈ Nat.toDigits 10 n, c.isDigit :=
  fun _ => Nat.isDigit_of_mem_toDigits (by decide) (by decide)

/-- The decimal digits of an integer of sixteen bits spell it. -/
theorem expression_toString (n : UInt16) : expression (toString n.toNat) = .ok (.int n) := by
  have hdigits : digits? (Nat.toDigits 10 n.toNat) = some (Nat.toDigits 10 n.toNat) := by
    rw [digits?_eq]
    · apply if_pos
      exact ⟨Nat.toDigits_ne_nil, List.all_eq_true.mpr isDigit_toDigits⟩
    · intro c hc
      exact Text.not_isBlank_of_isDecimal (Text.isDecimal_of_isDigit (isDigit_toDigits c hc))
    · intro hplus
      exact absurd (isDigit_toDigits _ hplus) (by decide)
  have hvalue : n.toNat < 65536 := n.toNat_lt
  have hlength : (Nat.toDigits 10 n.toNat).length ≤ 5 := by
    rw [Nat.length_toDigits_le_iff (by decide) (by decide)]
    omega
  have hread : read (toString n.toNat) = .ok (some n) := by
    rw [read, Nat.toString_eq_ofList_toDigits, String.toList_ofList, hdigits]
    simp only [valueOf_toDigits, UInt16.ofNat_toNat]
    rw [if_neg, if_pos]
    · omega
    · rw [maxDigits]
      omega
  rw [expression, hread]
  rfl

end Unsigned

theorem isNumeral_toString (n : Nat) : IsNumeral (toString n).toList := by
  rw [Nat.toString_eq_ofList_toDigits, String.toList_ofList]
  apply IsNumeral.whole Nat.toDigits_ne_nil
  intro c hc
  exact Text.isDecimal_of_isDigit (Unsigned.isDigit_toDigits c hc)

/-! ## Lexemes -/

namespace Lexeme

def symbol (s : Symbol) : Lexeme := ⟨.symbol s, s.chars, .symbol s⟩

def word (s : String) (h : Word.isPlain s.toList) : Lexeme :=
  ⟨.identifier, s.toList, (spells_of_isPlain h).form⟩

def numeral (s : String) (h : IsNumeral s.toList) : Lexeme := ⟨.number, s.toList, .number h⟩

def quoted (s : String) : Lexeme :=
  ⟨.string, Word.quoteChars s.toList, (spells_quoteChars s).form⟩

end Lexeme

theorem Token.Body.eq_of_kind {b b' : Body} (hk : b.kind = b'.kind)
    (hp : b.payload = b'.payload) : b = b' := by
  cases b <;> cases b' <;> simp_all [kind, payload]

namespace Token.WrittenAs

variable {u : Token} {l : Lexeme} {s : String}

/-- What a token is, is what its lexeme spells. -/
theorem body_eq {body : Body} (h : u.WrittenAs l) (hk : body.kind = l.kind)
    (hs : Spells body l.chars) : u.body = body := by
  apply Body.eq_of_kind
  · exact h.kind.trans hk.symm
  · have hpayload := hs.payload
    rw [hk] at hpayload
    exact h.payload.trans hpayload.symm

theorem isSymbol {s : Symbol} (h : u.WrittenAs (.symbol s)) : u.isSymbol s := by
  rw [Token.isSymbol, h.kind]
  exact beq_self_eq_true _

theorem name? {hs : Word.isPlain s.toList} (h : u.WrittenAs (.word s hs)) : u.name? = some s :=
  Token.name?_eq_some.mpr (h.body_eq rfl (spells_of_isPlain hs))

theorem word?_word {hs : Word.isPlain s.toList} (h : u.WrittenAs (.word s hs)) :
    u.word? = some s := by
  rw [Token.word?, h.body_eq rfl (spells_of_isPlain hs)]

theorem word?_quoted (h : u.WrittenAs (.quoted s)) : u.word? = some s := by
  rw [Token.word?, h.body_eq rfl (spells_quoteChars s)]

theorem lexeme_numeral {hs : IsNumeral s.toList} (h : u.WrittenAs (.numeral s hs)) :
    u.lexeme = s :=
  String.toList_inj.mp h.lexeme

theorem word?_numeral {hs : IsNumeral s.toList} (h : u.WrittenAs (.numeral s hs)) :
    u.word? = some s := by
  have hspells : Spells (.number (.ofNumeral s.toList)) s.toList := ⟨.number hs, rfl⟩
  rw [Token.word?, h.body_eq rfl hspells]
  exact congrArg some h.lexeme_numeral

end Token.WrittenAs

/-! ## Lexemes that touch -/

theorem Symbol.chars_ne_nil (s : Symbol) : s.chars ≠ [] := by
  cases s <;> simp [chars]

/-- A word ends before any symbol. -/
theorem ends_word_symbol (l : List Char) (s : Symbol) (rest : List Char) :
    Ends .identifier l (s.chars ++ rest) := by
  have hchars : s.chars.all fun c => !Word.isContinue c && c != '\\' := by cases s <;> decide
  intro c hc
  rw [List.head?_append_of_ne_nil _ s.chars_ne_nil] at hc
  simpa using List.all_eq_true.mp hchars c (List.mem_of_mem_head? hc)

theorem not_mem_head_append {p : Char → Bool} {d : Char} {cs : List Char}
    (h : ∃ c cs', cs = c :: cs' ∧ p c) (hd : p d = false) (rest : List Char) :
    d ∉ (cs ++ rest).head? := by
  obtain ⟨c, cs', rfl, hc⟩ := h
  intro hmem
  cases hmem
  exact ne_of_class hc hd rfl

theorem equals_not_mem_head {cs : List Char} (h : Word.isPlain cs) (rest : List Char) :
    '=' ∉ (cs ++ rest).head? := by
  obtain ⟨c, cs', hcs, hc, -⟩ := Word.exists_of_isPlain h
  exact not_mem_head_append ⟨c, cs', hcs, hc⟩ (by decide) rest

namespace Spaced

variable {cs rest : List Char} {ls ls' : List Lexeme}

theorem touch (l : Lexeme) (hends : Ends l.kind l.chars rest) (h : Spaced rest ls) :
    Spaced (l.chars ++ rest) (l :: ls) :=
  @Spaced.cons l [] rest ls (by simp) hends h

theorem word {s : String} (hs : Word.isPlain s.toList) {symbol : Symbol}
    (h : Spaced (symbol.chars ++ rest) ls) :
    Spaced (s.toList ++ (symbol.chars ++ rest)) (.word s hs :: ls) :=
  touch (.word s hs) (ends_word_symbol _ symbol rest) h

theorem symbol (s : Symbol) (hr : '=' ∉ rest.head?) (h : Spaced rest ls) :
    Spaced (s.chars ++ rest) (.symbol s :: ls) := by
  apply touch (.symbol s) _ h
  rintro c hc - rfl
  exact hr hc

theorem ne_nil (h : Spaced cs ls) : ls ≠ [] := by
  cases h <;> exact List.cons_ne_nil _ _

theorem append (h : Spaced cs ls) {gap : List Char} (hne : gap ≠ [])
    (hgap : ∀ c ∈ gap, Text.isBlank c ∧ c ≠ '\n') (h' : Spaced rest ls') :
    Spaced (cs ++ (gap ++ rest)) (ls ++ ls') := by
  have hends : ∀ {k : Kind} {l : List Char}, Ends k l (gap ++ rest) := by
    intro k l
    apply ends_of_separator
    intro c hc
    rw [List.head?_append_of_ne_nil _ hne] at hc
    exact .inl (hgap c (List.mem_of_mem_head? hc)).1
  induction h with
  | last l => exact .cons hgap hends h'
  | @cons l gap' rest' ls hgap' hends' _ ih =>
    have hlong : Ends l.kind l.chars (gap' ++ (rest' ++ (gap ++ rest))) := by
      rw [← List.append_assoc]
      exact hends'.append fun _ => hends
    rw [List.append_assoc, List.append_assoc]
    exact .cons hgap' hlong ih

/-- The tokens of such a text, in their places. -/
theorem place (h : Spaced cs ls) (file : String) (p : Position) :
    (place file p (pieces cs)).error = none ∧
      List.Forall₂ Token.WrittenAs (place file p (pieces cs)).tokens ls := by
  induction h generalizing p with
  | last l =>
    obtain ⟨body, hk, hs⟩ := l.form.exists_spells
    rw [← List.append_nil l.chars, place_lexeme hs (ends_of_separator (by simp)), pieces_nil]
    exact ⟨rfl, .cons (hs.writtenAs hk (p.inFile file)) .nil⟩
  | @cons l gap rest ls hgap hends _ ih =>
    obtain ⟨body, hk, hs⟩ := l.form.exists_spells
    rw [← hk] at hends
    rw [place_lexeme hs hends, place_blanks fun c hc => (hgap c hc).1]
    obtain ⟨herror, htokens⟩ := ih ((p.after l.chars).after gap)
    exact ⟨herror, .cons (hs.writtenAs hk (p.inFile file)) htokens⟩

end Spaced

/-! ## The text of an expression -/

/-- The symbol with which an operator is written. -/
def Arithmetic.symbol : Arithmetic → Symbol
  | .leftBracket => .leftBracket
  | .rightBracket => .rightBracket
  | .div => .slash
  | .mult => .asterisk
  | .sub => .minus
  | .add => .plus
  | .mod => .percent

theorem Arithmetic.arithmetic?_symbol (op : Arithmetic) : op.symbol.arithmetic? = some op := by
  cases op <;> rfl

/-- The symbol with which a comparison is written. -/
def Relational.symbol : Relational → Symbol
  | .equal => .equalTo
  | .greater => .rightAngle
  | .greaterEqual => .atLeast
  | .less => .leftAngle
  | .lessEqual => .atMost
  | .notEqual => .notEqual

theorem Relational.relational?_symbol (op : Relational) : op.symbol.relational? = some op := by
  cases op <;> rfl

/-- A text that may stand on a line beside others: it does not start with a symbol that could belong
to a name before it, and there is nothing to trim at its end. -/
structure MemberText (cs : List Char) (ls : List Lexeme) : Prop where
  spaced : Spaced cs ls
  first : ∀ l ∈ ls.head?, l.kind ≠ .symbol .equals ∧ l.kind ≠ .symbol .period
  last : ∀ l ∈ ls.getLast?, ¬l.EndsInEscapedBlank

theorem MemberText.of_ends {cs : List Char} {l last : Lexeme} {ls : List Lexeme}
    (h : Spaced cs (l :: ls)) (hfirst : l.kind ≠ .symbol .equals ∧ l.kind ≠ .symbol .period)
    (hlast : (l :: ls).getLast? = some last) (hb : ¬last.EndsInEscapedBlank) :
    MemberText cs (l :: ls) := by
  refine ⟨h, ?_, ?_⟩
  · intro l' hl'
    cases hl'
    exact hfirst
  · intro l' hl'
    rw [hlast] at hl'
    cases hl'
    exact hb

theorem Lexeme.not_endsInEscapedBlank {l : Lexeme} (h : '\\' ∉ l.chars) :
    ¬l.EndsInEscapedBlank := by
  rintro ⟨pre, c, hl, -⟩
  apply h
  rw [hl]
  simp

theorem Lexeme.not_endsInEscapedBlank_word {s : String} (h : Word.isPlain s.toList) :
    ¬(word s h).EndsInEscapedBlank :=
  not_endsInEscapedBlank (Word.not_mem_backslash_of_isPlain h)

theorem Lexeme.not_endsInEscapedBlank_quoted (s : String) : ¬(quoted s).EndsInEscapedBlank := by
  rintro ⟨pre, c, hl, hc⟩
  have hlast : (Word.quoteChars s.toList).getLast? = (pre ++ ['\\', c]).getLast? :=
    congrArg List.getLast? hl
  rw [Word.quoteChars, List.getLast?_concat, List.getLast?_append] at hlast
  cases hlast
  exact absurd hc (by decide)

namespace Expression

/-- The words of an expression need no escapes, and its text is no integer. -/
def Readable : Expression → Prop
  | .attr key _ => Word.isPlain key.toList
  | .trait object access name => Word.isPlain object.toList ∧ Word.isPlain name.toList ∧
      ∀ a ∈ access.argument, a = "" ∨ Word.isPlain a.toList ∨ IsNumeral a.toList
  | .raw text => Word.isPlain text.toList ∨ IsNumeral text.toList ∧ Unsigned.read text = .ok none
  | .int _ | .arithmetic _ | .relational _ | .colon => True

/-- The lexemes with which an expression is written. -/
structure WrittenAs (e : Expression) (ls : List Lexeme) : Prop
    extends MemberText e.text.toList ls where
  forms : ∀ us following, List.Forall₂ Token.WrittenAs us ls → StandsAlone following →
    Forms following us e

theorem writtenAs_singleton {e : Expression} {l : Lexeme} (htext : e.text.toList = l.chars)
    (hfirst : l.kind ≠ .symbol .equals ∧ l.kind ≠ .symbol .period) (hlast : '\\' ∉ l.chars)
    (hforms : ∀ u following, u.WrittenAs l → StandsAlone following → Forms following [u] e) :
    e.WrittenAs [l] := by
  constructor
  · rw [htext]
    exact .of_ends (.last l) hfirst rfl (Lexeme.not_endsInEscapedBlank hlast)
  · intro us following h halone
    cases h with
    | cons hu hnil =>
      cases hnil
      exact hforms _ following hu halone

theorem writtenAs_symbol {e : Expression} {s : Symbol} (htext : e.text.toList = s.chars)
    (hfirst : s ≠ .equals ∧ s ≠ .period)
    (hforms : ∀ u following, u.isSymbol s → Forms following [u] e) :
    e.WrittenAs [.symbol s] := by
  apply writtenAs_singleton htext
  · simpa [Lexeme.symbol] using hfirst
  · intro hmem
    exact (Symbol.of_mem_chars hmem).2.2.2.2.1 rfl
  · intro u following hu _
    exact hforms u following hu.isSymbol

theorem writtenAs_arithmetic (op : Arithmetic) :
    (arithmetic op).WrittenAs [.symbol op.symbol] := by
  apply writtenAs_symbol
  · cases op <;> rfl
  · cases op <;> decide
  · exact fun u following hu => .arithmetic hu op.arithmetic?_symbol

theorem writtenAs_relational (op : Relational) :
    (relational op).WrittenAs [.symbol op.symbol] := by
  apply writtenAs_symbol
  · cases op <;> rfl
  · cases op <;> decide
  · exact fun u following hu => .relational hu op.relational?_symbol

/-- A numeral that stands for an expression. -/
theorem writtenAs_numeral {e : Expression} {s : String} (htext : e.text = s)
    (h : IsNumeral s.toList) (he : Unsigned.expression s = .ok e) : e.WrittenAs [.numeral s h] := by
  apply writtenAs_singleton
  · rw [htext]
    rfl
  · simp [Lexeme.numeral]
  · exact Piece.not_mem_backslash_numeral h
  · intro u following hu _
    apply Forms.number hu.kind
    rw [hu.lexeme_numeral, he]

theorem writtenAs_word {text : String} (h : Word.isPlain text.toList) :
    (raw text).WrittenAs [.word text h] := by
  apply writtenAs_singleton rfl
  · simp [Lexeme.word]
  · exact Word.not_mem_backslash_of_isPlain h
  · intro u following hu halone
    exact .name hu.name? halone (Unsigned.expression_of_isPlain h)

theorem writtenAs_attr {key : String} (h : Word.isPlain key.toList) (value : String) :
    (attr key value).WrittenAs [.word key h, .symbol .equals, .quoted value] := by
  have htext : (attr key value).text.toList =
      key.toList ++ (Symbol.equals.chars ++ Word.quoteChars value.toList) := by
    simp [text, Word.quote, Symbol.chars]
  have hspaced : Spaced _ [.word key h, .symbol .equals, .quoted value] :=
    .word h (.symbol _ (by simp [Lexeme.quoted, Word.quoteChars]) (.last (.quoted value)))
  constructor
  · rw [htext]
    exact .of_ends hspaced (by simp [Lexeme.word]) rfl (Lexeme.not_endsInEscapedBlank_quoted value)
  · intro us following hus _
    rcases hus with _ | ⟨hk, _ | ⟨heq, _ | ⟨hv, ⟨⟩⟩⟩⟩
    exact .attr hk.name? heq.isSymbol hv.word?_quoted

section

variable {object name : String} (ho : Word.isPlain object.toList) (hn : Word.isPlain name.toList)

theorem spaced_member :
    Spaced (Symbol.period.chars ++ name.toList) [.symbol .period, .word name hn] := by
  apply Spaced.symbol
  · have hhead := equals_not_mem_head hn []
    rwa [List.append_nil] at hhead
  · exact .last (.word name hn)

/-- What stands behind the argument of a selector. -/
theorem spaced_closing :
    Spaced (Symbol.rightAngle.chars ++ (Symbol.period.chars ++ name.toList))
      [.symbol .rightAngle, .symbol .period, .word name hn] :=
  .symbol _ (by simp [Symbol.chars]) (spaced_member hn)

/-- What stands before it. -/
theorem spaced_opening {cs : List Char} {ls : List Lexeme} (h : Spaced cs ls)
    (hhead : '=' ∉ cs.head?) :
    Spaced (Symbol.dollar.chars ++ (object.toList ++ (Symbol.leftAngle.chars ++ cs)))
      (.symbol .dollar :: .word object ho :: .symbol .leftAngle :: ls) := by
  apply Spaced.symbol
  · exact equals_not_mem_head ho _
  · exact .word ho (.symbol _ hhead h)

theorem writtenAs_trait : (trait object .direct name).WrittenAs
    [.word object ho, .symbol .period, .word name hn] := by
  have htext : (trait object .direct name).text.toList =
      object.toList ++ (Symbol.period.chars ++ name.toList) := by
    simp [text, Symbol.chars]
  constructor
  · rw [htext]
    exact .of_ends (.word ho (spaced_member hn)) (by simp [Lexeme.word]) rfl
      (Lexeme.not_endsInEscapedBlank_word hn)
  · intro us following hus _
    rcases hus with _ | ⟨hobject, _ | ⟨hperiod, _ | ⟨hname, ⟨⟩⟩⟩⟩
    exact .trait hobject.name? hperiod.isSymbol hname.name?

theorem writtenAs_selector : (trait object (.selector none) name).WrittenAs
    [.symbol .dollar, .word object ho, .symbol .period, .word name hn] := by
  have htext : (trait object (.selector none) name).text.toList =
      Symbol.dollar.chars ++ (object.toList ++ (Symbol.period.chars ++ name.toList)) := by
    simp [text, Symbol.chars]
  have hspaced : Spaced _ (.symbol .dollar :: _) :=
    .symbol _ (equals_not_mem_head ho _) (.word ho (spaced_member hn))
  constructor
  · rw [htext]
    exact .of_ends hspaced (by simp [Lexeme.symbol]) rfl (Lexeme.not_endsInEscapedBlank_word hn)
  · intro us following hus _
    rcases hus with _ | ⟨hdollar, _ | ⟨hobject, _ | ⟨hperiod, _ | ⟨hname, ⟨⟩⟩⟩⟩⟩
    exact .selector hdollar.isSymbol hobject.name? hperiod.isSymbol hname.name?

theorem writtenAs_emptySelector : (trait object (.selector (some "")) name).WrittenAs
    [.symbol .dollar, .word object ho, .symbol .leftAngle, .symbol .rightAngle, .symbol .period,
      .word name hn] := by
  have htext : (trait object (.selector (some "")) name).text.toList =
      Symbol.dollar.chars ++ (object.toList ++ (Symbol.leftAngle.chars ++
        (Symbol.rightAngle.chars ++ (Symbol.period.chars ++ name.toList)))) := by
    simp [text, Symbol.chars]
  have hspaced := spaced_opening ho (spaced_closing hn) (by simp [Symbol.chars])
  constructor
  · rw [htext]
    exact .of_ends hspaced (by simp [Lexeme.symbol]) rfl (Lexeme.not_endsInEscapedBlank_word hn)
  · intro us following hus _
    rcases hus with _ | ⟨hdollar, _ | ⟨hobject, _ | ⟨hleft, _ | ⟨hright, _ | ⟨hperiod, _ |
      ⟨hname, ⟨⟩⟩⟩⟩⟩⟩⟩
    exact .emptySelector hdollar.isSymbol hobject.name? hleft.isSymbol hright.isSymbol
      hperiod.isSymbol hname.name?

/-- A lexeme that can be the argument of a selector. -/
structure IsArgument (l : Lexeme) (argument : String) : Prop where
  chars : l.chars = argument.toList
  starts : ∀ rest, '=' ∉ (argument.toList ++ rest).head?
  ends : ∀ rest, Ends l.kind l.chars (Symbol.rightAngle.chars ++ rest)
  word? : ∀ u : Token, u.WrittenAs l → u.word? = some argument

theorem exists_isArgument {argument : String}
    (h : Word.isPlain argument.toList ∨ IsNumeral argument.toList) :
    ∃ l, IsArgument l argument := by
  rcases h with h | h
  · refine ⟨.word argument h, rfl, equals_not_mem_head h, ?_, ?_⟩
    · exact ends_word_symbol _ .rightAngle
    · exact fun u hu => hu.word?_word
  · refine ⟨.numeral argument h, rfl, ?_, ?_, ?_⟩
    · exact not_mem_head_append (Piece.exists_cons_of_isNumeral h) (by decide)
    · intro rest c hc
      cases hc
      exact ⟨by decide, by decide, nofun⟩
    · exact fun u hu => hu.word?_numeral

theorem writtenAs_givenSelector {l : Lexeme} {argument : String} (h : IsArgument l argument) :
    (trait object (.selector (some argument)) name).WrittenAs
      [.symbol .dollar, .word object ho, .symbol .leftAngle, l, .symbol .rightAngle,
        .symbol .period, .word name hn] := by
  have htext : (trait object (.selector (some argument)) name).text.toList =
      Symbol.dollar.chars ++ (object.toList ++ (Symbol.leftAngle.chars ++ (argument.toList ++
        (Symbol.rightAngle.chars ++ (Symbol.period.chars ++ name.toList))))) := by
    simp [text, Symbol.chars]
  have hargument := (spaced_closing hn).touch l (h.ends _)
  rw [h.chars] at hargument
  have hspaced := spaced_opening ho hargument (h.starts _)
  constructor
  · rw [htext]
    exact .of_ends hspaced (by simp [Lexeme.symbol]) rfl (Lexeme.not_endsInEscapedBlank_word hn)
  · intro us following hus _
    rcases hus with _ | ⟨hdollar, _ | ⟨hobject, _ | ⟨hleft, _ | ⟨hword, _ | ⟨hright, _ |
      ⟨hperiod, _ | ⟨hname, ⟨⟩⟩⟩⟩⟩⟩⟩⟩
    exact .givenSelector hdollar.isSymbol hobject.name? hleft.isSymbol (h.word? _ hword)
      hright.isSymbol hperiod.isSymbol hname.name?

end

theorem Readable.exists_writtenAs {e : Expression} (h : e.Readable) : ∃ ls, e.WrittenAs ls := by
  cases e with
  | attr key value => exact ⟨_, writtenAs_attr h value⟩
  | trait object access name =>
    obtain ⟨ho, hn, hargument⟩ := h
    match access with
    | .direct => exact ⟨_, writtenAs_trait ho hn⟩
    | .selector none => exact ⟨_, writtenAs_selector ho hn⟩
    | .selector (some argument) =>
      rcases hargument argument rfl with rfl | hword
      · exact ⟨_, writtenAs_emptySelector ho hn⟩
      · obtain ⟨l, hl⟩ := exists_isArgument hword
        exact ⟨_, writtenAs_givenSelector ho hn hl⟩
  | int value =>
    have hread := Unsigned.expression_toString value
    exact ⟨_, writtenAs_numeral (by rw [Expression.text]) (isNumeral_toString _) hread⟩
  | raw text =>
    rcases h with hplain | ⟨hnumeral, hread⟩
    · exact ⟨_, writtenAs_word hplain⟩
    · have hraw := Unsigned.expression_of_read_none hread
      exact ⟨_, writtenAs_numeral (by rw [Expression.text]) hnumeral hraw⟩
  | arithmetic op => exact ⟨_, writtenAs_arithmetic op⟩
  | relational op => exact ⟨_, writtenAs_relational op⟩
  | colon =>
    have htext : colon.text.toList = Symbol.colon.chars := rfl
    exact ⟨_, writtenAs_symbol htext (by decide) fun _ _ => .colon⟩

end Expression

/-! ## The text of a line -/

theorem StandsAlone.of_first {us : List Token} {ls : List Lexeme}
    (h : List.Forall₂ Token.WrittenAs us ls)
    (hfirst : ∀ l ∈ ls.head?, l.kind ≠ .symbol .equals ∧ l.kind ≠ .symbol .period) :
    StandsAlone us := by
  cases h with
  | nil => simp [StandsAlone]
  | @cons u l us ls hu _ =>
    obtain ⟨hequals, hperiod⟩ := hfirst l rfl
    intro v hv
    cases hv
    simp [Token.isSymbol, hu.kind, hequals, hperiod]

theorem MemberText.append {cs rest : List Char} {ls ls' : List Lexeme} (h : MemberText cs ls)
    (h' : MemberText rest ls') : MemberText (cs ++ ' ' :: rest) (ls ++ ls') := by
  have hgap : ∀ c ∈ [' '], Text.isBlank c ∧ c ≠ '\n' := List.forall_mem_singleton.mpr (by decide)
  refine ⟨h.spaced.append (List.cons_ne_nil _ _) hgap h'.spaced, ?_, ?_⟩
  · rw [List.head?_append_of_ne_nil _ h.spaced.ne_nil]
    exact h.first
  · rw [List.getLast?_append_of_ne_nil _ h'.spaced.ne_nil]
    exact h'.last

/-- Expressions that are written one space apart are read as phrases again. -/
theorem exists_phrases {es : List Expression} (hne : es ≠ []) (h : ∀ e ∈ es, e.Readable) :
    ∃ ls, MemberText (Line.join Expression.text es).toList ls ∧
      ∀ us, List.Forall₂ Token.WrittenAs us ls →
        ∃ ps, Phrases us ps ∧ ps.map Prod.snd = es := by
  induction es with
  | nil => exact absurd rfl hne
  | cons e es ih =>
    obtain ⟨he, hes⟩ := List.forall_mem_cons.mp h
    obtain ⟨ls, hwritten⟩ := he.exists_writtenAs
    cases es with
    | nil =>
      refine ⟨ls, ?_, ?_⟩
      · rw [toList_join_singleton]
        exact hwritten.toMemberText
      · intro us hus
        have hforms := hwritten.forms us [] hus (by simp [StandsAlone])
        have hphrases := Phrases.cons hforms .nil
        rw [List.append_nil] at hphrases
        exact ⟨_, hphrases, rfl⟩
    | cons e' es =>
      obtain ⟨ls', hmember, hphrases⟩ := ih (List.cons_ne_nil e' es) hes
      refine ⟨ls ++ ls', ?_, ?_⟩
      · rw [toList_join_cons]
        exact hwritten.toMemberText.append hmember
      · intro us hus
        have hfirst := List.forall₂_take_append us ls ls' hus
        have hrest := List.forall₂_drop_append us ls ls' hus
        obtain ⟨ps, hps, hmap⟩ := hphrases _ hrest
        have hforms := hwritten.forms _ _ hfirst (.of_first hrest hmember.first)
        have hall := Phrases.cons hforms hps
        rw [List.take_append_drop] at hall
        exact ⟨_, hall, congrArg (e :: ·) hmap⟩

theorem MemberText.exists_scanLine {text : String} {n : Nat} {cs : List Char} {ls : List Lexeme}
    (h : MemberText cs ls) (htext : text.toList = List.replicate n ' ' ++ cs) (file : String) :
    ∃ l, scanLine file text = .ok l ∧ l.indent = n ∧
      List.Forall₂ Token.WrittenAs l.members ls := by
  obtain ⟨c, rest, hcs, hc, -⟩ := h.spaced.exists_cons
  have hscan := scanLine_indented htext ⟨c, rest, hcs, hc⟩ (h.spaced.exists_concat h.last) file
  obtain ⟨herror, htokens⟩ := h.spaced.place file (Position.start.after (List.replicate n ' '))
  have hne : (place file (Position.start.after (List.replicate n ' '))
      (pieces cs)).tokens ≠ [] := by
    intro hnil
    rw [hnil, List.forall₂_nil_left_iff] at htokens
    exact h.spaced.ne_nil htokens
  refine ⟨⟨n, _, hne⟩, ?_, rfl, htokens⟩
  rw [hscan]
  exact LineScan.result_eq_ok herror rfl rfl

/-- The text of a line of such expressions has tokens that split into their phrases. -/
theorem exists_tokens_of_readable {l : Line Expression} (h : ∀ e ∈ l.members, e.Readable)
    (file : String) : ∃ tokens, scanLine file (l.text Expression.text) = .ok tokens ∧
      tokens.indent = l.indent ∧ ∃ ps, Phrases tokens.members ps ∧ ps.map Prod.snd = l.members := by
  obtain ⟨ls, hmember, hphrases⟩ := exists_phrases l.nonempty h
  obtain ⟨tokens, hscan, hindent, htokens⟩ :=
    hmember.exists_scanLine (l.toList_text Expression.text) file
  exact ⟨tokens, hscan, hindent, hphrases _ htokens⟩

/-- A line of expressions whose words need no escapes is read back from its text. -/
theorem extractLine_expressions {l : Line Expression} (h : ∀ e ∈ l.members, e.Readable)
    (file : String) : extractLine file (l.text Expression.text) = .ok l :=
  extractLine_eq_ok.mpr (exists_tokens_of_readable h file)

theorem extractLine_expressions_selector :
    let members : List Expression := [.raw "1.5", .attr "k" "a \"\n", .relational .less, .raw "x",
      .trait "o" (.selector (some "07")) "n", .int 7, .colon]
    let l : Line Expression := ⟨3, members, List.cons_ne_nil _ _⟩
    (∀ e ∈ l.members, e.Readable) ∧
      l.text Expression.text = "   1.5 k=\"a \\\"\n\" < x $o<07>.n 7 :" ∧
      extractLine "f" "   1.5 k=\"a \\\"\n\" < x $o<07>.n 7 :" = .ok l := by
  intro members l
  have hraw : Expression.Readable (.raw "1.5") := by
    have hnumeral : IsNumeral (['1'] ++ '.' :: ['5']) :=
      .point (by simp) (List.all_eq_true.mp (by decide)) (List.all_eq_true.mp (by decide))
    exact .inr ⟨hnumeral, rfl⟩
  have hselector : Expression.Readable (.trait "o" (.selector (some "07")) "n") := by
    have hnumeral : IsNumeral ['0', '7'] := .whole (by simp) (List.all_eq_true.mp (by decide))
    refine ⟨by decide, by decide, ?_⟩
    intro a ha
    cases ha
    exact .inr (.inr hnumeral)
  have hattr : Expression.Readable (.attr "k" "a \"\n") := by
    show Word.isPlain "k".toList
    decide
  have h : ∀ e ∈ l.members, e.Readable := by
    simp only [l, members, List.forall_mem_cons, List.not_mem_nil, false_imp_iff, implies_true]
    exact ⟨hraw, hattr, trivial, .inl (by decide), hselector, trivial, trivial, trivial⟩
  have htext : l.text Expression.text = "   1.5 k=\"a \\\"\n\" < x $o<07>.n 7 :" := by decide
  refine ⟨h, htext, ?_⟩
  rw [← htext]
  exact extractLine_expressions h "f"

end TraitMarkup
