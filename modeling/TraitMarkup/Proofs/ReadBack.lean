import TraitMarkup.Proofs.ExpressionText
import TraitMarkup.Proofs.Layout

/-!
# Expressions that are read back

A line of expressions is read back from its text only if their words need no escapes
(`extractLine_text_iff`). The phrases of the text cannot be set off against the expressions: a
phrase stands for no fewer characters than its expression is written with (`Forms.length_text_le`),
so it takes up just these, and nothing in it is escaped. For an attribute, whose value is escaped in
its text, the characters are counted as they are meant (`attr_eq_text`).
-/

namespace TraitMarkup

open Token (Kind Body Payload)

/-! ## Integers -/

namespace Unsigned

theorem of_digits? {cs ds : List Char} (h : digits? cs = some ds) :
    ds ≠ [] ∧ (∀ c ∈ ds, c.isDigit) ∧ ds.length ≤ cs.length := by
  have htrim : (Text.trim cs).length ≤ cs.length := by
    rw [Text.trim, Text.trimEnd, List.length_reverse]
    calc ((cs.dropWhile Text.isBlank).reverse.dropWhile Text.isBlank).length
        ≤ (cs.dropWhile Text.isBlank).reverse.length := (List.dropWhile_sublist _).length_le
      _ = (cs.dropWhile Text.isBlank).length := List.length_reverse
      _ ≤ cs.length := (List.dropWhile_sublist _).length_le
  rw [digits?] at h
  simp only [Option.ite_none_right_eq_some, Option.some.injEq] at h
  obtain ⟨⟨hne, hall⟩, rfl⟩ := h
  refine ⟨hne, List.all_eq_true.mp hall, ?_⟩
  split
  · rename_i ds heq
    rw [heq, List.length_cons] at htrim
    omega
  · exact htrim

theorem length_toDigits_add {n d : Nat} (hd : d < 10) :
    (Nat.toDigits 10 (10 * n + d)).length ≤ (Nat.toDigits 10 n).length + 1 := by
  have hpos : 0 < (Nat.toDigits 10 n).length := List.length_pos_iff.mpr Nat.toDigits_ne_nil
  have hlt := (Nat.length_toDigits_le_iff (by decide) hpos).mp (Nat.le_refl _)
  rw [Nat.length_toDigits_le_iff (by decide) (Nat.succ_pos _), Nat.pow_succ]
  omega

theorem digit_lt {c : Char} (h : c.isDigit) : c.toNat - '0'.toNat < 10 := by
  have hrange := Char.isDigit_iff_toNat.mp h
  have hspan : '9'.toNat = '0'.toNat + 9 := rfl
  omega

theorem length_toDigits_foldl {ds : List Char} (h : ∀ c ∈ ds, c.isDigit) (n : Nat) :
    (Nat.toDigits 10 (ds.foldl (fun n c => 10 * n + (c.toNat - '0'.toNat)) n)).length ≤
      (Nat.toDigits 10 n).length + ds.length := by
  induction ds generalizing n with
  | nil => exact Nat.le_refl _
  | cons c ds ih =>
    obtain ⟨hc, hds⟩ := List.forall_mem_cons.mp h
    have hrest := ih hds (10 * n + (c.toNat - '0'.toNat))
    have hstep := @length_toDigits_add n _ (digit_lt hc)
    rw [List.foldl_cons, List.length_cons]
    omega

/-- An integer is written with no more digits than it was read from. -/
theorem length_toDigits_valueOf {ds : List Char} (hne : ds ≠ []) (h : ∀ c ∈ ds, c.isDigit) :
    (Nat.toDigits 10 (valueOf ds)).length ≤ ds.length := by
  obtain ⟨c, ds, rfl⟩ := List.exists_cons_of_ne_nil hne
  obtain ⟨hc, hds⟩ := List.forall_mem_cons.mp h
  have hrest := length_toDigits_foldl hds (10 * 0 + (c.toNat - '0'.toNat))
  have hfirst : (Nat.toDigits 10 (10 * 0 + (c.toNat - '0'.toNat))).length ≤ 1 := by
    have hdigit := digit_lt hc
    rw [Nat.length_toDigits_le_iff (by decide) (by decide)]
    omega
  rw [valueOf, List.foldl_cons, List.length_cons]
  omega

theorem length_toString_le {text : String} {n : UInt16} (h : expression text = .ok (.int n)) :
    (toString n.toNat).toList.length ≤ text.toList.length := by
  rw [expression, read] at h
  cases hdigits : digits? text.toList with
  | none =>
    rw [hdigits] at h
    cases h
  | some ds =>
    simp only [hdigits] at h
    split at h
    · cases h
    · split at h
      · rename_i hvalue
        cases h
        obtain ⟨hne, hall, hlength⟩ := of_digits? hdigits
        have hnat : (UInt16.ofNat (valueOf ds)).toNat = valueOf ds := by
          apply UInt16.toNat_ofNat_of_lt'
          exact Nat.lt_of_le_of_lt hvalue (by decide)
        rw [hnat, Nat.toString_eq_ofList_toDigits, String.toList_ofList]
        exact Nat.le_trans (length_toDigits_valueOf hne hall) hlength
      · cases h

theorem length_text_le {text : String} {e : Expression} (h : expression text = .ok e) :
    e.text.toList.length ≤ text.toList.length := by
  rcases expression_cases h with ⟨rfl, -⟩ | ⟨n, rfl⟩
  · exact Nat.le_refl _
  · exact length_toString_le h

end Unsigned

/-! ## Phrases that take up the text of their expression -/

theorem Token.isPlain_of_name? {u : Token} {s : String} (hs : Spells u.body u.lexeme.toList)
    (h : u.name? = some s) (hu : u.lexeme.toList = u.content) : Word.isPlain s.toList := by
  obtain ⟨hform, hs⟩ := toList_of_identifier hs (name?_eq_some.mp h)
  rw [content_of_name? h, hs] at hu
  rw [hs, ← hu]
  exact hform.isPlain hu.symm

theorem Token.isPlain_of_word? {u : Token} {s : String} (hs : Spells u.body u.lexeme.toList)
    (h : u.word? = some s) (hu : u.lexeme.toList = u.content) :
    Word.isPlain s.toList ∨ IsNumeral s.toList := by
  cases hbody : u.body with
  | identifier s' =>
    have hname := name?_eq_some.mpr hbody
    obtain rfl : s' = s := Option.some.inj ((word?_of_name? hname).symm.trans h)
    exact .inl (isPlain_of_name? hs hname hu)
  | string s' =>
    have hlt := content_lt_of_string hs hbody
    rw [hu] at hlt
    exact absurd hlt (Nat.lt_irrefl _)
  | number x =>
    have hform := hs.form
    rw [hbody, Body.kind, hu, content_of_word? h] at hform
    cases hform with
    | number hn => exact .inr hn
  | _ =>
    rw [word?, hbody] at h
    cases h

/-- The text of a trait ends with its name. -/
theorem Expression.exists_text_trait (object : String) (access : Access) (name : String) :
    ∃ before, (trait object access name).text.toList = before ++ name.toList := by
  match access with
  | .direct => exact ⟨(object ++ ".").toList, by simp [text]⟩
  | .selector none => exact ⟨("$" ++ object ++ ".").toList, by simp [text]⟩
  | .selector (some argument) =>
    exact ⟨("$" ++ object ++ "<" ++ argument ++ ">.").toList, by simp [text]⟩

namespace Forms

variable {following us : List Token} {e : Expression}

/-- The tokens of a phrase stand for at least as many characters as its expression is written with,
unless some of these have to be quoted. -/
theorem length_text_le (h : Forms following us e) (hs : ∀ u ∈ us, Spells u.body u.lexeme.toList)
    (he : ∀ key value, e ≠ .attr key value) :
    e.text.toList.length ≤ (us.flatMap Token.content).length := by
  have hsymbol : ∀ u ∈ us, ∀ s, u.isSymbol s → u.content = s.chars :=
    fun u hu s => Token.content_of_isSymbol (hs u hu)
  cases h with
  | attr _ _ _ => exact absurd rfl (he _ _)
  | trait ho hp hn =>
    simp [Expression.text, Symbol.chars, Token.content_of_name? ho, Token.content_of_name? hn,
      hsymbol _ (by simp) _ hp]
  | selector hd ho hp hn =>
    simp [Expression.text, Symbol.chars, Token.content_of_name? ho, Token.content_of_name? hn,
      hsymbol _ (by simp) _ hd, hsymbol _ (by simp) _ hp]
  | emptySelector hd ho hl hr hp hn =>
    simp [Expression.text, Symbol.chars, Token.content_of_name? ho, Token.content_of_name? hn,
      hsymbol _ (by simp) _ hd, hsymbol _ (by simp) _ hl, hsymbol _ (by simp) _ hr,
      hsymbol _ (by simp) _ hp]
  | givenSelector hd ho hl ha hr hp hn =>
    simp [Expression.text, Symbol.chars, Token.content_of_name? ho, Token.content_of_word? ha,
      Token.content_of_name? hn, hsymbol _ (by simp) _ hd, hsymbol _ (by simp) _ hl,
      hsymbol _ (by simp) _ hr, hsymbol _ (by simp) _ hp]
  | name hn _ htext =>
    rw [List.flatMap_singleton, Token.content_of_name? hn]
    exact Unsigned.length_text_le htext
  | number hk htext =>
    rw [List.flatMap_singleton, Token.content_of_word? (Token.word?_of_number hk)]
    exact Unsigned.length_text_le htext
  | @string t text hbody =>
    have hword : t.word? = some text := by rw [Token.word?, hbody]
    rw [List.flatMap_singleton, Token.content_of_word? hword]
    exact Nat.le_refl _
  | colon hc =>
    rw [List.flatMap_singleton, hsymbol _ List.mem_cons_self _ hc]
    decide
  | @arithmetic t s op hsym hop =>
    rw [List.flatMap_singleton, hsymbol _ List.mem_cons_self _ hsym]
    cases s <;> cases hop <;> decide
  | @relational t s op hsym hop =>
    rw [List.flatMap_singleton, hsymbol _ List.mem_cons_self _ hsym]
    cases s <;> cases hop <;> decide

/-- A phrase whose tokens take up no more than they stand for has words without escapes only. -/
theorem readable (h : Forms following us e) (hs : ∀ u ∈ us, Spells u.body u.lexeme.toList)
    (hus : ∀ u ∈ us, u.lexeme.toList = u.content) : e.Readable := by
  have hname : ∀ u ∈ us, ∀ s, u.name? = some s → Word.isPlain s.toList :=
    fun u hu s h => Token.isPlain_of_name? (hs u hu) h (hus u hu)
  cases h with
  | attr hk _ _ => exact hname _ (by simp) _ hk
  | trait ho _ hn | selector _ ho _ hn =>
    exact ⟨hname _ (by simp) _ ho, hname _ (by simp) _ hn, by simp [Access.argument]⟩
  | emptySelector _ ho _ _ _ hn =>
    refine ⟨hname _ (by simp) _ ho, hname _ (by simp) _ hn, ?_⟩
    rintro a ⟨⟩
    exact .inl rfl
  | @givenSelector _ _ _ argument _ _ _ _ _ _ _ ho _ ha _ _ hn =>
    refine ⟨hname _ (by simp) _ ho, hname _ (by simp) _ hn, ?_⟩
    rintro a ⟨⟩
    exact .inr (Token.isPlain_of_word? (hs argument (by simp)) ha (hus argument (by simp)))
  | name hn _ htext =>
    rcases Unsigned.expression_cases htext with ⟨rfl, -⟩ | ⟨n, rfl⟩
    · exact .inl (hname _ List.mem_cons_self _ hn)
    · trivial
  | @number t _ hk htext =>
    rcases Unsigned.expression_cases htext with ⟨rfl, hread⟩ | ⟨n, rfl⟩
    · have hform := (hs t List.mem_cons_self).form
      rw [← Token.kind, hk] at hform
      cases hform with
      | number hn => exact .inr ⟨hn, hread⟩
    · trivial
  | @string t text hbody =>
    have hlt := Token.content_lt_of_string (hs t List.mem_cons_self) hbody
    rw [hus t List.mem_cons_self] at hlt
    exact absurd hlt (Nat.lt_irrefl _)
  | colon _ | arithmetic _ _ | relational _ _ => trivial

/-- An expression that ends with a name with a blank at its end is not written with a backslash at
its end. -/
theorem getLast?_text_ne (h : Forms following us e) {u : Token} (hu : us.getLast? = some u)
    (hb : u.EndsBlank) : e.text.toList.getLast? ≠ some '\\' := by
  obtain ⟨s, c, hbody, hs, hc⟩ := hb
  have hne : c ≠ '\\' := ne_of_class hc (by decide)
  -- the name is the end of the text
  have hname : ∀ {n : Token} {name : String} (before : List Char), n = u → n.name? = some name →
      (before ++ name.toList).getLast? ≠ some '\\' := by
    rintro n name before rfl hn
    obtain rfl : name = s := Body.identifier.inj ((Token.name?_eq_some.mp hn).symm.trans hbody)
    rw [List.getLast?_append, hs]
    exact fun h => hne (Option.some.inj h)
  have hother : ∀ {t : Token} {k : Kind}, t = u → t.kind = k → k ≠ .identifier → False := by
    rintro t k rfl hk hne
    rw [Token.kind, hbody] at hk
    exact hne hk.symm
  cases h with
  | @attr _ _ _ key value _ _ _ =>
    have htext : (Expression.attr key value).text.toList =
        key.toList ++ '=' :: '"' :: value.toList.flatMap (Word.escapeUnless (plainIn '"')) ++
          ['"'] := by
      simp [Expression.text, Word.quote, quoteChars_eq]
    rw [htext, List.getLast?_concat]
    decide
  | trait _ _ hn | selector _ _ _ hn | emptySelector _ _ _ _ _ hn
  | givenSelector _ _ _ _ _ _ hn =>
    obtain ⟨before, htext⟩ := Expression.exists_text_trait _ _ _
    rw [htext]
    exact hname before (Option.some.inj hu) hn
  | name hn _ htext =>
    rcases Unsigned.expression_cases htext with ⟨rfl, -⟩ | ⟨n, rfl⟩
    · exact hname [] (Option.some.inj hu) hn
    · intro hlast
      have hmem := List.mem_of_getLast? hlast
      rw [Expression.text, Nat.toString_eq_ofList_toDigits, String.toList_ofList] at hmem
      exact absurd (Unsigned.isDigit_toDigits _ hmem) (by decide)
  | number hk _ => exact (hother (Option.some.inj hu) hk (by decide)).elim
  | string hstring =>
    exact (hother (Option.some.inj hu) (congrArg Body.kind hstring) (by simp [Body.kind])).elim
  | colon hsymbol | arithmetic hsymbol _ | relational hsymbol _ =>
    exact (hother (Option.some.inj hu) (beq_iff_eq.mp hsymbol) (by simp)).elim

end Forms

/-! ## Attributes -/

theorem HasForm.eq_string {k : Kind} {l : List Char} (h : HasForm k l) (hl : l.head? = some '"') :
    k = .string := by
  cases h with
  | number hn =>
    obtain ⟨c, cs, rfl, hc⟩ := Piece.exists_cons_of_isNumeral hn
    cases hl
    exact absurd hc (by decide)
  | string => rfl
  | name hc _ =>
    cases hl
    exact absurd hc (by decide)
  | escapedName _ => cases hl
  | numeralName hn _ =>
    obtain ⟨c, cs, rfl, hc⟩ := Piece.exists_cons_of_isNumeral hn
    cases hl
    exact absurd hc (by decide)
  | symbol s => exact absurd rfl (Symbol.of_mem_chars (List.mem_of_mem_head? hl)).2.2.1

section

variable {v : Token} {value : String} {Z : List Char}

theorem unescape_quoted {quote : Char} {l : List Char} (hq : quote = '"' ∨ quote = '\'')
    (hl : Escaped (plainIn quote) l) :
    unescape (quote :: l ++ [quote]) = quote :: (unescape l ++ [quote]) := by
  have hne : quote ≠ '\\' := by rcases hq with rfl | rfl <;> decide
  have hplain : plainIn quote '\\' = false := by simp [plainIn]
  rw [List.cons_append, unescape_cons hne, hl.unescape_append hplain, unescape_cons hne,
    unescape_nil]

/-- There are no fewer characters meant in the lexeme of a word than the word has, and more if the
word is quoted. -/
theorem Token.length_le_unescape (hs : Spells v.body v.lexeme.toList) (h : v.word? = some value) :
    value.toList.length ≤ (unescape v.lexeme.toList).length ∧
      (v.kind = .string → value.toList.length < (unescape v.lexeme.toList).length) := by
  cases hbody : v.body with
  | identifier s =>
    rw [Token.word?, hbody] at h
    cases h
    refine ⟨Nat.le_of_eq (congrArg List.length (Token.toList_of_identifier hs hbody).2), ?_⟩
    simp [Token.kind, hbody, Body.kind]
  | string s =>
    rw [Token.word?, hbody] at h
    cases h
    obtain ⟨quote, l, hq, hl, hlexeme, htext⟩ := Token.toList_of_string hs hbody
    rw [hlexeme, htext, unescape_quoted hq hl, List.length_cons, List.length_append]
    omega
  | number x =>
    have hform : HasForm .number v.lexeme.toList := by
      have := hs.form
      rwa [hbody] at this
    rw [Token.word?, hbody] at h
    cases h
    cases hform with
    | number hn =>
      have hunescape := unescape_append (Piece.not_mem_backslash_numeral hn) []
      rw [unescape_nil, List.append_nil] at hunescape
      rw [hunescape]
      exact ⟨Nat.le_refl _, by simp [Token.kind, hbody, Body.kind]⟩
  | _ =>
    rw [Token.word?, hbody] at h
    cases h

/-- A lexeme at the start of a quoted text takes up all of it. -/
theorem Token.eq_nil_of_append_quoteChars (hs : Spells v.body v.lexeme.toList)
    (h : v.lexeme.toList ++ Z = Word.quoteChars value.toList) : Z = [] := by
  have hhead : v.lexeme.toList.head? = some '"' := by
    obtain ⟨c, cs, hlexeme, -⟩ := hs.form.exists_cons
    rw [hlexeme, Word.quoteChars] at h
    rw [hlexeme, (List.cons.inj h).1]
    rfl
  have hkind : v.body.kind = .string := hs.form.eq_string hhead
  cases hbody : v.body with
  | string s =>
    obtain ⟨quote, l, hq, hl, hlexeme, -⟩ := Token.toList_of_string hs hbody
    rw [hlexeme] at hhead
    cases hhead
    have hread := Piece.readLiteral_append hl (by decide) Z
    have hrest : l ++ '"' :: Z =
        value.toList.flatMap (Word.escapeUnless (plainIn '"')) ++ '"' :: [] := by
      rw [hlexeme, quoteChars_eq] at h
      simpa using h
    rw [hrest, Piece.readLiteral_append (escaped_escapeUnless _ _) (by decide)] at hread
    exact (congrArg Prod.snd hread).symm
  | _ =>
    rw [hbody] at hkind
    cases hkind

/-- Only a literal ends where a quoted text for its word ends. -/
theorem Token.kind_of_append_quote {before : List Char} (hs : Spells v.body v.lexeme.toList)
    (hv : v.word? = some value) (h : before ++ v.lexeme.toList =
      value.toList.flatMap (Word.escapeUnless (plainIn '"')) ++ ['"']) : v.kind = .string := by
  obtain ⟨lead, c, hlexeme⟩ : ∃ lead c, v.lexeme.toList = lead ++ [c] := by
    obtain ⟨c, cs, hcs, -⟩ := hs.form.exists_cons
    exact ⟨_, _, hcs.trans (List.dropLast_concat_getLast (List.cons_ne_nil c cs)).symm⟩
  rw [hlexeme, ← List.append_assoc] at h
  obtain ⟨hbefore, hc⟩ := List.append_inj' h rfl
  obtain rfl : c = '"' := List.singleton_inj.mp hc
  cases hbody : v.body with
  | string s => exact congrArg Body.kind hbody
  | identifier s =>
    -- in the name the quote is after a backslash, in the quoted text it is after one of its own
    obtain ⟨hform, htext⟩ := Token.toList_of_identifier hs hbody
    rw [Token.word?, hbody] at hv
    obtain rfl : s = value := Option.some.inj hv
    obtain ⟨lead', rfl⟩ := hform.exists_pair hlexeme (by decide)
    have hvalue : s.toList.getLast? = some '"' := by
      rw [htext, hform.getLast?_unescape, hlexeme, List.getLast?_concat]
    obtain ⟨text, hvalue⟩ := List.getLast?_eq_some_iff.mp hvalue
    have hlast := congrArg List.getLast? hbefore
    rw [hvalue] at hlast
    simp [Word.escapeUnless, plainIn, List.getLast?_append, List.getLast?_cons] at hlast
  | number x =>
    have hform := hs.form
    rw [hbody, Body.kind, hlexeme] at hform
    cases hform with
    | number hn =>
      have hquote := hn.not_mem (c := '"') (by decide) (by decide)
      simp at hquote
  | _ =>
    rw [Token.word?, hbody] at hv
    cases hv

/-- A quoted text for a word has no equals sign in it after which the word is written. -/
theorem Token.not_inside_quoteChars {W gap : List Char} (hs : Spells v.body v.lexeme.toList)
    (hv : v.word? = some value)
    (h : W ++ '=' :: (gap ++ (v.lexeme.toList ++ Z)) =
      value.toList.flatMap (Word.escapeUnless (plainIn '"')) ++ ['"']) : False := by
  have hmeant :
      (unescape (value.toList.flatMap (Word.escapeUnless (plainIn '"')) ++ ['"'])).length =
        value.toList.length + 1 := by
    rw [(escaped_escapeUnless _ _).unescape_append (by decide), unescape_escapeUnless (by decide)]
    simp [unescape]
  have hcount : 1 + (unescape v.lexeme.toList).length + (unescape Z).length ≤
      value.toList.length + 1 := by
    have hequals := length_unescape_append W ('=' :: (gap ++ (v.lexeme.toList ++ Z)))
    have hgap := length_unescape_append gap (v.lexeme.toList ++ Z)
    rw [h, hmeant, unescape_cons (by decide), List.length_cons] at hequals
    rw [hs.form.unescape_append, List.length_append] at hgap
    omega
  obtain ⟨hle, hlt⟩ := Token.length_le_unescape hs hv
  -- nothing is left for the quote at the end, so the word ends with it
  obtain rfl : Z = [] := eq_nil_of_unescape (List.length_eq_zero_iff.mp (by omega))
  have hend : (W ++ '=' :: gap) ++ v.lexeme.toList =
      value.toList.flatMap (Word.escapeUnless (plainIn '"')) ++ ['"'] := by
    rw [← h]
    simp
  have hmore := hlt (Token.kind_of_append_quote hs hv hend)
  omega

theorem eq_nil_of_gap {gap cs ds : List Char} {d : Char}
    (hgap : ∀ c ∈ gap.head?, Text.isBlank c ∨ c = '#') (h : gap ++ cs = d :: ds)
    (hd : Text.isBlank d = false) (hh : d ≠ '#') : gap = [] := by
  match gap with
  | [] => rfl
  | c :: gap =>
    obtain rfl := (List.cons.inj h).1
    rcases hgap c rfl with hc | hc
    · rw [hd] at hc
      cases hc
    · exact absurd hc hh

variable {k equals : Token} {key : String} {pre A gap gap' : List Char}

theorem attr_aligned (hsk : Spells k.body k.lexeme.toList) (hsv : Spells v.body v.lexeme.toList)
    (hk : k.name? = some key) (hgap : ∀ c ∈ gap.head?, Text.isBlank c ∨ c = '#')
    (hgap' : ∀ c ∈ gap'.head?, Text.isBlank c ∨ c = '#')
    (hkey : pre ++ k.lexeme.toList = key.toList)
    (hrest : gap ++ '=' :: (gap' ++ (v.lexeme.toList ++ Z)) =
      '=' :: Word.quoteChars value.toList) :
    pre = [] ∧ Z = [] ∧ Word.isPlain key.toList := by
  obtain ⟨hform, hmeant⟩ := Token.toList_of_identifier hsk (Token.name?_eq_some.mp hk)
  obtain rfl : pre = [] := by
    have hlength := congrArg List.length hkey
    have hle := length_unescape_le k.lexeme.toList
    rw [List.length_append, hmeant] at hlength
    exact List.length_eq_zero_iff.mp (by omega)
  obtain rfl := eq_nil_of_gap hgap hrest (by decide) (by decide)
  have hvalue : gap' ++ (v.lexeme.toList ++ Z) = Word.quoteChars value.toList :=
    (List.cons.inj hrest).2
  obtain rfl := eq_nil_of_gap hgap' hvalue (by decide) (by decide)
  refine ⟨rfl, Token.eq_nil_of_append_quoteChars hsv hvalue, ?_⟩
  rw [← hkey]
  exact hform.isPlain (hmeant.symm.trans hkey.symm)

theorem Laid.exists_gaps (h : Laid A [k, equals, v]) : ∃ gap gap',
    A = k.lexeme.toList ++ (gap ++ (equals.lexeme.toList ++ (gap' ++ v.lexeme.toList))) ∧
      (∀ c ∈ gap.head?, Text.isBlank c ∨ c = '#') ∧
      ∀ c ∈ gap'.head?, Text.isBlank c ∨ c = '#' := by
  cases h with
  | @cons _ gap _ _ hgap hrest =>
    cases hrest with
    | @cons _ gap' _ _ hgap' hrest =>
      cases hrest with
      | last => exact ⟨gap, gap', rfl, hgap, hgap'⟩
      | cons _ hnil => cases hnil

/-- The phrase of an attribute in the text of the attribute takes up all of it. The key cannot reach
into the quoted value, for there is not enough left of it then to give the value again. -/
theorem attr_eq_text (hsk : Spells k.body k.lexeme.toList)
    (hse : Spells equals.body equals.lexeme.toList) (hsv : Spells v.body v.lexeme.toList)
    (hk : k.name? = some key) (hequals : equals.isSymbol .equals) (hv : v.word? = some value)
    (hA : Laid A [k, equals, v])
    (h : pre ++ (A ++ Z) = (Expression.attr key value).text.toList) :
    pre = [] ∧ Z = [] ∧ Word.isPlain key.toList := by
  obtain ⟨gap, gap', rfl, hgap, hgap'⟩ := hA.exists_gaps
  have hsplit : (pre ++ k.lexeme.toList) ++ (gap ++ '=' :: (gap' ++ (v.lexeme.toList ++ Z))) =
      key.toList ++ '=' :: Word.quoteChars value.toList := by
    have htext : (Expression.attr key value).text.toList =
        key.toList ++ '=' :: Word.quoteChars value.toList := by
      simp [Expression.text, Word.quote]
    rw [htext, Token.lexeme_of_isSymbol hse hequals] at h
    simpa [Symbol.chars] using h
  rcases List.append_eq_append_iff.mp hsplit with ⟨as, hkey, hrest⟩ | ⟨bs, hkey, hrest⟩
  · obtain ⟨-, hmeant⟩ := Token.toList_of_identifier hsk (Token.name?_eq_some.mp hk)
    obtain rfl : as = [] := by
      have hlength := congrArg List.length hkey
      have hle := length_unescape_le k.lexeme.toList
      rw [List.length_append, List.length_append, hmeant] at hlength
      exact List.length_eq_zero_iff.mp (by omega)
    rw [List.append_nil] at hkey
    exact attr_aligned hsk hsv hk hgap hgap' hkey.symm hrest
  · rcases bs with _ | ⟨b, _ | ⟨quote, W⟩⟩
    · rw [List.append_nil] at hkey
      exact attr_aligned hsk hsv hk hgap hgap' hkey hrest.symm
    · have hquoted : gap ++ '=' :: _ = Word.quoteChars value.toList := (List.cons.inj hrest).2.symm
      obtain rfl := eq_nil_of_gap hgap hquoted (by decide) (by decide)
      cases (List.cons.inj hquoted).1
    · have hquoted : (W ++ gap) ++ '=' :: (gap' ++ (v.lexeme.toList ++ Z)) =
          value.toList.flatMap (Word.escapeUnless (plainIn '"')) ++ ['"'] := by
        rw [List.append_assoc]
        exact (List.cons.inj (List.cons.inj hrest).2).2.symm
      exact (Token.not_inside_quoteChars hsv hv hquoted).elim

end

namespace Forms

variable {following us : List Token} {e : Expression} {pre A Z : List Char}

/-- A phrase in the text of its expression takes up all of it. -/
theorem eq_text (h : Forms following us e) (hs : ∀ u ∈ us, Spells u.body u.lexeme.toList)
    (hA : Laid A us) (htext : pre ++ (A ++ Z) = e.text.toList) :
    pre = [] ∧ Z = [] ∧ e.Readable := by
  by_cases he : ∀ key value, e ≠ .attr key value
  · have hle := h.length_text_le hs he
    have hlength := congrArg List.length htext
    rw [List.length_append, List.length_append] at hlength
    rcases hA.content_cases hs with ⟨hcontent, hus⟩ | hlt
    · have hcount := congrArg List.length hcontent
      exact ⟨List.length_eq_zero_iff.mp (by omega), List.length_eq_zero_iff.mp (by omega),
        h.readable hs hus⟩
    · omega
  · simp only [not_forall, not_not] at he
    obtain ⟨key, value, rfl⟩ := he
    cases h with
    | attr hk hequals hv =>
      obtain ⟨hsk, hse, hsv, -⟩ := by simpa only [List.forall_mem_cons] using hs
      exact attr_eq_text hsk hse hsv hk hequals hv hA htext
    | name _ _ hword | number _ hword =>
      rcases Unsigned.expression_cases hword with ⟨hraw, -⟩ | ⟨n, hint⟩
      · cases hraw
      · cases hint

/-- A phrase does not take up the space after the text of its expression. -/
theorem append_ne_text_space (h : Forms following us e)
    (hs : ∀ u ∈ us, Spells u.body u.lexeme.toList) (hA : Laid A us) :
    pre ++ A ≠ e.text.toList ++ [' '] := by
  intro htext
  obtain ⟨before, u, hu, rfl⟩ := hA.exists_concat
  have hsu := hs u (List.mem_of_getLast? hu)
  have hblank : u.EndsBlank := by
    by_contra hb
    obtain ⟨lead, c, hlexeme, hc⟩ := Token.exists_concat hsu hb
    rw [hlexeme, ← List.append_assoc, ← List.append_assoc] at htext
    obtain rfl := List.singleton_inj.mp (List.append_inj' htext rfl).2
    exact absurd hc (by decide)
  -- the blank is escaped, and only the backslash is left for the text
  have hne := h.getLast?_text_ne hu hblank
  obtain ⟨s, c, hbody, hlast, hc⟩ := hblank
  obtain ⟨hform, hmeant⟩ := Token.toList_of_identifier hsu hbody
  have hlexeme : u.lexeme.toList.getLast? = some c := by
    rw [← hform.getLast?_unescape, ← hmeant, hlast]
  obtain ⟨lead, hlexeme⟩ := List.getLast?_eq_some_iff.mp hlexeme
  obtain ⟨lead', rfl⟩ := hform.exists_pair hlexeme (Word.not_isContinue_of_isBlank hc)
  have hend : (pre ++ (before ++ lead') ++ ['\\']) ++ [c] = e.text.toList ++ [' '] := by
    rw [hlexeme] at htext
    simpa using htext
  apply hne
  rw [← (List.append_inj' hend rfl).1, List.getLast?_concat]

theorem eq_text_space (h : Forms following us e) (hs : ∀ u ∈ us, Spells u.body u.lexeme.toList)
    (hA : Laid A us) (htext : pre ++ (A ++ Z) = e.text.toList ++ [' ']) :
    pre = [] ∧ Z = [' '] ∧ e.Readable := by
  rcases List.eq_nil_or_concat Z with rfl | ⟨Z', c, rfl⟩
  · rw [List.append_nil] at htext
    exact absurd htext (h.append_ne_text_space hs hA)
  · rw [List.concat_eq_append, ← List.append_assoc, ← List.append_assoc] at htext
    obtain ⟨htext, hc⟩ := List.append_inj' htext rfl
    rw [List.append_assoc] at htext
    obtain ⟨rfl, rfl, hreadable⟩ := h.eq_text hs hA htext
    exact ⟨rfl, hc, hreadable⟩

theorem ne_nil (h : Forms following us e) : us ≠ [] := by
  cases h <;> exact List.cons_ne_nil _ _

end Forms

/-! ## Lines -/

theorem Phrases.ne_nil {ts : List Token} {p : List Token × Expression}
    {ps : List (List Token × Expression)} (h : Phrases ts (p :: ps)) : ts ≠ [] := by
  cases h with
  | cons hforms _ => exact List.append_ne_nil_of_left_ne_nil hforms.ne_nil _

/-- Phrases that are found in the text of their expressions take up all of it, and none of the
expressions needs escapes. -/
theorem Phrases.readable {ts : List Token} {ps : List (List Token × Expression)}
    {pre X tail : List Char} (h : Phrases ts ps)
    (hs : ∀ u ∈ ts, Spells u.body u.lexeme.toList) (hX : Laid X ts)
    (htext : pre ++ (X ++ tail) = (Line.join Expression.text (ps.map Prod.snd)).toList) :
    pre = [] ∧ tail = [] ∧ ∀ e ∈ ps.map Prod.snd, e.Readable := by
  induction h generalizing pre X with
  | nil => exact absurd rfl hX.ne_nil
  | @cons phrase rest e ps hforms hrest ih =>
    obtain ⟨hphrase, hsrest⟩ := List.forall_mem_append.mp hs
    cases ps with
    | nil =>
      cases hrest
      rw [List.append_nil] at hX
      rw [List.map_singleton, toList_join_singleton] at htext
      obtain ⟨rfl, rfl, hreadable⟩ := hforms.eq_text hphrase hX htext
      exact ⟨rfl, rfl, List.forall_mem_singleton.mpr hreadable⟩
    | cons q qs =>
      obtain ⟨A, gap, Y, rfl, hA, hY⟩ := hX.split hforms.ne_nil hrest.ne_nil
      have hsplit : (pre ++ (A ++ gap)) ++ (Y ++ tail) = (e.text.toList ++ [' ']) ++
          (Line.join Expression.text ((q :: qs).map Prod.snd)).toList := by
        rw [List.map_cons, List.map_cons, toList_join_cons] at htext
        simpa using htext
      -- the rest of the phrases is found in the text of the rest of the expressions, or it starts
      -- with the space before that text at the latest, which no lexeme does
      rcases List.append_eq_append_iff.mp hsplit with ⟨as, hfirst, hothers⟩ | ⟨bs, hfirst, hothers⟩
      · rw [List.append_assoc, List.append_assoc] at hfirst
        obtain ⟨rfl, hgap, hreadable⟩ := hforms.eq_text_space hphrase hA hfirst.symm
        match as with
        | [] =>
          obtain ⟨-, rfl, hes⟩ := @ih [] Y hsrest hY hothers
          exact ⟨rfl, rfl, List.forall_mem_cons.mpr ⟨hreadable, hes⟩⟩
        | a :: as =>
          have ha : a ∈ [' '] := by
            rw [← hgap]
            simp
          obtain ⟨c, cs, rfl, hc⟩ := hY.exists_cons hsrest
          obtain rfl : c = a := (List.cons.inj hothers).1
          rw [List.mem_singleton.mp ha] at hc
          exact absurd hc (by decide)
      · obtain ⟨rfl, rfl, hes⟩ := ih hsrest hY hothers.symm
        rw [List.append_nil] at hfirst
        obtain ⟨rfl, -, hreadable⟩ := hforms.eq_text_space hphrase hA hfirst
        exact ⟨rfl, rfl, List.forall_mem_cons.mpr ⟨hreadable, hes⟩⟩

theorem LineScan.of_result {file : String} {s : LineScan} {l : Line Token}
    (h : s.result file = .ok l) : s.error = none ∧ s.indent = l.indent := by
  unfold result at h
  split at h
  · cases h
  · rename_i herror
    split at h
    · cases h
    · cases h
      exact ⟨herror, rfl⟩

/-- The indent of a line that is scanned is all of the blanks at its start. -/
theorem LineScan.exists_place {file : String} {cs : List Char} {l : Line Token}
    (h : (ofChars file cs).result file = .ok l) :
    l.indent = (cs.takeWhile Text.isBlank).length ∧
      ∃ p, (place file p (pieces (cs.dropWhile Text.isBlank))).error = none ∧
        l.members = (place file p (pieces (cs.dropWhile Text.isBlank))).tokens := by
  unfold ofChars at h
  simp only at h
  split at h
  · cases (of_result h).1
  · rename_i hle
    obtain ⟨herror, hindent⟩ := of_result h
    refine ⟨?_, _, herror, members_eq h⟩
    exact hindent.symm.trans
      (Nat.le_antisymm (List.takeWhile_sublist _).length_le (Nat.le_of_not_lt hle))

/-- Where spaces are the indent of a line, its tokens are laid out in what follows them. -/
theorem exists_laid_of_scanLine {file text : String} {tokens : Line Token} {cs : List Char}
    (htext : text.toList = List.replicate tokens.indent ' ' ++ cs)
    (h : scanLine file text = .ok tokens) :
    ∃ pre X tail, pre ++ (X ++ tail) = cs ∧ Laid X tokens.members := by
  obtain ⟨hindent, p, herror, hmembers⟩ := LineScan.exists_place h
  have hcovers := (cut_pieces ((trimmed text).dropWhile Text.isBlank)).covers herror
  rw [← hmembers] at hcovers
  obtain ⟨gap, X, tail, hrest, -, hX⟩ := hcovers.exists_laid tokens.nonempty
  obtain ⟨ws, hws, -⟩ := Text.exists_trimEnd_append text.toList
  refine ⟨gap, X, tail ++ ws, ?_, hX⟩
  have hsplit : (trimmed text).takeWhile Text.isBlank ++ (gap ++ (X ++ (tail ++ ws))) =
      List.replicate tokens.indent ' ' ++ cs := by
    calc (trimmed text).takeWhile Text.isBlank ++ (gap ++ (X ++ (tail ++ ws)))
        = ((trimmed text).takeWhile Text.isBlank ++ (gap ++ (X ++ tail))) ++ ws := by simp
      _ = trimmed text ++ ws := by rw [← hrest, List.takeWhile_append_dropWhile]
      _ = List.replicate tokens.indent ' ' ++ cs := hws.symm.trans htext
  exact (List.append_inj hsplit (by rw [← hindent, List.length_replicate])).2

/-- A line of expressions is read back from its text if and only if no word in it needs an escape,
and no text in it is an integer. -/
theorem extractLine_text_iff (l : Line Expression) (file : String) :
    extractLine file (l.text Expression.text) = .ok l ↔ ∀ e ∈ l.members, e.Readable := by
  constructor
  · intro h
    obtain ⟨tokens, hscan, hindent, ps, hps, hmembers⟩ := extractLine_eq_ok.mp h
    have htext := l.toList_text Expression.text
    rw [← hindent] at htext
    obtain ⟨pre, X, tail, hsplit, hX⟩ := exists_laid_of_scanLine htext hscan
    rw [← hmembers] at hsplit ⊢
    exact (hps.readable (spells_of_scanLine hscan) hX hsplit).2.2
  · intro h
    exact extractLine_eq_ok.mpr (exists_tokens_of_readable h file)

/-- A name with an escaped blank, which has no literal in it, is not read back. -/
theorem extractLine_escaped_blank :
    ∃ tokens l, scanLine "f" "a\\ b" = .ok tokens ∧ (∀ u ∈ tokens.members, u.kind ≠ .string) ∧
      extractLine "f" "a\\ b" = .ok l ∧ l.members = [.raw "a b"] ∧
      l.text Expression.text = "a b" ∧ extractLine "f" (l.text Expression.text) ≠ .ok l := by
  let tokens : Line Token :=
    ⟨0, [⟨.identifier "a b", "a\\ b", ⟨"f", 1, 1, 0⟩⟩], List.cons_ne_nil _ _⟩
  let l : Line Expression := ⟨0, [.raw "a b"], List.cons_ne_nil _ _⟩
  have hscan : scanLine "f" "a\\ b" = .ok tokens :=
    LineScan.result_eq_ok (by decide +kernel) (by decide +kernel) (by decide +kernel)
  have hreduce : reduce tokens.members = .ok l.members := eq_ok_of_toOption (by decide +kernel)
  have htext : l.text Expression.text = "a b" := by decide +kernel
  obtain ⟨hne, hline⟩ := reduceLine_eq_ok hreduce
  have hextract : extractLine "f" "a\\ b" = .ok l := by
    simp only [extractLine, hscan, hline]
    rfl
  refine ⟨tokens, l, hscan, List.forall_mem_singleton.mpr (by decide), hextract, rfl, htext, ?_⟩
  have hagain : (extractLine "f" "a b").toOption.map (·.members) = some [.raw "a", .raw "b"] := by
    decide +kernel
  rw [htext]
  intro h
  rw [h] at hagain
  exact absurd hagain (by decide)

end TraitMarkup
