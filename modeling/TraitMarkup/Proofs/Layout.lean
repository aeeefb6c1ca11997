import TraitMarkup.Proofs.Coverage
import TraitMarkup.Proofs.ExpressionText

/-!
# Tokens in a text

How many characters tokens take up in a text, and how many they stand for. Without its backslashes a
text never gets longer, wherever its escapes are taken to start (`length_unescape_append`), and a
token takes up more characters than it stands for unless it is written with no escapes or quotes at
all (`Token.content_cases`). The same holds of tokens that follow each other (`Laid.content_cases`).
-/

namespace TraitMarkup

open Token (Kind Body Payload)

/-! ## Characters that are meant -/

theorem unescape_eq_or_lt (cs : List Char) :
    unescape cs = cs ∨ (unescape cs).length < cs.length := by
  fun_induction unescape cs with
  | case1 => exact .inl rfl
  | case2 c cs ih =>
    right
    rcases ih with ih | ih
    · simp [ih]
    · simp only [List.length_cons]
      omega
  | case3 c cs _ ih =>
    rcases ih with ih | ih
    · exact .inl (congrArg (c :: ·) ih)
    · right
      simp only [List.length_cons]
      omega

theorem eq_nil_of_unescape {cs : List Char} (h : unescape cs = []) : cs = [] := by
  fun_induction unescape cs with
  | case1 => rfl
  | case2 => cases h
  | case3 => cases h

theorem length_unescape_le (cs : List Char) : (unescape cs).length ≤ cs.length := by
  rcases unescape_eq_or_lt cs with h | h
  · exact Nat.le_of_eq (congrArg List.length h)
  · exact Nat.le_of_lt h

/-- Even if a backslash in front changes what the other backslashes escape, there is no less that is
meant. -/
theorem length_unescape_cons (c : Char) (cs : List Char) :
    (unescape cs).length ≤ (unescape (c :: cs)).length := by
  by_cases hc : c = '\\'
  · subst hc
    match cs with
    | [] => simp
    | [d] => simp [unescape]
    | d :: e :: cs =>
      rw [unescape_pair]
      by_cases hd : d = '\\'
      · subst hd
        have ih := length_unescape_cons e cs
        rw [unescape_pair, List.length_cons, List.length_cons]
        omega
      · exact Nat.le_of_eq (congrArg List.length (unescape_cons hd (e :: cs)))
  · rw [unescape_cons hc, List.length_cons]
    omega

theorem length_unescape_append (xs cs : List Char) :
    (unescape cs).length ≤ (unescape (xs ++ cs)).length := by
  induction xs with
  | nil => exact Nat.le_refl _
  | cons x xs ih => exact Nat.le_trans ih (length_unescape_cons x (xs ++ cs))

namespace Escaped

variable {plain plain' : Char → Bool} {l cs : List Char}

theorem mono (h : Escaped plain l) (hp : ∀ c, plain c → plain' c) : Escaped plain' l := by
  induction h with
  | nil => exact .nil
  | plain hc _ ih => exact .plain (hp _ hc) ih
  | pair _ ih => exact .pair ih

theorem append (h : Escaped plain l) (h' : Escaped plain cs) : Escaped plain (l ++ cs) := by
  induction h with
  | nil => exact h'
  | plain hc _ ih => exact .plain hc ih
  | pair _ ih => exact .pair ih

theorem unescape_append (h : Escaped plain l) (hb : plain '\\' = false) (cs : List Char) :
    unescape (l ++ cs) = unescape l ++ unescape cs := by
  induction h with
  | nil => simp
  | plain hc _ ih =>
    have hne := ne_of_class hc hb
    rw [List.cons_append, unescape_cons hne, unescape_cons hne, ih, List.cons_append]
  | pair _ ih =>
    rw [List.cons_append, List.cons_append, unescape_pair, unescape_pair, ih, List.cons_append]

/-- What is meant as it is written is written without escapes. -/
theorem forall_plain (h : Escaped plain l) (hu : unescape l = l) (hb : plain '\\' = false) :
    ∀ c ∈ l, plain c := by
  induction h with
  | nil => simp
  | plain hc _ ih =>
    rw [unescape_cons (ne_of_class hc hb), List.cons_inj_right] at hu
    exact List.forall_mem_cons.mpr ⟨hc, ih hu⟩
  | @pair c cs _ _ =>
    have hlength := congrArg List.length hu
    have := length_unescape_le cs
    rw [unescape_pair, List.length_cons, List.length_cons, List.length_cons] at hlength
    omega

end Escaped

namespace HasForm

variable {k : Kind} {l : List Char}

/-- No lexeme ends in the middle of an escape. -/
theorem escaped (h : HasForm k l) : Escaped (· != '\\') l := by
  have hword : ∀ {l : List Char}, Escaped Word.isContinue l → Escaped (· != '\\') l :=
    fun hl => hl.mono fun c hc => bne_iff_ne.mpr (ne_of_class hc Piece.not_isContinue_backslash)
  have hplain : ∀ {l : List Char}, '\\' ∉ l → Escaped (· != '\\') l := by
    intro l hl
    apply Escaped.of_forall
    intro c hc
    exact bne_iff_ne.mpr fun heq => hl (heq ▸ hc)
  cases h with
  | number hn => exact hplain (Piece.not_mem_backslash_numeral hn)
  | @string quote l hq hl =>
    have hquote : quote != '\\' := by rcases hq with rfl | rfl <;> decide
    have hinner : Escaped (· != '\\') l := hl.mono fun c hc => by
      simp only [plainIn, Bool.and_eq_true] at hc
      exact hc.1
    exact .plain hquote (hinner.append (.plain hquote .nil))
  | name hc hl => exact .plain (bne_iff_ne.mpr (ne_of_class hc (by decide))) (hword hl)
  | escapedName hl => exact .pair (hword hl)
  | numeralName hn hl =>
    exact (hplain (Piece.not_mem_backslash_numeral hn)).append (.pair (hword hl))
  | symbol s => exact hplain fun hmem => (Symbol.of_mem_chars hmem).2.2.2.2.1 rfl

theorem unescape_append (h : HasForm k l) (cs : List Char) :
    unescape (l ++ cs) = unescape l ++ unescape cs :=
  h.escaped.unescape_append rfl cs

/-- A name that is meant as it is written is plain. -/
theorem isPlain (h : HasForm .identifier l) (hu : unescape l = l) : Word.isPlain l := by
  have hb := Piece.not_isContinue_backslash
  cases h with
  | @name c l hc hl =>
    rw [unescape_cons (ne_of_class hc (by decide)), List.cons_inj_right] at hu
    rw [Word.isPlain, Bool.and_eq_true, List.all_eq_true]
    exact ⟨hc, hl.forall_plain hu hb⟩
  | @escapedName c l hl =>
    exact absurd (hl.pair.forall_plain hu hb '\\' List.mem_cons_self) (by decide)
  | @numeralName n c l hn hl =>
    rw [TraitMarkup.unescape_append (Piece.not_mem_backslash_numeral hn),
      List.append_cancel_left_eq] at hu
    exact absurd (hl.pair.forall_plain hu hb '\\' List.mem_cons_self) (by decide)

end HasForm

/-! ## What a token carries -/

namespace Token

/-- The characters that a token stands for: those of a word as they are meant, those of a symbol as
they are written. -/
def content (u : Token) : List Char := (u.word?.getD u.lexeme).toList

variable {u : Token} {s : String}

theorem content_of_word? (h : u.word? = some s) : u.content = s.toList := by
  rw [content, h, Option.getD_some]

theorem word?_of_name? (h : u.name? = some s) : u.word? = some s := by
  rw [word?, name?_eq_some.mp h]

theorem word?_of_number (h : u.kind = .number) : u.word? = some u.lexeme := by
  cases hbody : u.body with
  | number x => rw [word?, hbody]
  | _ =>
    rw [kind, hbody] at h
    cases h

theorem content_of_name? (h : u.name? = some s) : u.content = s.toList :=
  content_of_word? (word?_of_name? h)

theorem lexeme_of_isSymbol {symbol : Symbol} (hs : Spells u.body u.lexeme.toList)
    (h : u.isSymbol symbol) : u.lexeme.toList = symbol.chars := by
  obtain ⟨carried, hbody⟩ := isSymbol_iff.mp h
  have hform := hs.form
  rw [hbody, Body.kind] at hform
  generalize u.lexeme.toList = l at hform
  cases hform
  rfl

theorem content_of_isSymbol {symbol : Symbol} (hs : Spells u.body u.lexeme.toList)
    (h : u.isSymbol symbol) : u.content = symbol.chars := by
  obtain ⟨carried, hbody⟩ := isSymbol_iff.mp h
  rw [← lexeme_of_isSymbol hs h, content, word?, hbody]
  rfl

theorem toList_of_identifier (hs : Spells u.body u.lexeme.toList) (h : u.body = .identifier s) :
    HasForm .identifier u.lexeme.toList ∧ s.toList = unescape u.lexeme.toList := by
  rw [h] at hs
  have hpayload : Payload.text s = .text (String.ofList (unescape u.lexeme.toList)) := hs.payload
  exact ⟨hs.form, by rw [Payload.text.inj hpayload, String.toList_ofList]⟩

theorem toList_of_string (hs : Spells u.body u.lexeme.toList) (h : u.body = .string s) :
    ∃ quote l, (quote = '"' ∨ quote = '\'') ∧ Escaped (plainIn quote) l ∧
      u.lexeme.toList = quote :: l ++ [quote] ∧ s.toList = unescape l := by
  rw [h] at hs
  obtain ⟨hform, hpayload⟩ := hs
  rw [Body.kind] at hform
  generalize u.lexeme.toList = lexeme at hform hpayload
  cases hform with
  | @string quote l hq hl =>
    have htext : Payload.text s = _ := hpayload
    refine ⟨quote, l, hq, hl, rfl, ?_⟩
    rw [Payload.text.inj htext, String.toList_ofList, List.cons_append, List.tail_cons,
      List.dropLast_concat]

theorem content_lt_of_string (hs : Spells u.body u.lexeme.toList) (h : u.body = .string s) :
    u.content.length < u.lexeme.toList.length := by
  obtain ⟨quote, l, -, -, hlexeme, hcontent⟩ := toList_of_string hs h
  have hle := length_unescape_le l
  rw [content, word?, h, Option.getD_some, hcontent, hlexeme, List.length_append,
    List.length_cons]
  omega

/-- A token takes up more characters than it stands for, or just these. -/
theorem content_cases (hs : Spells u.body u.lexeme.toList) :
    u.lexeme.toList = u.content ∨ u.content.length < u.lexeme.toList.length := by
  cases hbody : u.body with
  | marker m carried =>
    have hform := hs.form
    rw [hbody] at hform
    cases hform
  | symbol symbol carried =>
    left
    rw [content, word?, hbody]
    rfl
  | number x =>
    left
    rw [content, word?, hbody]
    rfl
  | identifier s =>
    obtain ⟨-, hcontent⟩ := toList_of_identifier hs hbody
    rw [content_of_name? (name?_eq_some.mpr hbody), hcontent]
    rcases unescape_eq_or_lt u.lexeme.toList with h | h
    · exact .inl h.symm
    · exact .inr h
  | string s => exact .inr (content_lt_of_string hs hbody)

end Token

/-! ## Tokens in a text -/

/-- The lexemes of tokens one after the other. What is between two of them starts with a blank or
with a comment. -/
inductive Laid : List Char → List Token → Prop where
  | last (u : Token) : Laid u.lexeme.toList [u]
  | cons {u : Token} {gap cs : List Char} {us : List Token} :
      (∀ c ∈ gap.head?, Text.isBlank c ∨ c = '#') → Laid cs us →
      Laid (u.lexeme.toList ++ (gap ++ cs)) (u :: us)

theorem Skipped.head {rest gap : List Char} (h : Skipped rest gap) :
    ∀ c ∈ gap.head?, Text.isBlank c ∨ c = '#' := by
  cases h with
  | nil => simp
  | blank hc _ =>
    rintro c ⟨⟩
    exact .inl hc
  | comment _ _ _ =>
    rintro c ⟨⟩
    exact .inr rfl

/-- Tokens that cover a text are laid out in it. -/
theorem Covers.exists_laid {n : Nat} {cs : List Char} {us : List Token} (h : Covers n cs us)
    (hne : us ≠ []) : ∃ gap X tail, cs = gap ++ (X ++ tail) ∧
      (∀ c ∈ gap.head?, Text.isBlank c ∨ c = '#') ∧ Laid X us := by
  induction h with
  | done _ => exact absurd rfl hne
  | @token n gap l rest u us hgap hl _ _ ih =>
    have hlexeme : l = u.lexeme.toList := by rw [hl, String.toList_ofList]
    cases us with
    | nil => exact ⟨gap, l, rest, rfl, hgap.head, hlexeme ▸ .last u⟩
    | cons v us =>
      obtain ⟨gap', X, tail, rfl, hgap', hlaid⟩ := ih (List.cons_ne_nil v us)
      refine ⟨gap, l ++ (gap' ++ X), tail, by simp, hgap.head, ?_⟩
      rw [hlexeme]
      exact .cons hgap' hlaid

namespace Laid

variable {X : List Char} {us vs : List Token}

theorem ne_nil (h : Laid X us) : us ≠ [] := by
  cases h <;> exact List.cons_ne_nil _ _

theorem split (h : Laid X (us ++ vs)) (hus : us ≠ []) (hvs : vs ≠ []) :
    ∃ A gap Y, X = A ++ (gap ++ Y) ∧ Laid A us ∧ Laid Y vs := by
  induction us generalizing X with
  | nil => exact absurd rfl hus
  | cons u us ih =>
    rw [List.cons_append] at h
    generalize hts : us ++ vs = ts at h
    cases h with
    | last => exact absurd (List.append_eq_nil_iff.mp hts).2 hvs
    | @cons _ gap cs _ hgap hcs =>
      subst hts
      cases us with
      | nil => exact ⟨_, gap, cs, rfl, .last u, hcs⟩
      | cons v us =>
        obtain ⟨A, gap', Y, rfl, hA, hY⟩ := ih hcs (List.cons_ne_nil v us)
        exact ⟨_, gap', Y, by simp, .cons hgap hA, hY⟩

/-- Tokens take up more characters than they stand for, or just these. -/
theorem content_cases (h : Laid X us) (hs : ∀ u ∈ us, Spells u.body u.lexeme.toList) :
    (X = us.flatMap Token.content ∧ ∀ u ∈ us, u.lexeme.toList = u.content) ∨
      (us.flatMap Token.content).length < X.length := by
  induction h with
  | last u =>
    rcases Token.content_cases (hs u List.mem_cons_self) with hu | hu
    · exact .inl (by simpa using hu)
    · exact .inr (by simpa using hu)
  | @cons u gap cs us _ _ ih =>
    obtain ⟨hsu, hsus⟩ := List.forall_mem_cons.mp hs
    rw [List.flatMap_cons, List.length_append, List.length_append, List.length_append]
    rcases Token.content_cases hsu with hu | hu
    · rcases ih hsus with ⟨hcs, hus⟩ | hlt
      · rw [← hcs]
        match gap with
        | [] => exact .inl ⟨by rw [hu]; rfl, List.forall_mem_cons.mpr ⟨hu, hus⟩⟩
        | c :: gap =>
          right
          rw [hu, List.length_cons]
          omega
      · right
        rw [hu]
        omega
    · right
      rcases ih hsus with ⟨hcs, -⟩ | hlt
      · rw [← hcs]
        omega
      · omega

theorem exists_concat (h : Laid X us) :
    ∃ before u, us.getLast? = some u ∧ X = before ++ u.lexeme.toList := by
  induction h with
  | last u => exact ⟨[], u, rfl, rfl⟩
  | @cons u gap cs us _ hcs ih =>
    obtain ⟨before, v, hv, rfl⟩ := ih
    refine ⟨u.lexeme.toList ++ (gap ++ before), v, ?_, by simp⟩
    rw [List.getLast?_cons, hv]
    rfl

theorem exists_cons (h : Laid X us) (hs : ∀ u ∈ us, Spells u.body u.lexeme.toList) :
    ∃ c cs, X = c :: cs ∧ Text.isBlank c = false := by
  cases h with
  | last u =>
    obtain ⟨c, cs, hlexeme, hc, -⟩ := (hs u List.mem_cons_self).form.exists_cons
    exact ⟨c, cs, hlexeme, hc⟩
  | @cons u gap cs us _ _ =>
    obtain ⟨c, cs', hlexeme, hc, -⟩ := (hs u List.mem_cons_self).form.exists_cons
    exact ⟨c, _, by rw [hlexeme]; rfl, hc⟩

end Laid

end TraitMarkup
