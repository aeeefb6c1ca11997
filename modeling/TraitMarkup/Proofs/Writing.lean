import TraitMarkup.Proofs.Lexeme

/-!
# Tokens written back

The text of a token is a lexeme of it: what escaping and quoting write is read as it was meant
(`Token.spells_text`). The text of a token ends with a blank only if the token is a name that does.
-/

namespace TraitMarkup

open Token (Kind Body Payload)

/-! ## Escaping -/

theorem escaped_escapeUnless (plain : Char → Bool) (cs : List Char) :
    Escaped plain (cs.flatMap (Word.escapeUnless plain)) := by
  induction cs with
  | nil => exact .nil
  | cons c cs ih =>
    rw [List.flatMap_cons, Word.escapeUnless]
    split
    · rename_i h
      exact .plain h ih
    · exact .pair ih

theorem unescape_escapeUnless {plain : Char → Bool} (hb : plain '\\' = false) (cs : List Char) :
    unescape (cs.flatMap (Word.escapeUnless plain)) = cs := by
  induction cs with
  | nil => exact unescape_nil
  | cons c cs ih =>
    rw [List.flatMap_cons, Word.escapeUnless]
    split
    · rename_i h
      rw [List.singleton_append, unescape_cons (ne_of_class h hb), ih]
    · rw [List.cons_append, List.singleton_append, unescape_pair, ih]

/-- A name is written with its first character as it is or after a backslash, and the others with
escapes where they need them. -/
theorem escapeChars_cons (c : Char) (cs : List Char) :
    ∃ l, Escaped Word.isContinue l ∧ unescape l = cs ∧
      (Word.isStart c ∧ Word.escapeChars (c :: cs) = c :: l ∨
        Word.escapeChars (c :: cs) = '\\' :: c :: l) := by
  refine ⟨_, escaped_escapeUnless Word.isContinue cs,
    unescape_escapeUnless Piece.not_isContinue_backslash cs, ?_⟩
  by_cases hc : Word.isStart c
  · exact .inl ⟨hc, by simp [Word.escapeChars, Word.escapeUnless, hc]⟩
  · exact .inr (by simp [Word.escapeChars, Word.escapeUnless, hc])

theorem hasForm_escapeChars {cs : List Char} (h : cs ≠ []) :
    HasForm .identifier (Word.escapeChars cs) := by
  obtain ⟨c, cs, rfl⟩ := List.exists_cons_of_ne_nil h
  obtain ⟨l, hl, -, ⟨hc, heq⟩ | heq⟩ := escapeChars_cons c cs
  · rw [heq]
    exact .name hc hl
  · rw [heq]
    exact .escapedName hl

theorem unescape_escapeChars (cs : List Char) : unescape (Word.escapeChars cs) = cs := by
  match cs with
  | [] => exact unescape_nil
  | c :: cs =>
    obtain ⟨l, -, hu, ⟨hc, heq⟩ | heq⟩ := escapeChars_cons c cs
    · rw [heq, unescape_cons (ne_of_class hc (by decide)), hu]
    · rw [heq, unescape_pair, hu]

theorem escaped_escapeChars (cs : List Char) : Escaped Word.isContinue (Word.escapeChars cs) := by
  match cs with
  | [] => exact .nil
  | c :: cs =>
    obtain ⟨l, hl, -, ⟨hc, heq⟩ | heq⟩ := escapeChars_cons c cs
    · rw [heq]
      exact .plain (Word.isContinue_of_isStart hc) hl
    · rw [heq]
      exact .pair hl

theorem spells_escape {s : String} (h : s ≠ "") :
    Spells (.identifier s) (Word.escape s).toList := by
  have hne : s.toList ≠ [] := by simpa using h
  rw [Word.escape, String.toList_ofList]
  refine ⟨hasForm_escapeChars hne, ?_⟩
  simp only [Body.payload, Body.kind, decode, unescape_escapeChars, String.ofList_toList]

theorem quoteChars_eq (cs : List Char) : Word.quoteChars cs =
    '"' :: cs.flatMap (Word.escapeUnless (plainIn '"')) ++ ['"'] := rfl

theorem spells_quote (s : String) : Spells (.string s) (Word.quote s).toList := by
  rw [Word.quote, String.toList_ofList, quoteChars_eq]
  refine ⟨.string (.inl rfl) (escaped_escapeUnless _ _), ?_⟩
  simp only [Body.payload, Body.kind, decode]
  rw [List.cons_append, List.tail_cons, List.dropLast_concat, unescape_escapeUnless (by decide),
    String.ofList_toList]

/-! ## The text of a token -/

theorem HasForm.unescape_ne_nil {l : List Char} (h : HasForm .identifier l) :
    unescape l ≠ [] := by
  cases h with
  | name hc _ =>
    rw [unescape_cons (ne_of_class hc (by decide))]
    simp
  | escapedName _ => simp
  | numeralName hn _ =>
    rw [unescape_append (Piece.not_mem_backslash_numeral hn)]
    simp

theorem Spells.identifier_ne {s : String} {l : List Char} (h : Spells (.identifier s) l) :
    s ≠ "" := by
  rintro rfl
  have hp : Payload.text "" = .text (String.ofList (unescape l)) := h.payload
  have : unescape l = [] := by simpa using hp
  exact h.form.unescape_ne_nil this

namespace Token

/-- A token that is written as it should be is written back as it should be. -/
theorem spells_text {u : Token} (h : Spells u.body u.lexeme.toList) :
    Spells u.body u.text.toList := by
  obtain ⟨body, lexeme, location⟩ := u
  cases body with
  | marker m carried => cases h.form
  | string s => exact spells_quote s
  | identifier s => exact spells_escape h.identifier_ne
  | symbol s carried => exact h
  | number x => exact h

/-- A name whose last character is blank. -/
def EndsBlank (u : Token) : Prop :=
  ∃ s c, u.body = .identifier s ∧ s.toList.getLast? = some c ∧ Text.isBlank c

theorem endsBlank_iff {u : Token} : u.EndsBlank ↔
    (match u.body with
      | .identifier s => s.toList.getLast?.any Text.isBlank
      | _ => false) = true := by
  obtain ⟨body, lexeme, location⟩ := u
  cases body with
  | identifier s => simp [EndsBlank, Option.any_eq_true]
  | marker | string | symbol | number => simp [EndsBlank]

instance (u : Token) : Decidable u.EndsBlank := decidable_of_iff' _ endsBlank_iff

end Token

theorem escapeChars_concat_blank {c : Char} (hc : Text.isBlank c) (cs : List Char) :
    Word.escapeChars (cs ++ [c]) = Word.escapeChars cs ++ ['\\', c] := by
  match cs with
  | [] => simp [Word.escapeChars, Word.escapeUnless, Word.not_isStart_of_isBlank hc]
  | d :: cs => simp [Word.escapeChars, Word.escapeUnless, Word.not_isContinue_of_isBlank hc]

/-- The last character that is written is the last that is meant. -/
theorem Escaped.getLast?_unescape {plain : Char → Bool} {l : List Char} (h : Escaped plain l)
    (hb : plain '\\' = false) : (unescape l).getLast? = l.getLast? := by
  induction h with
  | nil => rfl
  | plain hc _ ih => rw [unescape_cons (ne_of_class hc hb), List.getLast?_cons, List.getLast?_cons, ih]
  | pair _ ih =>
    rw [unescape_pair, List.getLast?_cons, List.getLast?_cons, List.getLast?_cons, ih]
    rfl

theorem HasForm.getLast?_unescape {l : List Char} (h : HasForm .identifier l) :
    (unescape l).getLast? = l.getLast? := by
  have hb := Piece.not_isContinue_backslash
  cases h with
  | name hc hl => exact (Escaped.plain (Word.isContinue_of_isStart hc) hl).getLast?_unescape hb
  | escapedName hl => exact hl.pair.getLast?_unescape hb
  | numeralName hn hl =>
    rw [unescape_append (Piece.not_mem_backslash_numeral hn), List.getLast?_append,
      List.getLast?_append, hl.pair.getLast?_unescape hb]

theorem exists_concat_of_isNumeral {l : List Char} (h : IsNumeral l) :
    ∃ pre c, l = pre ++ [c] ∧ Text.isBlank c = false := by
  have hd : ∀ pre ds : List Char, ds ≠ [] → (∀ d ∈ ds, Text.isDecimal d) →
      ∃ pre' c, pre ++ ds = pre' ++ [c] ∧ Text.isBlank c = false := by
    intro pre ds hne hd
    refine ⟨pre ++ ds.dropLast, ds.getLast hne, ?_, ?_⟩
    · rw [List.append_assoc, List.dropLast_concat_getLast hne]
    · exact Text.not_isBlank_of_isDecimal (hd _ (List.getLast_mem hne))
  cases h with
  | whole hne hds => exact hd [] l hne hds
  | @point ds fs _ _ hfs =>
    match fs with
    | [] => exact ⟨ds, '.', rfl, by decide⟩
    | f :: fs =>
      have := hd (ds ++ ['.']) (f :: fs) (List.cons_ne_nil f fs) hfs
      rwa [List.append_assoc] at this

theorem exists_concat_symbol (s : Symbol) :
    ∃ pre c, s.chars = pre ++ [c] ∧ Text.isBlank c = false := by
  have hne : s.chars ≠ [] := by cases s <;> decide
  refine ⟨s.chars.dropLast, s.chars.getLast hne, (List.dropLast_concat_getLast hne).symm, ?_⟩
  exact (Symbol.of_mem_chars (List.getLast_mem hne)).2.2.2.2.2.2.2

/-- A lexeme of a token that is no name with a blank at its end does not end with a blank. -/
theorem Token.exists_concat {u : Token} {l : List Char} (h : Spells u.body l)
    (hb : ¬u.EndsBlank) : ∃ pre c, l = pre ++ [c] ∧ Text.isBlank c = false := by
  obtain ⟨body, lexeme, location⟩ := u
  cases body with
  | marker m carried => cases h.form
  | string s =>
    have hform : HasForm .string l := h.form
    cases hform with
    | @string quote l hq _ =>
      refine ⟨quote :: l, quote, rfl, ?_⟩
      rcases hq with rfl | rfl <;> decide
  | identifier s =>
    have hs : Payload.text s = .text (String.ofList (unescape l)) := h.payload
    have hform : HasForm .identifier l := h.form
    have hlast : s.toList.getLast? = l.getLast? := by
      rw [Payload.text.inj hs, String.toList_ofList, hform.getLast?_unescape]
    obtain ⟨c, cs, rfl, -⟩ := hform.exists_cons
    have hne := List.cons_ne_nil c cs
    refine ⟨_, _, (List.dropLast_concat_getLast hne).symm, ?_⟩
    rw [Bool.eq_false_iff]
    intro hc
    exact hb ⟨s, _, rfl, hlast.trans (List.getLast?_eq_some_getLast hne), hc⟩
  | symbol s carried =>
    have hform : HasForm (.symbol s) l := h.form
    cases hform
    exact exists_concat_symbol s
  | number x =>
    have hform : HasForm .number l := h.form
    cases hform with
    | number hn => exact exists_concat_of_isNumeral hn

/-! ## Names with a blank at their end -/

/-- A name that is cut off after a backslash is refused. -/
theorem read_cutName (cs : List Char) : ∃ c rest, Word.escapeChars cs ++ ['\\'] = c :: rest ∧
    Text.isBlank c = false ∧ c ≠ '#' ∧ Piece.read c rest =
      (.breach ⟨.danglingEscape, Word.escapeChars cs, Word.escapeChars cs ++ ['\\']⟩, []) := by
  have hword := Piece.readWord_dangling [] (escaped_escapeChars cs)
  match cs with
  | [] => exact ⟨'\\', [], rfl, by decide, by decide, hword⟩
  | c :: cs =>
    obtain ⟨l, -, -, ⟨hc, heq⟩ | heq⟩ := escapeChars_cons c cs
    · rw [heq] at hword ⊢
      refine ⟨c, l ++ ['\\'], rfl, ?_, ne_of_class hc (by decide), ?_⟩
      · exact Word.not_isBlank_of_isContinue (Word.isContinue_of_isStart hc)
      · rw [Piece.read_start _ hc]
        exact hword
    · rw [heq] at hword ⊢
      exact ⟨'\\', c :: l ++ ['\\'], rfl, by decide, by decide, hword⟩

theorem Token.EndsBlank.exists_text {u : Token} (h : u.EndsBlank) :
    ∃ cs c, u.text.toList = Word.escapeChars cs ++ ['\\'] ++ [c] ∧ Text.isBlank c := by
  obtain ⟨s, c, hbody, hlast, hc⟩ := h
  obtain ⟨cs, hcs⟩ := List.getLast?_eq_some_iff.mp hlast
  refine ⟨cs, c, ?_, hc⟩
  simp only [Token.text, hbody]
  rw [Word.escape, String.toList_ofList, hcs, escapeChars_concat_blank hc, List.append_assoc]
  rfl

end TraitMarkup
