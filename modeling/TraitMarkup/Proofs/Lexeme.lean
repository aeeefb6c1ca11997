import TraitMarkup.Proofs.Characters

/-!
# Lexemes

The written forms of the tokens, stated without the scanner: `HasForm` gives the form of each kind
and `decode` what a lexeme of that form carries. The scanner takes exactly these forms, each as far
as it goes: a token that is read has its kind's form and is not extended by what follows
(`Piece.spells_of_read`), and a lexeme that what follows does not extend is read
(`Piece.read_append`).
-/

namespace TraitMarkup

open Token (Kind Body Payload)

/-! ## Spans -/

theorem span_append {p : Char → Bool} {l rest : List Char} (hl : ∀ c ∈ l, p c)
    (hr : ∀ c ∈ rest.head?, p c = false) :
    (l ++ rest).takeWhile p = l ∧ (l ++ rest).dropWhile p = rest := by
  rw [List.takeWhile_append_of_pos hl, List.dropWhile_append_of_pos hl]
  match rest with
  | [] => simp
  | c :: rest => simp [hr c rfl]

theorem exists_span {α : Type} (p : α → Bool) (cs : List α) :
    ∃ l rest, cs = l ++ rest ∧ (∀ c ∈ l, p c) ∧ ∀ c ∈ rest.head?, p c = false := by
  refine ⟨cs.takeWhile p, cs.dropWhile p, by simp, ?_, ?_⟩
  · exact List.all_eq_true.mp List.all_takeWhile
  · intro c hc
    have := cs.head?_dropWhile_not p
    rw [Option.mem_def.mp hc] at this
    exact this

/-! ## Escapes -/

/-- Characters that stand as they are, if they are plain, or after a backslash. -/
inductive Escaped (plain : Char → Bool) : List Char → Prop where
  | nil : Escaped plain []
  | plain {c : Char} {cs : List Char} : plain c → Escaped plain cs → Escaped plain (c :: cs)
  | pair {c : Char} {cs : List Char} : Escaped plain cs → Escaped plain ('\\' :: c :: cs)

/-- The characters that are meant: those after a backslash in place of the pair. -/
def unescape : List Char → List Char
  | [] => []
  | '\\' :: c :: cs => c :: unescape cs
  | c :: cs => c :: unescape cs

@[simp] theorem unescape_nil : unescape [] = [] := by rw [unescape]

@[simp] theorem unescape_pair (c : Char) (cs : List Char) :
    unescape ('\\' :: c :: cs) = c :: unescape cs := by rw [unescape]

theorem unescape_cons {c : Char} (h : c ≠ '\\') (cs : List Char) :
    unescape (c :: cs) = c :: unescape cs := by
  rw [unescape]
  rintro d ds rfl
  exact absurd rfl h

theorem unescape_append {l : List Char} (h : '\\' ∉ l) (cs : List Char) :
    unescape (l ++ cs) = l ++ unescape cs := by
  induction l with
  | nil => rfl
  | cons c l ih =>
    simp only [List.mem_cons, not_or] at h
    obtain ⟨hc, hl⟩ := h
    rw [List.cons_append, unescape_cons (Ne.symm hc), ih hl, List.cons_append]

/-- Where a run of plain and escaped characters ends: with the text, at a last backslash, or before
a character that is not plain. -/
inductive RunEnd (plain : Char → Bool) : List Char → Prop where
  | text : RunEnd plain []
  | backslash : RunEnd plain ['\\']
  | char {c : Char} (rest : List Char) : plain c = false → c ≠ '\\' → RunEnd plain (c :: rest)

/-- Every text starts with a longest such run. -/
theorem exists_escaped_append (plain : Char → Bool) (cs : List Char) :
    ∃ l rest, cs = l ++ rest ∧ Escaped plain l ∧ RunEnd plain rest := by
  fun_induction unescape cs with
  | case1 => exact ⟨[], [], rfl, .nil, .text⟩
  | case2 c cs ih =>
    obtain ⟨l, rest, rfl, hl, hr⟩ := ih
    exact ⟨'\\' :: c :: l, rest, rfl, .pair hl, hr⟩
  | case3 c cs hne ih =>
    by_cases hb : c = '\\'
    · subst hb
      match cs with
      | [] => exact ⟨[], ['\\'], rfl, .nil, .backslash⟩
      | d :: ds => exact absurd rfl (hne d ds rfl)
    · by_cases hp : plain c
      · obtain ⟨l, rest, rfl, hl, hr⟩ := ih
        exact ⟨c :: l, rest, rfl, .plain hp hl, hr⟩
      · exact ⟨[], c :: cs, rfl, .nil, .char cs (by simpa using hp) hb⟩

/-! ## Forms -/

/-- The characters that stand as they are between quotes. -/
def plainIn (quote c : Char) : Bool := c != '\\' && c != quote

/-- `digits` or `digits.digits`, with at least one digit before the point. -/
inductive IsNumeral : List Char → Prop where
  | whole {ds : List Char} : ds ≠ [] → (∀ d ∈ ds, Text.isDecimal d) → IsNumeral ds
  | point {ds fs : List Char} : ds ≠ [] → (∀ d ∈ ds, Text.isDecimal d) →
      (∀ d ∈ fs, Text.isDecimal d) → IsNumeral (ds ++ '.' :: fs)

theorem IsNumeral.not_mem {l : List Char} {c : Char} (h : IsNumeral l)
    (hc : Text.isDecimal c = false) (hpoint : c ≠ '.') : c ∉ l := by
  have hdigits : ∀ {ds : List Char}, (∀ d ∈ ds, Text.isDecimal d) → c ∉ ds := by
    intro ds hds hmem
    simp [hds c hmem] at hc
  cases h with
  | whole _ hds => exact hdigits hds
  | point _ hds hfs => simp [hdigits hds, hdigits hfs, hpoint]

/-- The forms of the lexemes of each kind. Markers have none. -/
inductive HasForm : Kind → List Char → Prop where
  | number {l : List Char} : IsNumeral l → HasForm .number l
  | string {quote : Char} {l : List Char} : quote = '"' ∨ quote = '\'' →
      Escaped (plainIn quote) l → HasForm .string (quote :: l ++ [quote])
  | name {c : Char} {l : List Char} : Word.isStart c → Escaped Word.isContinue l →
      HasForm .identifier (c :: l)
  | escapedName {c : Char} {l : List Char} : Escaped Word.isContinue l →
      HasForm .identifier ('\\' :: c :: l)
  | numeralName {n : List Char} {c : Char} {l : List Char} : IsNumeral n →
      Escaped Word.isContinue l → HasForm .identifier (n ++ '\\' :: c :: l)
  | symbol (s : Symbol) : HasForm (.symbol s) s.chars

/-- What a lexeme of a kind carries. -/
def decode : Kind → List Char → Payload
  | .number, l => .number (Number.ofNumeral l)
  | .string, l => .text (String.ofList (unescape l.tail.dropLast))
  | .identifier, l => .text (String.ofList (unescape l))
  | .symbol _, _ => .none
  | .marker _, _ => .none

/-- A lexeme of a token: it has the form of the token's kind and carries what the token does. -/
structure Spells (body : Body) (l : List Char) : Prop where
  form : HasForm body.kind l
  payload : body.payload = decode body.kind l

/-- What follows a lexeme does not extend it. -/
def Ends : Kind → List Char → List Char → Prop
  | .identifier, _, rest => ∀ c ∈ rest.head?, Word.isContinue c = false ∧ c ≠ '\\'
  | .number, l, rest =>
    ∀ c ∈ rest.head?, Text.isDecimal c = false ∧ c ≠ '\\' ∧ (c = '.' → '.' ∈ l)
  | .symbol s, _, rest => ∀ c ∈ rest.head?, s.withEquals?.isSome → c ≠ '='
  | .string, _, _ | .marker _, _, _ => True

namespace Piece

/-! ## Runs -/

theorem wordRun_cons {c : Char} (h : c ≠ '\\') (rest : List Char) : wordRun (c :: rest) =
    if Word.isContinue c then (wordRun rest).cons c [c] else .done [] [] (c :: rest) := by
  rw [wordRun]
  · rintro rfl _
    exact h rfl
  · rintro d ds rfl
    exact absurd rfl h

theorem literalRun_cons {quote c : Char} (h : c ≠ '\\') (rest : List Char) :
    literalRun quote (c :: rest) =
      if c = quote then .done [] [c] rest else (literalRun quote rest).cons c [c] := by
  rw [literalRun]
  · rintro rfl _
    exact h rfl
  · rintro d ds rfl
    exact absurd rfl h

/-- The run with more characters in front, some of them escaped. -/
def Run.prepend (l : List Char) : Run → Run
  | .done value lexeme rest => .done (unescape l ++ value) (l ++ lexeme) rest
  | .cut value lexeme => .cut (unescape l ++ value) (l ++ lexeme)
  | .dangling lexeme => .dangling (l ++ lexeme)

@[simp] theorem Run.prepend_nil (r : Run) : r.prepend [] = r := by
  cases r <;> simp [Run.prepend]

theorem not_isContinue_backslash : Word.isContinue '\\' = false := by decide

theorem wordRun_append {l : List Char} (h : Escaped Word.isContinue l) (rest : List Char) :
    wordRun (l ++ rest) = (wordRun rest).prepend l := by
  induction h with
  | nil => simp
  | plain hc _ ih =>
    have hb := ne_of_class hc not_isContinue_backslash
    rw [List.cons_append, wordRun_cons hb, if_pos hc, ih]
    cases wordRun rest <;> simp [Run.prepend, Run.cons, unescape_cons hb]
  | pair _ ih =>
    rw [List.cons_append, List.cons_append, wordRun, ih]
    cases wordRun rest <;> simp [Run.prepend, Run.cons]

theorem literalRun_append {quote : Char} {l : List Char} (h : Escaped (plainIn quote) l)
    (rest : List Char) : literalRun quote (l ++ rest) = (literalRun quote rest).prepend l := by
  induction h with
  | nil => simp
  | plain hc _ ih =>
    simp only [plainIn, Bool.and_eq_true, bne_iff_ne] at hc
    rw [List.cons_append, literalRun_cons hc.1, if_neg hc.2, ih]
    cases literalRun quote rest <;> simp [Run.prepend, Run.cons, unescape_cons hc.1]
  | pair _ ih =>
    rw [List.cons_append, List.cons_append, literalRun, ih]
    cases literalRun quote rest <;> simp [Run.prepend, Run.cons]

/-! ## Words -/

/-- The word that a run of characters after `lead` makes. -/
theorem readWord_append {l rest : List Char} (lead : List Char) (h : Escaped Word.isContinue l)
    (hr : ∀ c ∈ rest.head?, Word.isContinue c = false ∧ c ≠ '\\') :
    readWord lead (l ++ rest) =
      (.token (.identifier (String.ofList (lead ++ unescape l))) (lead ++ l), rest) := by
  unfold readWord
  rw [wordRun_append h]
  match rest with
  | [] => simp [wordRun, Run.prepend]
  | c :: rest =>
    obtain ⟨hc, hb⟩ := hr c rfl
    simp [wordRun_cons hb, hc, Run.prepend]

theorem readWord_dangling {l : List Char} (lead : List Char) (h : Escaped Word.isContinue l) :
    readWord lead (l ++ ['\\']) =
      (.breach ⟨.danglingEscape, lead ++ l, lead ++ l ++ ['\\']⟩, []) := by
  unfold readWord
  rw [wordRun_append h]
  simp [wordRun, Run.prepend]

/-- A word is read to the end of its run, or the text ends with a backslash. -/
theorem readWord_cases (lead cs : List Char) :
    (∃ l rest, cs = l ++ rest ∧ Escaped Word.isContinue l ∧
      (∀ c ∈ rest.head?, Word.isContinue c = false ∧ c ≠ '\\') ∧
      readWord lead cs =
        (.token (.identifier (String.ofList (lead ++ unescape l))) (lead ++ l), rest)) ∨
    ∃ l, cs = l ++ ['\\'] ∧ Escaped Word.isContinue l ∧
      readWord lead cs = (.breach ⟨.danglingEscape, lead ++ l, lead ++ l ++ ['\\']⟩, []) := by
  obtain ⟨l, rest, rfl, hl, hr⟩ := exists_escaped_append Word.isContinue cs
  cases hr with
  | text => exact .inl ⟨l, [], rfl, hl, by simp, readWord_append lead hl (by simp)⟩
  | backslash => exact .inr ⟨l, rfl, hl, readWord_dangling lead hl⟩
  | @char c rest hc hb =>
    have he : ∀ d ∈ (c :: rest).head?, Word.isContinue d = false ∧ d ≠ '\\' := by
      rintro d ⟨⟩
      exact ⟨hc, hb⟩
    exact .inl ⟨l, _, rfl, hl, he, readWord_append lead hl he⟩

/-! ## Literals -/

theorem readLiteral_append {quote : Char} {l : List Char} (h : Escaped (plainIn quote) l)
    (hq : quote ≠ '\\') (rest : List Char) : readLiteral quote (l ++ quote :: rest) =
      (.token (.string (String.ofList (unescape l))) (quote :: l ++ [quote]), rest) := by
  unfold readLiteral
  rw [literalRun_append h, literalRun_cons hq]
  simp [Run.prepend]

theorem readLiteral_cut {quote : Char} {l : List Char} (h : Escaped (plainIn quote) l) :
    readLiteral quote l =
      (.breach ⟨.unterminated quote (String.ofList (unescape l)), [], quote :: l⟩, []) := by
  have hr := literalRun_append h []
  rw [List.append_nil] at hr
  unfold readLiteral
  rw [hr]
  simp [literalRun, Run.prepend]

theorem readLiteral_dangling {quote : Char} {l : List Char} (h : Escaped (plainIn quote) l) :
    readLiteral quote (l ++ ['\\']) =
      (.breach ⟨.danglingEscape, quote :: l, quote :: l ++ ['\\']⟩, []) := by
  unfold readLiteral
  rw [literalRun_append h]
  simp [literalRun, Run.prepend]

/-! ## Numbers -/

theorem numeral_append {l rest : List Char} (h : IsNumeral l)
    (hr : ∀ c ∈ rest.head?, Text.isDecimal c = false ∧ (c = '.' → '.' ∈ l)) :
    numeral (l ++ rest) = (l, rest) := by
  unfold numeral
  cases h with
  | whole _ hd =>
    obtain ⟨ht, hdrop⟩ := span_append hd fun c hc => (hr c hc).1
    rw [ht, hdrop]
    split
    · have hp := (hr '.' rfl).2 rfl
      exact absurd (hd _ hp) (by decide)
    · rfl
  | @point ds fs _ hd hf =>
    have hpoint : ∀ c ∈ ('.' :: fs ++ rest).head?, Text.isDecimal c = false := by
      rintro c ⟨⟩
      decide
    obtain ⟨ht, hdrop⟩ := span_append hd hpoint
    rw [List.append_assoc, ht, hdrop]
    obtain ⟨ht, hdrop⟩ := span_append hf fun c hc => (hr c hc).1
    simp [ht, hdrop]

/-- A text that starts with a digit starts with a longest numeral. -/
theorem exists_numeral_append {c : Char} (hc : Text.isDecimal c) (cs : List Char) :
    ∃ l rest, c :: cs = l ++ rest ∧ IsNumeral l ∧
      ∀ d ∈ rest.head?, Text.isDecimal d = false ∧ (d = '.' → '.' ∈ l) := by
  obtain ⟨ds, rest, rfl, hd, hr⟩ := exists_span Text.isDecimal cs
  have hd : ∀ d ∈ c :: ds, Text.isDecimal d := by simpa [hc] using hd
  by_cases hp : rest.head? = some '.'
  · obtain ⟨rest, rfl⟩ := List.head?_eq_some_iff.mp hp
    obtain ⟨fs, rest, rfl, hf, hr⟩ := exists_span Text.isDecimal rest
    refine ⟨(c :: ds) ++ '.' :: fs, rest, by simp, .point (by simp) hd hf, ?_⟩
    exact fun d hd => ⟨hr d hd, fun _ => by simp⟩
  · refine ⟨c :: ds, rest, rfl, .whole (by simp) hd, fun d hd => ⟨hr d hd, ?_⟩⟩
    rintro rfl
    exact absurd (Option.mem_def.mp hd) hp

theorem readNumber_append {l rest : List Char} (h : IsNumeral l) (hr : Ends .number l rest) :
    readNumber (l ++ rest) = (.token (.number (Number.ofNumeral l)) l, rest) := by
  unfold readNumber
  rw [numeral_append h fun c hc => ⟨(hr c hc).1, (hr c hc).2.2⟩]
  split
  · rename_i heq
    cases heq
    exact absurd rfl (hr '\\' rfl).2.1
  · rename_i heq
    cases heq
    rfl

theorem readNumber_backslash {l : List Char} (h : IsNumeral l) (rest : List Char) :
    readNumber (l ++ '\\' :: rest) = readWord l ('\\' :: rest) := by
  unfold readNumber
  have hr : ∀ c ∈ ('\\' :: rest).head?, Text.isDecimal c = false ∧ (c = '.' → '.' ∈ l) := by
    rintro c ⟨⟩
    exact ⟨by decide, by rintro ⟨⟩⟩
  rw [numeral_append h hr]
  rfl

/-- A number is read as far as its numeral goes, unless a backslash follows. -/
theorem readNumber_cases {c : Char} (hc : Text.isDecimal c) (cs : List Char) :
    (∃ n rest, c :: cs = n ++ rest ∧ IsNumeral n ∧ Ends .number n rest ∧
      readNumber (c :: cs) = (.token (.number (Number.ofNumeral n)) n, rest)) ∨
    ∃ n rest, c :: cs = n ++ '\\' :: rest ∧ IsNumeral n ∧
      readNumber (c :: cs) = readWord n ('\\' :: rest) := by
  obtain ⟨n, rest, heq, hn, hr⟩ := exists_numeral_append hc cs
  rw [heq]
  by_cases hb : rest.head? = some '\\'
  · obtain ⟨rest, rfl⟩ := List.head?_eq_some_iff.mp hb
    exact .inr ⟨n, rest, rfl, hn, readNumber_backslash hn rest⟩
  · have he : Ends .number n rest := by
      intro d hd
      refine ⟨(hr d hd).1, ?_, (hr d hd).2⟩
      rintro rfl
      exact hb hd
    exact .inl ⟨n, rest, rfl, hn, he, readNumber_append hn he⟩

theorem not_mem_backslash_numeral {l : List Char} (h : IsNumeral l) : '\\' ∉ l :=
  h.not_mem (by decide) (by decide)

/-! ## Symbols -/

theorem readSymbol_append {s : Symbol} {rest : List Char} (hr : Ends (.symbol s) s.chars rest) :
    readSymbol s rest = (.token (.symbol s .none) s.chars, rest) := by
  unfold readSymbol
  split
  · rename_i heq
    exact absurd rfl (hr '=' rfl (by simp [heq]))
  · rfl

theorem readSymbol_equals {s joined : Symbol} (h : s.withEquals? = some joined)
    (rest : List Char) :
    readSymbol s ('=' :: rest) = (.token (.symbol joined .none) joined.chars, rest) := by
  simp [readSymbol, h]

/-! ## What is written is read -/

theorem exists_cons_of_isNumeral {l : List Char} (h : IsNumeral l) :
    ∃ c cs, l = c :: cs ∧ Text.isDecimal c := by
  obtain ⟨ds, fs, hne, hd, rfl⟩ : ∃ ds fs : List Char, ds ≠ [] ∧
      (∀ d ∈ ds, Text.isDecimal d) ∧ l = ds ++ fs := by
    cases h with
    | whole hne hd => exact ⟨l, [], hne, hd, by simp⟩
    | point hne hd _ => exact ⟨_, _, hne, hd, rfl⟩
  match ds with
  | [] => exact absurd rfl hne
  | d :: ds => exact ⟨d, ds ++ fs, rfl, hd d List.mem_cons_self⟩

private theorem read_number {l rest : List Char} (h : IsNumeral l) (hr : Ends .number l rest) :
    ∃ c cs, l ++ rest = c :: cs ∧
      read c cs = (.token (.number (Number.ofNumeral l)) l, rest) := by
  obtain ⟨c, cs, rfl, hc⟩ := exists_cons_of_isNumeral h
  refine ⟨c, cs ++ rest, rfl, ?_⟩
  rw [read_decimal _ hc]
  exact readNumber_append h hr

private theorem read_string {quote : Char} {l : List Char} (hq : quote = '"' ∨ quote = '\'')
    (h : Escaped (plainIn quote) l) (rest : List Char) :
    read quote (l ++ quote :: rest) =
      (.token (.string (String.ofList (unescape l))) (quote :: l ++ [quote]), rest) := by
  have hb : quote ≠ '\\' := by
    obtain rfl | rfl := hq <;> decide
  rw [read_quote _ hq, readLiteral_append h hb]

private theorem read_identifier {l rest : List Char} (h : HasForm .identifier l)
    (hr : Ends .identifier l rest) : ∃ c cs, l ++ rest = c :: cs ∧
      read c cs = (.token (.identifier (String.ofList (unescape l))) l, rest) := by
  cases h with
  | @name c l hc hl =>
    refine ⟨c, l ++ rest, rfl, ?_⟩
    rw [read_start _ hc]
    exact readWord_append [] (.plain (Word.isContinue_of_isStart hc) hl) hr
  | @escapedName c l hl =>
    refine ⟨'\\', c :: l ++ rest, rfl, ?_⟩
    rw [read_backslash]
    exact readWord_append [] (.pair hl) hr
  | @numeralName n c l hn hl =>
    obtain ⟨d, ds, rfl, hd⟩ := exists_cons_of_isNumeral hn
    refine ⟨d, ds ++ '\\' :: c :: l ++ rest, rfl, ?_⟩
    have hw := readWord_append (d :: ds) (.pair (c := c) hl) hr
    rw [read_decimal _ hd, unescape_append (not_mem_backslash_numeral hn), List.append_assoc]
    exact (readNumber_backslash hn _).trans hw

private theorem read_operator {s : Symbol} {rest : List Char} (hr : Ends (.symbol s) s.chars rest) :
    ∃ c cs, s.chars ++ rest = c :: cs ∧ read c cs = (.token (.symbol s .none) s.chars, rest) := by
  obtain ⟨c, hc⟩ | ⟨t, c, ht, hc⟩ := s.chars_cases
  · refine ⟨c, rest, by rw [hc]; rfl, ?_⟩
    rw [read_symbol _ hc, readSymbol_append hr]
  · refine ⟨c, '=' :: rest, by rw [Symbol.chars_withEquals? ht, hc]; rfl, ?_⟩
    rw [read_symbol _ hc, readSymbol_equals ht]

/-- A lexeme that what follows does not extend is read. -/
theorem read_append {body : Body} {l rest : List Char} (h : Spells body l)
    (hr : Ends body.kind l rest) :
    ∃ c cs, l ++ rest = c :: cs ∧ read c cs = (.token body l, rest) := by
  obtain ⟨form, payload⟩ := h
  cases body with
  | marker m carried => cases form
  | number x =>
    cases payload
    cases form with
    | number hn => exact read_number hn hr
  | string s =>
    cases payload
    cases form with
    | @string quote l hq hl =>
      exact ⟨quote, l ++ quote :: rest, by simp, by simpa using read_string hq hl rest⟩
  | identifier s =>
    cases payload
    exact read_identifier form hr
  | symbol s carried =>
    cases payload
    cases form with
    | symbol => exact read_operator hr

/-! ## What is read was written -/

variable {c : Char} {cs l rest : List Char} {body : Body}

private theorem spells_of_readLiteral (hq : c = '"' ∨ c = '\'')
    (h : readLiteral c cs = (.token body l, rest)) :
    c :: cs = l ++ rest ∧ Spells body l ∧ Ends body.kind l rest := by
  obtain ⟨l', rest', rfl, hl, hr⟩ := exists_escaped_append (plainIn c) cs
  cases hr with
  | text =>
    rw [List.append_nil, readLiteral_cut hl] at h
    cases h
  | backslash =>
    rw [readLiteral_dangling hl] at h
    cases h
  | @char d rest hd hb =>
    have hdc : d = c := by simpa [plainIn, hb] using hd
    subst hdc
    rw [readLiteral_append hl hb] at h
    cases h
    exact ⟨by simp, ⟨.string hq hl, by simp [Body.payload, Body.kind, decode]⟩, trivial⟩

private theorem spells_of_readWord (h : readWord [] (c :: cs) = (.token body l, rest))
    (hc : c = '\\' ∨ Word.isStart c) :
    c :: cs = l ++ rest ∧ Spells body l ∧ Ends body.kind l rest := by
  obtain ⟨l', rest', heq, hl, hr, hw⟩ | ⟨l', heq, hl, hw⟩ := readWord_cases [] (c :: cs)
  · rw [hw] at h
    cases h
    refine ⟨heq, ⟨?_, rfl⟩, hr⟩
    cases hl with
    | nil =>
      subst heq
      obtain ⟨hn, hb⟩ := hr c rfl
      obtain rfl | hs := hc
      · exact absurd rfl hb
      · simp [Word.isContinue_of_isStart hs] at hn
    | plain hd hl =>
      cases heq
      obtain rfl | hs := hc
      · exact absurd hd (by decide)
      · exact .name hs hl
    | pair hl => exact .escapedName hl
  · rw [hw] at h
    cases h

private theorem spells_of_readNumber (hc : Text.isDecimal c)
    (h : readNumber (c :: cs) = (.token body l, rest)) :
    c :: cs = l ++ rest ∧ Spells body l ∧ Ends body.kind l rest := by
  obtain ⟨n, rest', heq, hn, he, hread⟩ | ⟨n, rest', heq, hn, hread⟩ := readNumber_cases hc cs
  · rw [hread] at h
    cases h
    exact ⟨heq, ⟨.number hn, rfl⟩, he⟩
  · rw [hread] at h
    obtain ⟨l', rest', hword, hl, hr, hw⟩ | ⟨l', -, -, hw⟩ := readWord_cases n ('\\' :: rest')
    · rw [hw] at h
      cases h
      rw [heq, hword, List.append_assoc]
      cases hl with
      | nil =>
        subst hword
        exact absurd rfl (hr '\\' rfl).2
      | plain hd hl =>
        cases hword
        exact absurd hd (by decide)
      | pair hl =>
        refine ⟨rfl, ⟨.numeralName hn hl, ?_⟩, hr⟩
        simp only [Body.payload, Body.kind, decode]
        rw [unescape_append (not_mem_backslash_numeral hn)]
    · rw [hw] at h
      cases h

private theorem spells_of_readSymbol {s : Symbol} (hs : s.chars = [c])
    (h : readSymbol s cs = (.token body l, rest)) :
    c :: cs = l ++ rest ∧ Spells body l ∧ Ends body.kind l rest := by
  by_cases hj : s.withEquals?.isSome ∧ cs.head? = some '='
  · obtain ⟨joined, hj'⟩ := Option.isSome_iff_exists.mp hj.1
    obtain ⟨cs, rfl⟩ := List.head?_eq_some_iff.mp hj.2
    rw [readSymbol_equals hj'] at h
    cases h
    refine ⟨by rw [Symbol.chars_withEquals? hj', hs]; rfl, ⟨.symbol joined, rfl⟩, ?_⟩
    have hn : joined.withEquals? = none := by cases s <;> cases hj' <;> rfl
    intro d _ hd
    simp [hn] at hd
  · have he : Ends (.symbol s) s.chars cs := by
      rintro d hd hsome rfl
      exact hj ⟨hsome, hd⟩
    rw [readSymbol_append he] at h
    cases h
    exact ⟨by rw [hs]; rfl, ⟨.symbol s, rfl⟩, he⟩

/-- A token is read from a lexeme of it, taken as far as it goes. -/
theorem spells_of_read (h : read c cs = (.token body l, rest)) :
    c :: cs = l ++ rest ∧ Spells body l ∧ Ends body.kind l rest := by
  unfold read at h
  split at h
  · cases h
  split at h
  · cases h
  split at h
  · exact spells_of_readLiteral ‹_› h
  split at h
  · exact spells_of_readNumber ‹_› h
  split at h
  · exact spells_of_readWord h ‹_›
  split at h
  · exact spells_of_readSymbol (Symbol.ofChar?_eq_some.mp ‹_›) h
  · split at h <;> cases h

end Piece

/-- A lexeme starts with a character that is not passed over. -/
theorem HasForm.exists_cons {k : Kind} {l : List Char} (h : HasForm k l) :
    ∃ c cs, l = c :: cs ∧ Text.isBlank c = false ∧ c ≠ '#' := by
  have hn : ∀ {n : List Char}, IsNumeral n →
      ∃ c cs, n = c :: cs ∧ Text.isBlank c = false ∧ c ≠ '#' := by
    intro n hn
    obtain ⟨c, cs, rfl, hc⟩ := Piece.exists_cons_of_isNumeral hn
    exact ⟨c, cs, rfl, Text.not_isBlank_of_isDecimal hc, ne_of_class hc (by decide)⟩
  cases h with
  | number h => exact hn h
  | string hq _ =>
    refine ⟨_, _, rfl, ?_⟩
    obtain rfl | rfl := hq <;> decide
  | name hc _ =>
    exact ⟨_, _, rfl, Word.not_isBlank_of_isContinue (Word.isContinue_of_isStart hc),
      ne_of_class hc (by decide)⟩
  | escapedName _ => exact ⟨_, _, rfl, by decide⟩
  | numeralName h _ =>
    obtain ⟨c, cs, rfl, hc⟩ := hn h
    exact ⟨c, _, rfl, hc⟩
  | symbol s =>
    match hs : s.chars with
    | [] => cases s <;> cases hs
    | c :: cs =>
      obtain ⟨hh, -, -, -, -, -, -, hb⟩ := Symbol.of_mem_chars (s := s) (c := c) (by simp [hs])
      exact ⟨c, cs, rfl, hb, hh⟩

end TraitMarkup
