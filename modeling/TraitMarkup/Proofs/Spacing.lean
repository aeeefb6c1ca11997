import TraitMarkup.Proofs.RoundTrip

/-!
# Lexemes with blanks between them

A text may be put together from lexemes, with blanks between them or with nothing, as long as no
lexeme is extended by what follows it (`Spaced`). Such a text is scanned to one token for each of
the lexemes (`Spaced.exists_tokenize`), so the blanks between them make no difference.
-/

namespace TraitMarkup

open Token (Kind Body Payload)

variable {file : String} {p : Position} {t : Indentation}

/-! ## Lexemes -/

/-- Characters in the form of a kind of tokens. -/
structure Lexeme where
  kind : Kind
  chars : List Char
  form : HasForm kind chars

/-- A token of the kind of a lexeme that is written with it and carries what it says. -/
structure Token.WrittenAs (u : Token) (l : Lexeme) : Prop where
  kind : u.kind = l.kind
  lexeme : u.lexeme.toList = l.chars
  payload : u.payload = decode l.kind l.chars

/-- The last character of a lexeme is a blank after a backslash. -/
def Lexeme.EndsInEscapedBlank (l : Lexeme) : Prop :=
  ∃ pre c, l.chars = pre ++ ['\\', c] ∧ Text.isBlank c

theorem HasForm.exists_spells {k : Kind} {l : List Char} (h : HasForm k l) :
    ∃ body, body.kind = k ∧ Spells body l := by
  cases k with
  | marker => cases h
  | symbol s => exact ⟨.symbol s .none, rfl, h, rfl⟩
  | string => exact ⟨.string _, rfl, h, rfl⟩
  | identifier => exact ⟨.identifier _, rfl, h, rfl⟩
  | number => exact ⟨.number _, rfl, h, rfl⟩

theorem Spells.writtenAs {body : Body} {l : Lexeme} (h : Spells body l.chars)
    (hk : body.kind = l.kind) (location : Location) :
    Token.WrittenAs ⟨body, String.ofList l.chars, location⟩ l :=
  ⟨hk, String.toList_ofList, by rw [← hk]; exact h.payload⟩

/-! ## Blanks at the end of a lexeme -/

/-- A character at the end that is not plain stands after a backslash. -/
theorem Escaped.exists_pair {plain : Char → Bool} {l pre : List Char} {c : Char}
    (h : Escaped plain l) (hl : l = pre ++ [c]) (hc : plain c = false) :
    ∃ pre', pre = pre' ++ ['\\'] := by
  induction h generalizing pre with
  | nil => simp at hl
  | @plain d l hd _ ih =>
    match pre with
    | [] =>
      cases hl
      rw [hd] at hc
      cases hc
    | e :: pre =>
      rw [List.cons_append, List.cons.injEq] at hl
      obtain ⟨pre', rfl⟩ := ih hl.2
      exact ⟨e :: pre', rfl⟩
  | @pair d l _ ih =>
    match pre with
    | [] => cases hl
    | [e] =>
      cases hl
      exact ⟨[], rfl⟩
    | e :: f :: pre =>
      rw [List.cons_append, List.cons_append, List.cons.injEq, List.cons.injEq] at hl
      obtain ⟨pre', rfl⟩ := ih hl.2.2
      exact ⟨e :: f :: pre', rfl⟩

theorem HasForm.exists_pair {l pre : List Char} {c : Char} (h : HasForm .identifier l)
    (hl : l = pre ++ [c]) (hcont : Word.isContinue c = false) : ∃ pre', pre = pre' ++ ['\\'] := by
  cases h with
  | name hd hrest =>
    exact (Escaped.plain (Word.isContinue_of_isStart hd) hrest).exists_pair hl hcont
  | escapedName hrest => exact hrest.pair.exists_pair hl hcont
  | @numeralName n d l _ hrest =>
    -- the last character is that of what follows the numeral
    obtain ⟨last, x, hlast⟩ : ∃ last x, '\\' :: d :: l = last ++ [x] :=
      ⟨_, _, (List.dropLast_concat_getLast (List.cons_ne_nil _ _)).symm⟩
    rw [hlast, ← List.append_assoc] at hl
    obtain ⟨rfl, hx⟩ := List.append_inj' hl rfl
    obtain ⟨rfl⟩ := List.singleton_inj.mp hx
    obtain ⟨pre', rfl⟩ := hrest.pair.exists_pair hlast hcont
    exact ⟨n ++ pre', by rw [List.append_assoc]⟩

/-- A lexeme ends with a blank only if the blank is escaped. -/
theorem Lexeme.exists_concat {l : Lexeme} (h : ¬l.EndsInEscapedBlank) :
    ∃ pre c, l.chars = pre ++ [c] ∧ Text.isBlank c = false := by
  obtain ⟨body, hk, hs⟩ := l.form.exists_spells
  apply Token.exists_concat (u := ⟨body, "", .unknown⟩) hs
  rintro ⟨s, c, rfl, hlast, hc⟩
  have hform : HasForm .identifier l.chars := hs.form
  have hs : Payload.text s = .text (String.ofList (unescape l.chars)) := hs.payload
  rw [Payload.text.inj hs, String.toList_ofList, hform.getLast?_unescape] at hlast
  obtain ⟨pre, hpre⟩ := List.getLast?_eq_some_iff.mp hlast
  obtain ⟨pre', rfl⟩ := hform.exists_pair hpre (Word.not_isContinue_of_isBlank hc)
  exact h ⟨pre', c, by rw [hpre, List.append_assoc]; rfl, hc⟩

/-! ## Texts of lexemes -/

/-- Lexemes one after the other, with blanks between them or with nothing. Line feeds are no such
blanks, and no lexeme is extended by what follows it. -/
inductive Spaced : List Char → List Lexeme → Prop where
  | last (l : Lexeme) : Spaced l.chars [l]
  | cons {l : Lexeme} {gap rest : List Char} {ls : List Lexeme} :
      (∀ c ∈ gap, Text.isBlank c ∧ c ≠ '\n') → Ends l.kind l.chars (gap ++ rest) →
      Spaced rest ls → Spaced (l.chars ++ (gap ++ rest)) (l :: ls)

namespace Spaced

variable {cs : List Char} {ls : List Lexeme}

theorem exists_cons (h : Spaced cs ls) :
    ∃ c rest, cs = c :: rest ∧ Text.isBlank c = false ∧ c ≠ '#' := by
  cases h with
  | last l => exact l.form.exists_cons
  | @cons l gap rest ls _ _ _ =>
    obtain ⟨c, cs, hl, hc⟩ := l.form.exists_cons
    exact ⟨c, cs ++ (gap ++ rest), by rw [hl]; rfl, hc⟩

theorem exists_concat (h : Spaced cs ls) (hb : ∀ l ∈ ls.getLast?, ¬l.EndsInEscapedBlank) :
    ∃ pre c, cs = pre ++ [c] ∧ Text.isBlank c = false := by
  induction h with
  | last l => exact l.exists_concat (hb l rfl)
  | @cons l gap rest ls _ _ hrest ih =>
    have hlast : ls.getLast? = (l :: ls).getLast? := by
      cases hrest <;> rfl
    rw [← hlast] at hb
    obtain ⟨pre, c, rfl, hc⟩ := ih hb
    exact ⟨l.chars ++ (gap ++ pre), c, by simp only [List.append_assoc], hc⟩

/-- Inside a line, such a text is scanned to a token for each lexeme. -/
theorem inside_eq (h : Spaced cs ls) (file : String) (p : Position) (t : Indentation) :
    ∃ q tokens, Scan.inside file p t cs = (Scan.ofLines file q t []).prepend tokens ∧
      List.Forall₂ Token.WrittenAs tokens ls := by
  induction h generalizing p with
  | last l =>
    obtain ⟨body, hk, hs⟩ := l.form.exists_spells
    refine ⟨p.after l.chars, _, ?_, .cons (hs.writtenAs hk (p.inFile file)) .nil⟩
    rw [← Scan.inside_nil, ← Scan.inside_lexeme hs (ends_of_separator (by simp)), List.append_nil]
  | @cons l gap rest ls hgap hends _ ih =>
    obtain ⟨body, hk, hs⟩ := l.form.exists_spells
    obtain ⟨q, tokens, hinside, htokens⟩ := ih ((p.after l.chars).after gap)
    refine ⟨q, _, ?_, .cons (hs.writtenAs hk (p.inFile file)) htokens⟩
    rw [← hk] at hends
    rw [Scan.inside_lexeme hs hends, Scan.inside_blanks hgap, hinside, Scan.prepend_prepend]
    rfl

/-- So it is at the start of the first line, which has no indent. -/
theorem start_result (h : Spaced cs ls) (file : String) (p : Position) :
    ∃ tokens, (Scan.start file p .fresh cs).result = .ok tokens ∧
      List.Forall₂ Token.WrittenAs tokens ls := by
  obtain ⟨q, tokens, hinside, htokens⟩ := h.inside_eq file p .fresh
  obtain ⟨c, rest, rfl, hc, hh⟩ := h.exists_cons
  refine ⟨tokens, ?_, htokens⟩
  rw [Scan.start_fresh hc hh, hinside, Scan.result_eq_ok]
  exact ⟨rfl, List.append_nil tokens⟩

theorem exists_tokenize {source : String} (h : Spaced source.toList ls)
    (hb : ∀ l ∈ ls.getLast?, ¬l.EndsInEscapedBlank) (file : String) :
    ∃ tokens, tokenize file source = .ok tokens ∧ List.Forall₂ Token.WrittenAs tokens ls := by
  have htrim : trimmed source = source.toList := by
    obtain ⟨pre, c, hcs, hc⟩ := h.exists_concat hb
    rw [trimmed, hcs, Text.trimEnd_concat_solid hc]
  obtain ⟨tokens, hstart, htokens⟩ := h.start_result file .start
  rw [← htrim] at hstart
  exact ⟨tokens, hstart, htokens⟩

end Spaced

/-! ## Tokens that are written alike -/

theorem Number.ofFraction_ne_nan (negative : Bool) (n d : Nat) :
    ofFraction negative n d ≠ .nan := by
  have hlarge : ∀ (large : Prop) [Decidable large] (m : Nat) (e : Int),
      (if large then infinite negative else finite negative m e) ≠ .nan := by
    intro large _ m e
    split <;> nofun
  unfold ofFraction
  split
  · nofun
  · apply hlarge

theorem Number.ofDecimal_ne_nan (negative : Bool) (digits : Nat) (exponent : Int) :
    ofDecimal negative digits exponent ≠ .nan := by
  unfold ofDecimal
  simp only
  split
  · nofun
  · split
    · nofun
    · split <;> apply ofFraction_ne_nan

theorem Number.equal_self {x : Number} (h : x ≠ .nan) : x.equal x := by
  cases x with
  | finite => simp [equal]
  | infinite => simp [equal]
  | nan => exact absurd rfl h

theorem Token.WrittenAs.agrees {u v : Token} {l : Lexeme} (hu : u.WrittenAs l)
    (hv : v.WrittenAs l) : u.agrees v := by
  have hpayload : (decode l.kind l.chars).agrees (decode l.kind l.chars) := by
    cases l.kind with
    | number => exact Number.equal_self (Number.ofDecimal_ne_nan _ _ _)
    | string | identifier => exact beq_self_eq_true _
    | symbol | marker => rfl
  rw [Token.agrees, hu.kind, hv.kind, hu.payload, hv.payload, hpayload, beq_self_eq_true]
  rfl

theorem forall₂_agrees {us vs : List Token} {ls : List Lexeme}
    (hu : List.Forall₂ Token.WrittenAs us ls) (hv : List.Forall₂ Token.WrittenAs vs ls) :
    List.Forall₂ (fun u v => u.agrees v) us vs := by
  induction hu generalizing vs with
  | nil =>
    cases hv
    exact .nil
  | cons h _ ih =>
    cases hv with
    | cons h' hrest => exact .cons (h.agrees h') (ih hrest)

/-- Lexemes that are not extended by what follows them are scanned to one token each, of the kind of
the lexeme, written with it and carrying what it says. The last one must not end with an escaped
blank, which would be trimmed. Whatever blanks there are between them, the tokens are the same. -/
theorem tokenize_spaced {source : String} {ls : List Lexeme} (h : Spaced source.toList ls)
    (hb : ∀ l ∈ ls.getLast?, ¬l.EndsInEscapedBlank) (file : String) :
    ∃ tokens, tokenize file source = .ok tokens ∧ List.Forall₂ Token.WrittenAs tokens ls ∧
      ∀ (file' source' : String), Spaced source'.toList ls → ∃ tokens',
        tokenize file' source' = .ok tokens' ∧
          List.Forall₂ (fun u v => u.agrees v) tokens tokens' := by
  obtain ⟨tokens, hscan, htokens⟩ := h.exists_tokenize hb file
  refine ⟨tokens, hscan, htokens, ?_⟩
  intro file' source' h'
  obtain ⟨tokens', hscan', htokens'⟩ := h'.exists_tokenize hb file'
  exact ⟨tokens', hscan', forall₂_agrees htokens htokens'⟩

theorem tokenize_spaced_touching : ∃ ls tokens tokens', Spaced "1.<>=\\ x".toList ls ∧
    (∀ l ∈ ls.getLast?, ¬l.EndsInEscapedBlank) ∧ tokenize "f" "1.<>=\\ x" = .ok tokens ∧
      ls.map Lexeme.kind = [.number, .symbol .leftAngle, .symbol .atLeast, .identifier] ∧
      List.Forall₂ Token.WrittenAs tokens ls ∧
      tokenize "g" "1. <\t>=  \\ x" = .ok tokens' ∧
      List.Forall₂ (fun u v => u.agrees v) tokens tokens' := by
  let one : Lexeme := ⟨.number, ['1'] ++ '.' :: [],
    .number (.point (by simp) (List.all_eq_true.mp (by decide)) (by simp))⟩
  let less : Lexeme := ⟨.symbol .leftAngle, ['<'], .symbol _⟩
  let least : Lexeme := ⟨.symbol .atLeast, ['>', '='], .symbol _⟩
  let name : Lexeme := ⟨.identifier, ['\\', ' ', 'x'], .escapedName (.plain (by decide) .nil)⟩
  let ls : List Lexeme := [one, less, least, name]
  have hone : ∀ rest, Ends .number one.chars ('<' :: rest) := by
    intro rest c hc
    cases hc
    exact ⟨by decide, by decide, nofun⟩
  have hless : ∀ rest, Ends (.symbol .leftAngle) less.chars ('>' :: rest) := by
    intro rest c hc _
    cases hc
    decide
  have hleast : ∀ rest, Ends (.symbol .atLeast) least.chars rest := by
    intro rest c _ hjoins
    cases hjoins
  have hspace : Text.isBlank ' ' ∧ ' ' ≠ '\n' := by decide
  have htab : Text.isBlank '\t' ∧ '\t' ≠ '\n' := by decide
  have hblank : ∀ {k : Kind} {l : List Char} (c : Char) (rest : List Char), Text.isBlank c →
      Ends k l (c :: rest) := by
    intro k l c rest hc
    apply ends_of_separator
    intro d hd
    cases hd
    exact .inl hc
  have h : Spaced ['1', '.', '<', '>', '=', '\\', ' ', 'x'] ls :=
    @Spaced.cons one [] _ _ (by simp) (hone _) <|
    @Spaced.cons less [] _ _ (by simp) (hless _) <|
    @Spaced.cons least [] _ _ (by simp) (hleast _) <| .last name
  have h' : Spaced ['1', '.', ' ', '<', '\t', '>', '=', ' ', ' ', '\\', ' ', 'x'] ls :=
    @Spaced.cons one [' '] _ _ (by simp [hspace]) (hblank _ _ hspace.1) <|
    @Spaced.cons less ['\t'] _ _ (by simp [htab]) (hblank _ _ htab.1) <|
    @Spaced.cons least [' ', ' '] _ _ (by simp [hspace]) (hleast _) <| .last name
  have hb : ∀ l ∈ ls.getLast?, ¬l.EndsInEscapedBlank := by
    rintro l ⟨⟩ ⟨pre, c, hpre, hc⟩
    have hx : some 'x' = (pre ++ ['\\', c]).getLast? := congrArg List.getLast? hpre
    rw [List.getLast?_append] at hx
    cases hx
    exact absurd hc (by decide)
  have hsource : "1.<>=\\ x".toList = ['1', '.', '<', '>', '=', '\\', ' ', 'x'] := by decide
  have hsource' : "1. <\t>=  \\ x".toList =
      ['1', '.', ' ', '<', '\t', '>', '=', ' ', ' ', '\\', ' ', 'x'] := by decide
  rw [← hsource] at h
  rw [← hsource'] at h'
  obtain ⟨tokens, hscan, htokens, hother⟩ := tokenize_spaced h hb "f"
  obtain ⟨tokens', hscan', hagree⟩ := hother "g" _ h'
  exact ⟨ls, tokens, tokens', h, hb, hscan, rfl, htokens, hscan', hagree⟩

end TraitMarkup
