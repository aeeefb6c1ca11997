import TraitMarkup.Proofs.ExpressionText
import TraitMarkup.Proofs.Faults
import TraitMarkup.Proofs.Stepping

/-!
# Where the scanner is

The scan of a text is what a cursor comes to that goes through it one character at a time. The cursor
takes a lexeme as a whole run of steps (`Cursor.runs_token`), and it gives up where the text cannot be
cut (`Cursor.runs_breach`), so from between two lexemes it comes to what the scan comes to there
(`Cursor.comesTo_inside`, and `Cursor.comesTo_place` for a text that is one line). What is true of the
cursor at every step is then true of the tokens and of the errors.
-/

namespace TraitMarkup

open Token (Body)

namespace Cursor

variable {file : String} {single : Bool} {p first : Position} {ts : List Token} {t : Indentation}
  {rest : List Char}

/-! ## Runs of characters -/

/-- Characters that are taken one by one in the same way. -/
theorem runs_walk (mode : List Char → Mode) {l : List Char}
    (h : ∀ c ∈ l, ∀ rest p b, step file single ⟨c :: rest, p, ts, t, mode b⟩ =
      some ⟨rest, p.next c, ts, t, mode (b ++ [c])⟩) (b : List Char) :
    Runs file single ⟨l ++ rest, p, ts, t, mode b⟩ ⟨rest, p.after l, ts, t, mode (b ++ l)⟩ := by
  induction l generalizing p b with
  | nil =>
    rw [List.append_nil]
    exact .refl
  | cons c l ih =>
    obtain ⟨hc, hl⟩ := List.forall_mem_cons.mp h
    refine .head (hc (l ++ rest) p b) ?_
    rw [Position.after_cons, List.append_cons b c l]
    exact ih hl (b ++ [c])

theorem runs_numeral {l : List Char} (h : IsNumeral l) :
    Runs file single ⟨l ++ rest, p, ts, t, .numeral first []⟩
      ⟨rest, p.after l, ts, t, .numeral first l⟩ := by
  have hdigits : ∀ {ds : List Char}, (∀ d ∈ ds, Text.isDecimal d) → ∀ c ∈ ds, ∀ rest p b,
      step file single ⟨c :: rest, p, ts, t, .numeral first b⟩ =
        some ⟨rest, p.next c, ts, t, .numeral first (b ++ [c])⟩ := by
    intro ds hds c hc rest p b
    simp [step, past, hds c hc]
  cases h with
  | whole _ hds => exact runs_walk (.numeral first) (hdigits hds) []
  | @point ds fs _ hds hfs =>
    have hnone : '.' ∉ ds := fun hmem => absurd (hds _ hmem) (by decide)
    have hpoint : step file single ⟨'.' :: (fs ++ rest), p.after ds, ts, t, .numeral first ds⟩ =
        some ⟨fs ++ rest, (p.after ds).next '.', ts, t, .numeral first (ds ++ ['.'])⟩ := by
      simp [step, past, hnone]
    rw [List.append_assoc, List.cons_append, Position.after_append, Position.after_cons,
      List.append_cons ds '.' fs]
    exact (runs_walk (.numeral first) (hdigits hds) []).trans
      (.head hpoint (runs_walk (.numeral first) (hdigits hfs) (ds ++ ['.'])))

theorem runs_comment {text : List Char} (h : '\n' ∉ text) (hr : ∀ c ∈ rest.head?, c = '\n') :
    Runs file single ⟨'#' :: text ++ rest, p, ts, t, .between⟩
      ⟨rest, p.after ('#' :: text), ts, t, .between⟩ := by
  have hline : ∀ c ∈ '#' :: text, ∀ rest p (b : List Char),
      step file single ⟨c :: rest, p, ts, t, .comment⟩ = some ⟨rest, p.next c, ts, t, .comment⟩ := by
    intro c hc rest p _
    have hn : c ≠ '\n' := by
      rintro rfl
      simp [h] at hc
    simp [step, past, hn]
  have hends : step file single ⟨rest, p.after ('#' :: text), ts, t, .comment⟩ =
      some ⟨rest, p.after ('#' :: text), ts, t, .between⟩ := by
    cases rest with
    | nil => rfl
    | cons c rest =>
      obtain rfl := hr c rfl
      rfl
  exact .head rfl ((runs_walk (fun _ => .comment) hline []).tail hends)

/-- A word or a literal is read on, escapes included. -/
theorem runs_run (quote : Option Char) {l : List Char} (h : Escaped (plain quote) l)
    (lexeme value : List Char) :
    Runs file single ⟨l ++ rest, p, ts, t, .run first quote lexeme value⟩
      ⟨rest, p.after l, ts, t, .run first quote (lexeme ++ l) (value ++ unescape l)⟩ := by
  induction h generalizing p lexeme value with
  | nil =>
    rw [unescape_nil, List.append_nil, List.append_nil]
    exact .refl
  | @plain c l hc _ ih =>
    have hb : c ≠ '\\' := by
      rintro rfl
      cases quote <;> simp [plain, plainIn, Piece.not_isContinue_backslash] at hc
    have hstep : step file single ⟨c :: (l ++ rest), p, ts, t, .run first quote lexeme value⟩ =
        some ⟨l ++ rest, p.next c, ts, t, .run first quote (lexeme ++ [c]) (value ++ [c])⟩ := by
      simp [step, past, hb, hc]
    rw [unescape_cons hb, List.append_cons lexeme, List.append_cons value]
    exact .head hstep (ih _ _)
  | @pair c l _ ih =>
    have hstep : step file single ⟨'\\' :: c :: (l ++ rest), p, ts, t, .run first quote lexeme value⟩ =
        some ⟨c :: (l ++ rest), p.next '\\', ts, t,
          .escape p first quote (lexeme ++ ['\\']) value⟩ := by
      simp [step, past]
    rw [unescape_pair, List.append_cons lexeme, List.append_cons _ c, List.append_cons value]
    exact .head hstep (.head rfl (ih _ _))

/-! ## Tokens -/

/-- What has been read as a token becomes one. -/
theorem runs_complete {s : Cursor} {body : Body} {l : List Char}
    (h : Runs file single s ⟨rest, p, ts, t, .complete first body l⟩) :
    Runs file single s ⟨rest, p, ts ++ [⟨body, String.ofList l, first.inFile file⟩], t, .between⟩ :=
  h.tail rfl

/-- A word of which `lead` has been read is read to its end. -/
theorem runs_word {l : List Char} (h : Escaped Word.isContinue l) (lead : List Char)
    (hr : ∀ c ∈ rest.head?, Word.isContinue c = false ∧ c ≠ '\\') :
    Runs file single ⟨l ++ rest, p, ts, t, .run first none lead lead⟩
      ⟨rest, p.after l, ts, t, .complete first (.identifier (String.ofList (lead ++ unescape l)))
        (lead ++ l)⟩ := by
  refine (runs_run none h lead lead).tail ?_
  cases rest with
  | nil => rfl
  | cons c rest =>
    obtain ⟨hc, hb⟩ := hr c rfl
    simp [step, turn, plain, hc, hb]

theorem runs_literal {quote : Char} {l : List Char} (hq : quote ≠ '\\')
    (h : Escaped (plainIn quote) l) :
    Runs file single ⟨l ++ quote :: rest, p, ts, t, .run first (some quote) [quote] []⟩
      ⟨rest, (p.after l).next quote, ts, t, .complete first (.string (String.ofList (unescape l)))
        (quote :: l ++ [quote])⟩ := by
  refine (runs_run (some quote) h [quote] []).tail ?_
  simp [step, past, plain, plainIn, hq]

section

variable {c : Char}

theorem step_quote (h : c = '"' ∨ c = '\'') :
    step file single ⟨c :: rest, p, ts, t, .between⟩ =
      some ⟨rest, p.next c, ts, t, .run p (some c) [c] []⟩ := by
  obtain rfl | rfl := h <;> rfl

theorem step_decimal (h : Text.isDecimal c) : step file single ⟨c :: rest, p, ts, t, .between⟩ =
    some ⟨c :: rest, p, ts, t, .numeral p []⟩ := by
  have hh : c ≠ '#' := ne_of_class h (by decide)
  have hn : c ≠ '\n' := ne_of_class h (by decide)
  have hd : c ≠ '"' := ne_of_class h (by decide)
  have hs : c ≠ '\'' := ne_of_class h (by decide)
  simp [step, opening, turn, hh, hn, hd, hs, h]

theorem step_word (h : c = '\\' ∨ Word.isStart c) :
    step file single ⟨c :: rest, p, ts, t, .between⟩ =
      some ⟨c :: rest, p, ts, t, .run p none [] []⟩ := by
  rcases h with rfl | h
  · rfl
  · have hh : c ≠ '#' := ne_of_class h (by decide)
    have hn : c ≠ '\n' := ne_of_class h (by decide)
    have hd : c ≠ '"' := ne_of_class h (by decide)
    have hs : c ≠ '\'' := ne_of_class h (by decide)
    have hdec : Text.isDecimal c = false := not_class_of_class Word.not_isStart_of_isDecimal h
    simp [step, opening, turn, hh, hn, hd, hs, hdec, h]

theorem step_blank (h : Text.isBlank c) (hn : c ≠ '\n') :
    step file single ⟨c :: rest, p, ts, t, .between⟩ =
      some ⟨rest, p.next c, ts, t, .between⟩ := by
  have hh : c ≠ '#' := ne_of_class h (by decide)
  have hd : c ≠ '"' := ne_of_class h (by decide)
  have hs : c ≠ '\'' := ne_of_class h (by decide)
  have hb : c ≠ '\\' := ne_of_class h (by decide)
  have hdec : Text.isDecimal c = false := not_class_of_class Text.not_isBlank_of_isDecimal h
  simp [step, opening, past, hh, hn, hd, hs, hb, hdec, Word.not_isStart_of_isBlank h,
    Symbol.ofChar?_of_isBlank h, h]

theorem step_symbol {o : Symbol} (h : o.chars = [c]) :
    step file single ⟨c :: rest, p, ts, t, .between⟩ =
      some ⟨rest, p.next c, ts, t, .operator p o⟩ := by
  have hmem : c ∈ o.chars := by simp [h]
  obtain ⟨hh, hn, hd, hs, hb, hdec, hstart, -⟩ := Symbol.of_mem_chars hmem
  simp [step, opening, past, hh, hn, hd, hs, hb, hdec, hstart, Symbol.ofChar?_eq_some.mpr h]

/-- An equals sign joins with the symbol before it. -/
theorem step_operator {o joined : Symbol} (h : o.withEquals? = some joined) :
    step file single ⟨'=' :: rest, p, ts, t, .operator first o⟩ =
      some ⟨rest, p.next '=', ts, t, .complete first (.symbol joined .none) joined.chars⟩ := by
  simp [step, past, h]

theorem step_operator_ends {o : Symbol} (h : Ends (.symbol o) o.chars rest) :
    step file single ⟨rest, p, ts, t, .operator first o⟩ =
      some ⟨rest, p, ts, t, .complete first (.symbol o .none) o.chars⟩ := by
  cases rest with
  | nil => rfl
  | cons c rest =>
    have hc := h c rfl
    cases hjoins : o.withEquals? with
    | none => simp [step, turn, hjoins]
    | some joined =>
      have hc : c ≠ '=' := hc (by simp [hjoins])
      simp [step, turn, hjoins, hc]

theorem step_numeral_ends {l : List Char} (h : Ends .number l rest) :
    step file single ⟨rest, p, ts, t, .numeral first l⟩ =
      some ⟨rest, p, ts, t, .complete first (.number (.ofNumeral l)) l⟩ := by
  cases rest with
  | nil => rfl
  | cons c rest =>
    obtain ⟨hdec, hb, hpoint⟩ := h c rfl
    have hnot : ¬(c = '.' ∧ '.' ∉ l) := fun hc => hc.2 (hpoint hc.1)
    simp [step, turn, hdec, hb, hnot]

theorem step_numeral_backslash {l : List Char} :
    step file single ⟨'\\' :: rest, p, ts, t, .numeral first l⟩ =
      some ⟨'\\' :: rest, p, ts, t, .run first none l l⟩ := by
  have hdec : Text.isDecimal '\\' = false := by decide
  simp [step, turn, hdec]

end

/-- A numeral before a backslash turns out to start a word. -/
theorem runs_numeral_word {n : List Char} (h : IsNumeral n) :
    Runs file single ⟨n ++ '\\' :: rest, p, ts, t, .between⟩
      ⟨'\\' :: rest, p.after n, ts, t, .run p none n n⟩ := by
  obtain ⟨c, cs, rfl, hc⟩ := Piece.exists_cons_of_isNumeral h
  exact .head (step_decimal hc) ((runs_numeral h).tail step_numeral_backslash)

theorem runs_symbol {o : Symbol} (h : Ends (.symbol o) o.chars rest) :
    Runs file single ⟨o.chars ++ rest, p, ts, t, .between⟩
      ⟨rest, p.after o.chars, ts, t, .complete p (.symbol o .none) o.chars⟩ := by
  obtain ⟨c, hc⟩ | ⟨joining, c, hjoins, hc⟩ := o.chars_cases
  · have hends : step file single ⟨rest, p.next c, ts, t, .operator p o⟩ =
        some ⟨rest, p.next c, ts, t, .complete p (.symbol o .none) o.chars⟩ :=
      step_operator_ends h
    rw [hc] at hends ⊢
    exact .head (step_symbol hc) (.single hends)
  · have hequals : step file single ⟨'=' :: rest, p.next c, ts, t, .operator p joining⟩ =
        some ⟨rest, (p.next c).next '=', ts, t, .complete p (.symbol o .none) o.chars⟩ :=
      step_operator hjoins
    have hchars := Symbol.chars_withEquals? hjoins
    rw [hc] at hchars
    rw [hchars] at hequals ⊢
    exact .head (step_symbol hc) (.single hequals)

/-- From between the tokens, the cursor gets past the next one. -/
theorem runs_token {body : Body} {l : List Char} (h : Spells body l)
    (hr : Ends body.kind l rest) : Runs file single ⟨l ++ rest, p, ts, t, .between⟩
      ⟨rest, p.after l, ts ++ [⟨body, String.ofList l, p.inFile file⟩], t, .between⟩ := by
  apply runs_complete
  obtain ⟨hform, hpayload⟩ := h
  cases body with
  | marker => cases hform
  | symbol o carried =>
    cases hform
    obtain rfl : carried = .none := hpayload
    exact runs_symbol hr
  | number x =>
    cases hform with
    | number hn =>
      cases hpayload
      obtain ⟨c, cs, rfl, hc⟩ := Piece.exists_cons_of_isNumeral hn
      exact .head (step_decimal hc) ((runs_numeral hn).tail (step_numeral_ends hr))
  | string value =>
    cases hpayload
    cases hform with
    | @string quote l hq hl =>
      have hb : quote ≠ '\\' := by rcases hq with rfl | rfl <;> decide
      have hvalue : (quote :: l ++ [quote]).tail.dropLast = l := by simp
      rw [hvalue, List.append_assoc, List.singleton_append, List.cons_append,
        Position.after_append, Position.after_cons, Position.after_cons, Position.after_nil]
      exact .head (step_quote hq) (runs_literal hb hl)
  | identifier value =>
    cases hpayload
    cases hform with
    | @name c l hc hl =>
      exact .head (step_word (.inr hc))
        (runs_word (.plain (Word.isContinue_of_isStart hc) hl) [] hr)
    | @escapedName c l hl => exact .head (step_word (.inl rfl)) (runs_word (.pair hl) [] hr)
    | @numeralName n c l hn hl =>
      rw [unescape_append (Piece.not_mem_backslash_numeral hn), List.append_assoc,
        Position.after_append]
      exact (runs_numeral_word hn).trans (runs_word (.pair hl) n hr)

/-! ## Where the text cannot be cut -/

/-- A word or a literal goes up to a backslash at the end of the text. -/
theorem runs_dangling (quote : Option Char) {l : List Char} (h : Escaped (plain quote) l)
    (lexeme value : List Char) :
    Runs file single ⟨l ++ ['\\'], p, ts, t, .run first quote lexeme value⟩
      ⟨[], (p.after l).next '\\', ts, t, .failed .danglingEscape (p.after l)⟩ := by
  have hescape : step file single ⟨['\\'], p.after l, ts, t,
      .run first quote (lexeme ++ l) (value ++ unescape l)⟩ = some ⟨[], (p.after l).next '\\', ts, t,
        .escape (p.after l) first quote (lexeme ++ l ++ ['\\']) (value ++ unescape l)⟩ := by
    simp [step, past]
  exact (runs_run quote h lexeme value).trans (.head hescape (.single rfl))

section

variable {c : Char} {cs : List Char} {b : Breach}

theorem runs_of_readWord {lead : List Char} (h : Piece.readWord lead cs = (.breach b, rest)) :
    Runs file single ⟨cs, p.after lead, ts, t, .run p none lead lead⟩
      ⟨[], p.after b.seen, ts, t, .failed b.cause (p.after b.before)⟩ := by
  obtain ⟨l, rest', -, -, -, hread⟩ | ⟨l, rfl, hl, hread⟩ := Piece.readWord_cases lead cs
  · rw [hread] at h
    cases h
  · rw [hread] at h
    cases h
    simp only [Position.after_append, Position.after_cons, Position.after_nil]
    exact runs_dangling none hl lead lead

theorem runs_of_readLiteral (h : Piece.readLiteral c cs = (.breach b, rest)) :
    Runs file single ⟨cs, p.next c, ts, t, .run p (some c) [c] []⟩
      ⟨[], p.after b.seen, ts, t, .failed b.cause (p.after b.before)⟩ := by
  obtain ⟨l, rest', rfl, hl, hr⟩ := exists_escaped_append (plainIn c) cs
  cases hr with
  | text =>
    rw [List.append_nil, Piece.readLiteral_cut hl] at h
    cases h
    exact (runs_run (some c) hl [c] []).tail rfl
  | backslash =>
    rw [Piece.readLiteral_dangling hl] at h
    cases h
    simp only [Position.after_append, Position.after_cons, Position.after_nil]
    exact runs_dangling (some c) hl [c] []
  | @char d rest' hd hb =>
    have hdc : d = c := by simpa [plainIn, hb] using hd
    subst hdc
    rw [Piece.readLiteral_append hl hb] at h
    cases h

theorem runs_of_readNumber (hc : Text.isDecimal c)
    (h : Piece.readNumber (c :: cs) = (.breach b, rest)) :
    Runs file single ⟨c :: cs, p, ts, t, .between⟩
      ⟨[], p.after b.seen, ts, t, .failed b.cause (p.after b.before)⟩ := by
  obtain ⟨n, rest', -, -, -, hread⟩ | ⟨n, rest', heq, hn, hread⟩ := Piece.readNumber_cases hc cs
  · rw [hread] at h
    cases h
  · rw [hread] at h
    rw [heq]
    exact (runs_numeral_word hn).trans (runs_of_readWord h)

theorem runs_breach (h : Piece.read c cs = (.breach b, rest)) :
    ∃ unread, Runs file single ⟨c :: cs, p, ts, t, .between⟩
      ⟨unread, p.after b.seen, ts, t, .failed b.cause (p.after b.before)⟩ := by
  unfold Piece.read at h
  split at h
  · cases h
  rename_i hhash
  split at h
  · cases h
  rename_i hnewline
  split at h
  · rename_i hquote
    exact ⟨[], .head (step_quote hquote) (runs_of_readLiteral h)⟩
  rename_i hquote
  split at h
  · exact ⟨[], runs_of_readNumber ‹_› h⟩
  rename_i hdecimal
  split at h
  · rename_i hword
    exact ⟨[], .head (step_word hword) (runs_of_readWord h)⟩
  rename_i hword
  split at h
  · unfold Piece.readSymbol at h
    split at h <;> cases h
  rename_i hsymbol
  split at h
  · cases h
  rename_i hblank
  cases h
  refine ⟨c :: rest, .single ?_⟩
  simp [step, opening, turn, hhash, hnewline, hquote, hdecimal, hword, hsymbol, hblank]

end

/-! ## Where a run ends -/

/-- The error of a cursor that has failed. -/
def error (file : String) (s : Cursor) : Option ScanError :=
  match s.mode with
  | .failed cause blamed => some ⟨cause, blamed.inFile file⟩
  | _ => none

/-- What a cursor has come to. -/
def outcome (file : String) (s : Cursor) : Scan :=
  ⟨s.tokens, s.position, s.indentation, s.error file⟩

/-- There is an end to the run from here, and this is what it comes to. -/
def ComesTo (file : String) (single : Bool) (s : Cursor) (r : Scan) : Prop :=
  ∃ s', Runs file single s s' ∧ s'.step file single = none ∧ s'.outcome file = r

namespace ComesTo

variable {s s' : Cursor} {r : Scan}

theorem of_runs (h : Runs file single s s') (hr : ComesTo file single s' r) :
    ComesTo file single s r := by
  obtain ⟨last, hruns, hlast, rfl⟩ := hr
  exact ⟨last, h.trans hruns, hlast, rfl⟩

/-- There is one run only, so it comes to the same from any cursor on it. -/
theorem later (hr : ComesTo file single s r) (h : Runs file single s s') :
    ComesTo file single s' r := by
  obtain ⟨last, hruns, hlast, rfl⟩ := hr
  refine ⟨last, ?_, hlast, rfl⟩
  have hunique : Relator.RightUnique fun s s' : Cursor => s.step file single = some s' := by
    intro a b c hb hc
    exact Option.some.inj (hb.symm.trans hc)
  rcases Relation.ReflTransGen.total_of_right_unique hunique hruns h with hback | hforth
  · cases hback.cases_head with
    | inl heq => exact heq ▸ .refl
    | inr hstep =>
      obtain ⟨next, hnext, -⟩ := hstep
      rw [hlast] at hnext
      cases hnext
  · exact hforth

end ComesTo

theorem runs_blanks {ws : List Char} (h : ∀ c ∈ ws, Text.isBlank c ∧ c ≠ '\n') :
    Runs file single ⟨ws ++ rest, p, ts, t, .between⟩ ⟨rest, p.after ws, ts, t, .between⟩ :=
  runs_walk (fun _ => .between) (fun c hc _ _ _ => step_blank (h c hc).1 (h c hc).2) []

theorem runs_indent {ws : List Char} (h : ∀ c ∈ ws, Text.isBlank c ∧ c ≠ '\n') :
    Runs file single ⟨ws ++ rest, p, ts, t, .indent first []⟩
      ⟨rest, p.after ws, ts, t, .indent first ws⟩ := by
  refine runs_walk (.indent first) ?_ []
  intro c hc rest p b
  simp [step, past, h c hc]

theorem step_indent_bare {ws : List Char} (h : ∀ c ∈ rest.head?, c = '\n' ∨ c = '#') :
    step file single ⟨rest, p, ts, t, .indent first ws⟩ = some ⟨rest, p, ts, t, .between⟩ := by
  cases rest with
  | nil => rfl
  | cons c rest => obtain rfl | rfl := h c rfl <;> rfl

theorem step_indent_solid {ws : List Char} {c : Char} (h : Text.isBlank c = false) (hh : c ≠ '#') :
    step file single ⟨c :: rest, p, ts, t, .indent first ws⟩ =
      some (measured file ⟨c :: rest, p, ts, t, .indent first ws⟩ first ws) := by
  have hn : c ≠ '\n' := by
    rintro rfl
    exact absurd h (by decide)
  simp [step, h, hh, hn]

/-- At the start of a line, the cursor does what the scan does, if it does so inside. -/
theorem comesTo_start {cs : List Char}
    (hinside : ∀ ts t, ComesTo file false ⟨cs, p, ts, t, .between⟩
      ((Scan.inside file p t cs).prepend ts)) :
    ComesTo file false ⟨cs, p, ts, t, .indent p []⟩ ((Scan.start file p t cs).prepend ts) := by
  obtain ⟨ws, rest, rfl, hws, hrest⟩ :=
    exists_span (fun c => Text.isBlank c && decide (c ≠ '\n')) cs
  have hws : ∀ c ∈ ws, Text.isBlank c ∧ c ≠ '\n' := by simpa using hws
  apply ComesTo.of_runs (runs_indent hws)
  by_cases hbare : ∀ c ∈ rest.head?, c = '\n' ∨ c = '#'
  · rw [Scan.start_bare (by rw [LogicalLine.isBare_append hws, LogicalLine.isBare_of_head hbare])]
    exact .of_runs (.single (step_indent_bare hbare)) ((hinside ts t).later (runs_blanks hws))
  · cases rest with
    | nil => exact absurd (by simp) hbare
    | cons c rest =>
      have hc : c ≠ '\n' ∧ c ≠ '#' := by simpa using hbare
      have hblank : Text.isBlank c = false := by
        simpa [hc.1] using hrest c rfl
      apply ComesTo.of_runs (.single (step_indent_solid hblank hc.2))
      rw [Scan.start_line hws hblank hc.2, measured]
      rcases t.measure ws with ⟨cause | markers, t'⟩
      · refine ⟨_, .refl, rfl, ?_⟩
        simp [outcome, error, turn, Scan.prepend]
      · have hlater := (hinside (ts ++ markers.map (.ofMarker (p.inFile file))) t').later
          (runs_blanks hws)
        rw [Scan.inside_blanks hws] at hlater
        rw [Scan.prepend_prepend]
        exact hlater

theorem comesTo_inside (cs : List Char) :
    ComesTo file false ⟨cs, p, ts, t, .between⟩ ((Scan.inside file p t cs).prepend ts) := by
  induction cs using pieces_induction generalizing p ts t with
  | nil =>
    refine ⟨_, .single rfl, rfl, ?_⟩
    rw [Scan.inside_nil]
    rfl
  | blank c rest hb hn ih =>
    rw [Scan.inside_blank hb hn]
    exact .of_runs (.single (step_blank hb hn)) ih
  | newline rest ih =>
    rw [Scan.inside_newline]
    exact .of_runs (.single rfl) (comesTo_start fun _ _ => ih)
  | comment text rest ht hr ih =>
    rw [Scan.inside_comment ht hr]
    exact .of_runs (runs_comment ht hr) ih
  | token body l rest hs hr ih =>
    rw [Scan.inside_lexeme hs hr, Scan.prepend_prepend]
    exact .of_runs (runs_token hs hr) ih
  | breach c cs b rest hread =>
    obtain ⟨unread, hruns⟩ := runs_breach hread
    refine ⟨_, hruns, rfl, ?_⟩
    rw [Scan.inside_breach hread]
    simp [outcome, error, Scan.prepend]

/-! ## Single lines -/

/-- What pieces in their places come to, where the indentation does not matter. -/
def ofPlaced (placed : Placed) (t : Indentation) : Scan :=
  ⟨placed.tokens, placed.position, t, placed.error⟩

theorem comesTo_place (cs : List Char) : ComesTo file true ⟨cs, p, ts, t, .between⟩
    ((ofPlaced (place file p (pieces cs)) t).prepend ts) := by
  induction cs using pieces_induction generalizing p ts with
  | nil =>
    refine ⟨⟨[], p, ts, t, .done⟩, .single rfl, rfl, ?_⟩
    rw [pieces_nil]
    simp [outcome, error, ofPlaced, place, Scan.prepend]
  | blank c rest hb hn ih =>
    rw [place_blank hb]
    exact .of_runs (.single (step_blank hb hn)) ih
  | newline rest ih =>
    rw [place_blank (by decide)]
    exact .of_runs (.single rfl) ih
  | comment text rest ht hr ih =>
    rw [List.cons_append, pieces_cons, Piece.read_comment ht hr]
    exact .of_runs (runs_comment ht hr) ih
  | token body l rest hs hr ih =>
    have hcons : (ofPlaced (place file p (pieces (l ++ rest))) t).prepend ts =
        (ofPlaced (place file (p.after l) (pieces rest)) t).prepend
          (ts ++ [⟨body, String.ofList l, p.inFile file⟩]) := by
      rw [place_lexeme hs hr, ← Scan.prepend_prepend]
      rfl
    rw [hcons]
    exact .of_runs (runs_token hs hr) ih
  | breach c cs b rest hread =>
    obtain ⟨unread, hruns⟩ := runs_breach hread
    refine ⟨_, hruns, rfl, ?_⟩
    rw [pieces_cons, hread]
    simp [outcome, error, ofPlaced, place, Piece.isBreach, Scan.prepend]

theorem runs_leading {blank : Option Char} {l : List Char}
    (h : ∀ c ∈ l, Text.isBlank c ∧ some c = blank) :
    Runs file single ⟨l ++ rest, p, ts, t, .leading blank⟩
      ⟨rest, p.after l, ts, t, .leading blank⟩ := by
  refine runs_walk (fun _ => .leading blank) ?_ []
  intro c hc rest p _
  simp [step, past, h c hc]

theorem step_leading_ends {blank : Option Char} (h : ∀ c ∈ rest.head?, Text.isBlank c = false) :
    step file single ⟨rest, p, ts, t, .leading blank⟩ = some ⟨rest, p, ts, t, .between⟩ := by
  cases rest with
  | nil => rfl
  | cons c rest => simp [step, turn, h c rfl]

theorem step_leading_mixed {blank : Option Char} {c : Char} (h : Text.isBlank c)
    (hc : some c ≠ blank) : step file single ⟨c :: rest, p, ts, t, .leading blank⟩ =
      some ⟨c :: rest, p, ts, t, .failed .mixedIndent p⟩ := by
  simp [step, turn, h, hc]

theorem comesTo_leading (text : List Char) : ComesTo file true (initial true text)
    (ofPlaced (LineScan.ofChars file text).toPlaced .fresh) := by
  obtain ⟨blanks, solid, rfl, hblanks, hsolid⟩ := exists_span Text.isBlank text
  obtain ⟨htake, hdrop⟩ := span_append hblanks hsolid
  obtain ⟨same, others, hsplit, hsame, hothers⟩ := exists_span (some · == blanks.head?) blanks
  have htake' : blanks.takeWhile (some · == blanks.head?) = same := by
    have hspan := (span_append hsame hothers).1
    rwa [← hsplit] at hspan
  have hhead : ∀ c ∈ blanks, (blanks ++ solid).head? = blanks.head? :=
    fun c hc => List.head?_append_of_ne_nil _ (List.ne_nil_of_mem hc)
  have hleading : ∀ c ∈ same, Text.isBlank c ∧ some c = (blanks ++ solid).head? := by
    intro c hc
    have hmem : c ∈ blanks := by simp [hsplit, hc]
    exact ⟨hblanks c hmem, by rw [hhead c hmem]; exact beq_iff_eq.mp (hsame c hc)⟩
  have hruns : Runs file true (initial true (blanks ++ solid))
      ⟨others ++ solid, Position.start.after same, [], .fresh, .leading (blanks ++ solid).head?⟩ := by
    have hinitial : initial true (blanks ++ solid) = ⟨same ++ (others ++ solid), .start, [], .fresh,
        .leading (blanks ++ solid).head?⟩ := by
      rw [← List.append_assoc, ← hsplit]
      rfl
    rw [hinitial]
    exact runs_leading hleading
  apply ComesTo.of_runs hruns
  simp only [LineScan.ofChars, htake, hdrop, htake']
  cases others with
  | nil =>
    rw [if_neg (by simp [hsplit])]
    exact .of_runs (.single (step_leading_ends hsolid)) (comesTo_place solid)
  | cons d others =>
    -- a blank that differs from the first one is refused
    have hmem : d ∈ blanks := by simp [hsplit]
    have hd : some d ≠ (blanks ++ solid).head? := by
      rw [hhead d hmem]
      exact beq_eq_false_iff_ne.mp (hothers d rfl)
    rw [if_pos (by simp [hsplit])]
    exact ⟨_, .single (step_leading_mixed (hblanks d hmem) hd), rfl, rfl⟩

/-! ## Whole texts -/

theorem comesTo_scan (source : String) :
    ComesTo file false (initial false (trimmed source)) (scan file source) :=
  comesTo_start fun _ _ => comesTo_inside (trimmed source)

/-- All that a run comes to is in its place. -/
theorem ComesTo.sound {text : List Char} {r : Scan}
    (h : ComesTo file single (initial single text) r) : InPlace file text r.tokens ∧
      r.position.Marks text ∧ ∀ e, r.error = some e → e.location.Marks file text := by
  obtain ⟨s, hruns, -, rfl⟩ := h
  have hsound : Sound file text s := (Sound.initial single text).runs hruns
  refine ⟨hsound.inPlace, hsound.follows.marks, ?_⟩
  intro e he
  have he : s.error file = some e := he
  unfold error at he
  split at he
  · rename_i cause blamed hmode
    cases he
    exact ⟨blamed, (hsound.known blamed (by simp [known, hmode, Mode.notes])).1, rfl⟩
  · cases he

end Cursor

/-- At every step on the way through a text, taken as a whole or as one line, the line and the column
are those of the offset. The scan is what this way comes to. So the tokens of the text are in their
places, in the order of the text, and so is an error. -/
theorem positions_mark (file source : String) :
    (∀ single s, Cursor.Runs file single (.initial single (trimmed source)) s →
      s.position.Marks (trimmed source)) ∧
    Cursor.ComesTo file false (.initial false (trimmed source)) (scan file source) ∧
    Cursor.ComesTo file true (.initial true (trimmed source))
      (Cursor.ofPlaced (lineScan file source).toPlaced .fresh) ∧
    (∀ tokens, tokenize file source = .ok tokens → InPlace file (trimmed source) tokens) ∧
    (∀ l, scanLine file source = .ok l → InPlace file (trimmed source) l.members) ∧
    ∀ e, tokenize file source = .error e ∨ scanLine file source = .error e →
      e.location.Marks file (trimmed source) := by
  have hwhole : Cursor.ComesTo file false _ _ := Cursor.comesTo_scan source
  have hline : Cursor.ComesTo file true _ _ := Cursor.comesTo_leading (trimmed source)
  obtain ⟨htokens, -, herror⟩ := hwhole.sound
  obtain ⟨hmembers, hposition, hlineError⟩ := hline.sound
  refine ⟨?_, hwhole, hline, ?_, ?_, ?_⟩
  · intro single s hruns
    exact ((Cursor.Sound.initial single _).runs hruns).follows.marks
  · intro tokens hok
    rw [← (Scan.result_eq_ok.mp hok).2]
    exact htokens
  · intro l hok
    rw [LineScan.members_eq hok]
    exact hmembers
  · intro e he
    rcases he with he | he
    · exact herror e (Scan.result_eq_error.mp he)
    · rcases LineScan.error_of_result he with he | rfl
      · exact hlineError e he
      · exact ⟨_, hposition, rfl⟩

end TraitMarkup
