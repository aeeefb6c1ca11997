import TraitMarkup.Proofs.Coverage
import TraitMarkup.Proofs.LineStart
import TraitMarkup.Proofs.SingleLine

/-!
# Faults of a text

A text that cannot be scanned has a fault at the place that the error names: `Fault before rest
cause` says what is wrong with `rest` where `before` stands in front of it. Nothing is wrong in
front of the fault: the text that ends there with a comment can be scanned. The one exception is a
backslash at the end of the text, which may stand inside a literal.
-/

namespace TraitMarkup

open Token (Kind Body Payload)
open ScanError (Cause)

variable {file : String} {t : Indentation}

/-- What is wrong at the start of a text, with `before` in front of it. -/
inductive Fault (before : List Char) : List Char → Cause → Prop where
  /-- Nothing starts with this character. -/
  | invalid {c : Char} (rest : List Char) : c ∉ ['#', '"', '\'', '\\'] → Text.isBlank c = false →
      Text.isDecimal c = false → Word.isStart c = false → (∀ s : Symbol, c ∉ s.chars) →
      Fault before (c :: rest) (.invalidCharacter c)
  /-- A literal is not closed: its quote stands nowhere but after a backslash. -/
  | unterminated {q : Char} {rest : List Char} : q = '"' ∨ q = '\'' → Escaped (plainIn q) rest →
      Fault before (q :: rest) (.unterminated q (String.ofList (unescape rest)))
  /-- The text ends with a backslash. -/
  | dangling : Fault before ['\\'] .danglingEscape
  /-- The indent of a line is wrong. -/
  | indent {cause : Cause} (rest : List Char) : cause.name = "InconsistentWhitespace" →
      (∀ c ∈ before.getLast?, c = '\n') → Fault before rest cause

/-! ## Where the text cannot be cut -/

theorem Symbol.not_mem_chars {c : Char} (h : ofChar? c = none) (s : Symbol) : c ∉ s.chars := by
  have hchars : s.chars.all fun d => (ofChar? d).isSome := by cases s <;> decide
  intro hc
  have hsome := List.all_eq_true.mp hchars c hc
  rw [h] at hsome
  cases hsome

namespace Piece

variable {c : Char} {cs rest : List Char} {b : Breach}

/-- What is wrong where the text cannot be cut, and that the place to blame is the end of what has
been cut so far, unless it is the end of the text. -/
def Blames (before cs : List Char) (b : Breach) : Prop :=
  ∃ rest, cs = b.before ++ rest ∧ Fault before rest b.cause ∧
    (b.cause ≠ .danglingEscape → b.before = [])

theorem blames_of_readWord {lead : List Char} (h : readWord lead cs = (.breach b, rest))
    (before : List Char) : Blames before (lead ++ cs) b := by
  obtain ⟨l, rest', -, -, -, hread⟩ | ⟨l, rfl, -, hread⟩ := readWord_cases lead cs
  · rw [hread] at h
    cases h
  · rw [hread] at h
    cases h
    exact ⟨['\\'], by simp, .dangling, by simp⟩

theorem blames_of_readLiteral (hc : c = '"' ∨ c = '\'') (h : readLiteral c cs = (.breach b, rest))
    (before : List Char) : Blames before (c :: cs) b := by
  obtain ⟨l, rest', rfl, hl, hr⟩ := exists_escaped_append (plainIn c) cs
  cases hr with
  | text =>
    rw [List.append_nil] at h ⊢
    rw [readLiteral_cut hl] at h
    cases h
    exact ⟨c :: l, rfl, .unterminated hc hl, fun _ => rfl⟩
  | backslash =>
    rw [readLiteral_dangling hl] at h
    cases h
    exact ⟨['\\'], by simp, .dangling, by simp⟩
  | @char d rest' hd hb =>
    have hdc : d = c := by simpa [plainIn, hb] using hd
    subst hdc
    rw [readLiteral_append hl hb] at h
    cases h

theorem blames_of_readNumber (hc : Text.isDecimal c) (h : readNumber (c :: cs) = (.breach b, rest))
    (before : List Char) : Blames before (c :: cs) b := by
  obtain ⟨n, rest', -, -, -, hread⟩ | ⟨n, rest', heq, -, hread⟩ := readNumber_cases hc cs
  · rw [hread] at h
    cases h
  · rw [hread] at h
    rw [heq]
    exact blames_of_readWord h before

theorem blames_of_read (h : read c cs = (.breach b, rest)) (before : List Char) :
    Blames before (c :: cs) b := by
  unfold read at h
  split at h
  · cases h
  rename_i hhash
  split at h
  · cases h
  split at h
  · exact blames_of_readLiteral ‹_› h before
  rename_i hquote
  split at h
  · exact blames_of_readNumber ‹_› h before
  rename_i hdecimal
  split at h
  · exact blames_of_readWord h before
  rename_i hword
  split at h
  · unfold readSymbol at h
    split at h <;> cases h
  rename_i hsymbol
  split at h
  · cases h
  rename_i hblank
  cases h
  rw [not_or] at hquote hword
  refine ⟨c :: cs, rfl, ?_, fun _ => rfl⟩
  apply Fault.invalid
  · simp [hhash, hquote, hword.1]
  · simpa using hblank
  · simpa using hdecimal
  · simpa using hword.2
  · exact Symbol.not_mem_chars hsymbol

end Piece

/-! ## The first fault -/

theorem Position.after_concat (p : Position) (cs : List Char) (c : Char) :
    p.after (cs ++ [c]) = (p.after cs).next c := by
  rw [after_append, after_cons, after_nil]

namespace Scan

/-- An error of a scan, from the place after `before` on, is that of a fault in `cs`, before which
nothing is wrong. -/
def Explains (scan : List Char → Scan) (file : String) (before cs : List Char) (e : ScanError) :
    Prop :=
  ∃ pre rest, cs = pre ++ rest ∧
    e.location = (Position.start.after (before ++ pre)).inFile file ∧
    Fault (before ++ pre) rest e.cause ∧
    (e.cause ≠ .danglingEscape → (scan (pre ++ ['#'])).error = none)

theorem error_inside_comment {text : List Char} (h : '\n' ∉ text) (p : Position) :
    (inside file p t ('#' :: text)).error = none := by
  rw [inside_comment_end h]
  rfl

/-- A scan may start earlier if it gets to the same place. -/
theorem Explains.step {scan scan' : List Char → Scan} {before l cs : List Char} {e : ScanError}
    (h : Explains scan' file (before ++ l) cs e)
    (hscan : ∀ pre rest, cs = pre ++ rest → (scan' (pre ++ ['#'])).error = none →
      (scan (l ++ (pre ++ ['#']))).error = none) : Explains scan file before (l ++ cs) e := by
  obtain ⟨pre, rest, hcs, hlocation, hfault, hclean⟩ := h
  rw [List.append_assoc] at hlocation hfault
  refine ⟨l ++ pre, rest, ?_, hlocation, hfault, ?_⟩
  · rw [hcs, List.append_assoc]
  · intro hcause
    rw [List.append_assoc]
    exact hscan pre rest hcs (hclean hcause)

theorem start_explains {before cs : List Char} {e : ScanError}
    (hline : ∀ c ∈ before.getLast?, c = '\n')
    (hinside : ∀ t, (inside file (Position.start.after before) t cs).error = some e →
      Explains (inside file (Position.start.after before) t) file before cs e)
    (h : (start file (Position.start.after before) t cs).error = some e) :
    Explains (start file (Position.start.after before) t) file before cs e := by
  cases henter : t.enter (pieces cs) with
  | mk r t' =>
    cases r with
    | error cause =>
      rw [start_error henter] at h
      cases h
      refine ⟨[], cs, rfl, by rw [List.append_nil], ?_, ?_⟩
      · rw [List.append_nil]
        exact .indent cs (Indentation.name_of_enter henter) hline
      · intro _
        rw [List.nil_append, start_bare (LogicalLine.isBare_of_head (by simp))]
        exact error_inside_comment (by simp) _
    | ok markers =>
      rw [start_ok henter, error_prepend] at h
      obtain ⟨pre, rest, rfl, hlocation, hfault, hclean⟩ := hinside t' h
      refine ⟨pre, rest, rfl, hlocation, hfault, ?_⟩
      intro hcause
      rcases Indentation.enter_append_cases pre with hblank | happ
      · have hbare : LogicalLine.isBare (pieces (pre ++ ['#'])) = true := by
          rw [LogicalLine.isBare_append hblank]
          exact LogicalLine.isBare_of_head (by simp)
        rw [start_bare hbare, inside_blanks hblank]
        exact error_inside_comment (by simp) _
      · rw [happ, ← happ t ['#']] at henter
        rw [start_ok henter, error_prepend]
        exact hclean hcause

theorem inside_explains {before cs : List Char} {e : ScanError}
    (h : (inside file (Position.start.after before) t cs).error = some e) :
    Explains (inside file (Position.start.after before) t) file before cs e := by
  induction cs using pieces_induction generalizing before t with
  | nil =>
    rw [inside_nil] at h
    cases h
  | blank c rest hb hn ih =>
    rw [inside_blank hb hn, ← Position.after_concat] at h
    apply (ih h).step
    intro pre _ _ hclean
    rwa [List.singleton_append, inside_blank hb hn, ← Position.after_concat]
  | newline rest ih =>
    rw [inside_newline, ← Position.after_concat] at h
    apply (start_explains (by simp) (fun t => ih) h).step
    intro pre _ _ hclean
    rwa [List.singleton_append, inside_newline, ← Position.after_concat]
  | comment text rest ht hr ih =>
    rw [inside_comment ht hr, ← Position.after_append] at h
    apply (ih h).step
    intro pre rest' hrest hclean
    match pre with
    | [] =>
      -- The comment takes in the one that the text is ended with.
      apply error_inside_comment
      simpa using ht
    | c :: pre =>
      have hhead : ∀ d ∈ (c :: pre ++ ['#']).head?, d = '\n' := by
        rw [hrest] at hr
        exact hr
      rwa [inside_comment ht hhead, ← Position.after_append]
  | token body l rest hs hr ih =>
    rw [inside_lexeme hs hr, error_prepend, ← Position.after_append] at h
    apply (ih h).step
    intro pre rest' hrest hclean
    rw [hrest] at hr
    have hends : Ends body.kind l (pre ++ ['#']) :=
      hr.left.append fun _ => ends_of_separator (by simp)
    rwa [inside_lexeme hs hends, error_prepend, ← Position.after_append]
  | breach c cs b rest hread =>
    obtain ⟨rest, hcs, hfault, hfirst⟩ := Piece.blames_of_read hread (before ++ b.before)
    rw [inside_breach hread] at h
    cases h
    refine ⟨b.before, rest, hcs, by rw [Position.after_append], hfault, ?_⟩
    intro hcause
    rw [hfirst hcause]
    exact error_inside_comment (by simp) _

end Scan

theorem column_after_of_getLast {cs : List Char} (h : ∀ c ∈ cs.getLast?, c = '\n') :
    (Position.start.after cs).column = 1 := by
  rcases List.eq_nil_or_concat cs with rfl | ⟨cs, c, rfl⟩
  · rfl
  · obtain rfl : c = '\n' := h c (by simp)
    rw [List.concat_eq_append, Position.after_concat]
    rfl

/-- A wrong indent is blamed on the start of its line. -/
theorem Fault.column {before rest : List Char} {cause : Cause} (h : Fault before rest cause)
    (hname : cause.name = "InconsistentWhitespace") :
    (Position.start.after before).column = 1 := by
  cases h with
  | invalid | unterminated | dangling => simp [Cause.name] at hname
  | indent _ _ hline => exact column_after_of_getLast hline

/-- A text that is refused has a fault at the place of the error, and there is none in front of
it. -/
theorem fault_of_tokenize {source : String} {e : ScanError} (h : tokenize file source = .error e) :
    ∃ o : Nat, e.location = (Position.start.after ((trimmed source).take o)).inFile file ∧
      e.location.offset = o ∧
      Fault ((trimmed source).take o) ((trimmed source).drop o) e.cause ∧
      (e.cause.name = "InconsistentWhitespace" → e.location.column = 1) ∧
      (e.cause ≠ .danglingEscape → ∃ tokens,
        tokenize file (String.ofList ((trimmed source).take o ++ ['#'])) = .ok tokens) := by
  have herror : (Scan.start file (Position.start.after []) .fresh (trimmed source)).error =
      some e := Scan.result_eq_error.mp h
  obtain ⟨before, rest, htext, hlocation, hfault, hclean⟩ :=
    Scan.start_explains (by simp) (fun t => Scan.inside_explains) herror
  rw [List.nil_append] at hlocation hfault
  refine ⟨before.length, ?_⟩
  rw [htext, List.take_left, List.drop_left]
  refine ⟨hlocation, ?_, hfault, ?_, ?_⟩
  · rw [hlocation]
    simp [Position.inFile, Position.start]
  · intro hname
    rw [hlocation]
    exact congrArg Nat.cast (hfault.column hname)
  · intro hcause
    have htrim : trimmed (String.ofList (before ++ ['#'])) = before ++ ['#'] := by
      rw [trimmed, String.toList_ofList]
      exact Text.trimEnd_concat_solid (by decide) before
    refine ⟨_, Scan.result_eq_ok.mpr ⟨?_, rfl⟩⟩
    have hscan := hclean hcause
    rw [← htrim] at hscan
    exact hscan

-- The indent of the third line is at fault, not the literal behind it.
theorem fault_of_tokenize_uneven :
    let source := "a\n  b\n   'c"
    ∃ e, tokenize "f" source = .error e ∧ e.cause = .unevenIndent 3 2 ∧
      Fault ((trimmed source).take 6) ((trimmed source).drop 6) e.cause ∧ e.location.column = 1 ∧
      ∃ tokens, tokenize "f" (String.ofList ((trimmed source).take 6 ++ ['#'])) = .ok tokens := by
  intro source
  have h : tokenize "f" source = .error ⟨.unevenIndent 3 2, ⟨"f", 3, 1, 6⟩⟩ :=
    Scan.result_eq_error.mpr (by decide +kernel)
  obtain ⟨o, -, ho, hfault, hcolumn, hclean⟩ := fault_of_tokenize h
  obtain rfl : o = 6 := (Int.ofNat.inj ho).symm
  exact ⟨_, h, rfl, hfault, hcolumn rfl, hclean (by decide)⟩

end TraitMarkup
