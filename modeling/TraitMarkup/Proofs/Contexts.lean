import TraitMarkup.Proofs.Positions

/-!
# Tokens in their contexts

What stands before a lexeme has no say in what it is taken for. A text `l ++ rest` starts with the
token that `l` spells if `rest` does not extend `l`, and in no other case: this is so for the reader
of single pieces, for a cursor between two tokens, and for a scan that has the text in front of it as
a whole or as one line (`takenAs_iff`). So the escapes of a word and the quotes of a literal are
undone wherever they are written, and it is known what may be written after them.
-/

namespace TraitMarkup

open Token (Body)

variable {file : String} {body : Body} {l rest : List Char}

/-- In front of `l ++ rest`, the scanner takes `l` for one token and is then in front of `rest`. -/
structure TakenAs (body : Body) (l rest : List Char) : Prop where
  /-- The first piece of the text is the token. -/
  read : ∃ c cs, l ++ rest = c :: cs ∧ Piece.read c cs = (.token body l, rest)
  /-- A cursor between two tokens, wherever it is, adds this one to those it has and no other. -/
  runs : ∀ file single p ts t, Cursor.Runs file single ⟨l ++ rest, p, ts, t, .between⟩
    ⟨rest, p.after l, ts ++ [⟨body, String.ofList l, p.inFile file⟩], t, .between⟩
  /-- A cursor at the start of the text comes to have this token only. -/
  initial : ∀ file single, Cursor.Runs file single (.initial single (l ++ rest))
    ⟨rest, Position.start.after l, [⟨body, String.ofList l, Position.start.inFile file⟩], .fresh,
      .between⟩
  /-- All that the scan of the text finds beside it is found in `rest`. -/
  whole : ∀ file, Scan.ofChars file (l ++ rest) =
    (Scan.inside file (Position.start.after l) .fresh rest).prepend
      [⟨body, String.ofList l, Position.start.inFile file⟩]
  /-- So it is for a text that is one line. -/
  line : ∀ file, LineScan.ofChars file (l ++ rest) =
    ⟨(place file (Position.start.after l) (pieces rest)).cons
      ⟨body, String.ofList l, Position.start.inFile file⟩, 0⟩

/-! ## The start of a text -/

section

variable {c : Char} {cs : List Char}

theorem Indentation.measure_fresh_nil : fresh.measure [] = (.ok [], fresh) := by
  rw [measure_nil, fresh, markers_self]

theorem LineScan.ofChars_solid (h : Text.isBlank c = false) :
    LineScan.ofChars file (c :: cs) = ⟨place file .start (pieces (c :: cs)), 0⟩ :=
  LineScan.ofChars_eq (c := c) (List.takeWhile_cons_of_neg (by simp [h])) file

theorem Cursor.runs_initial {single : Bool} (h : Text.isBlank c = false) (hh : c ≠ '#') :
    Cursor.Runs file single (.initial single (c :: cs)) ⟨c :: cs, .start, [], .fresh, .between⟩ := by
  apply Relation.ReflTransGen.single
  cases single with
  | true =>
    apply step_leading_ends
    rintro d ⟨⟩
    exact h
  | false =>
    have hstep : step file false (initial false (c :: cs)) =
        some (measured file (initial false (c :: cs)) .start []) := step_indent_solid h hh
    have hmeasure : (initial false (c :: cs)).indentation.measure [] = (.ok [], .fresh) :=
      Indentation.measure_fresh_nil
    rw [hstep, measured, hmeasure]
    rfl

end

/-! ## Lexemes -/

theorem takenAs_of_spells (h : Spells body l) (hr : Ends body.kind l rest) :
    TakenAs body l rest := by
  obtain ⟨c, cs, hcons, hblank, hhash⟩ := h.form.exists_cons
  have happend : l ++ rest = c :: (cs ++ rest) := by rw [hcons, List.cons_append]
  refine ⟨Piece.read_append h hr, fun _ _ _ _ _ => Cursor.runs_token h hr, ?_, ?_, ?_⟩
  · intro file single
    have hstart : Cursor.Runs file single (.initial single (l ++ rest))
        ⟨l ++ rest, .start, [], .fresh, .between⟩ := by
      rw [happend]
      exact Cursor.runs_initial hblank hhash
    exact hstart.trans (Cursor.runs_token h hr)
  · intro file
    rw [← Scan.inside_lexeme h hr, happend]
    exact Scan.start_fresh hblank hhash (cs ++ rest)
  · intro file
    rw [← place_lexeme h hr, happend, LineScan.ofChars_solid hblank]

/-- A lexeme is taken for a token exactly if it spells the token and what follows does not extend
it. -/
theorem takenAs_iff : TakenAs body l rest ↔ Spells body l ∧ Ends body.kind l rest := by
  constructor
  · intro h
    obtain ⟨c, cs, -, hread⟩ := h.read
    exact (Piece.spells_of_read hread).2
  · rintro ⟨hs, hr⟩
    exact takenAs_of_spells hs hr

/-! ## Payloads -/

/-- Payloads are read back from what is written for them. A word with its escapes is taken for this
word exactly if there is a word at all and what follows neither goes on with it nor escapes a
character. A literal is taken for its text whatever follows. -/
theorem takenAs_written (w v lexeme : String) (location : Location) (rest : List Char) :
    (TakenAs (.identifier w) (Word.escape w).toList rest ↔
      w ≠ "" ∧ ∀ c ∈ rest.head?, Word.isContinue c = false ∧ c ≠ '\\') ∧
    TakenAs (.string v) (Token.text ⟨.string v, lexeme, location⟩).toList rest := by
  refine ⟨?_, takenAs_of_spells (spells_quote v) trivial⟩
  constructor
  · intro h
    obtain ⟨hs, hr⟩ := takenAs_iff.mp h
    exact ⟨hs.identifier_ne, hr⟩
  · rintro ⟨hne, hr⟩
    exact takenAs_of_spells (spells_escape hne) hr

/-- A bracket that would not start a word, a numeral that goes on one, a comment sign and a line feed
in a word, and a literal that ends with a quote, both before a literal that is never closed. -/
theorem takenAs_written_unclosed :
    TakenAs (.identifier "(½#\n") ['\\', '(', '½', '\\', '#', '\\', '\n'] ['"', 'x'] ∧
      TakenAs (.string "\\\"") ['"', '\\', '\\', '\\', '"', '"'] ['"', 'x'] := by
  have hword : (Word.escape "(½#\n").toList = ['\\', '(', '½', '\\', '#', '\\', '\n'] := by
    decide +kernel
  have hliteral : (Token.text ⟨.string "\\\"", "", .unknown⟩).toList =
      ['"', '\\', '\\', '\\', '"', '"'] := by
    decide +kernel
  have hends : ∀ c ∈ ['"', 'x'].head?, Word.isContinue c = false ∧ c ≠ '\\' := by
    rintro c ⟨⟩
    exact ⟨by decide, by decide⟩
  have htaken := takenAs_written "(½#\n" "\\\"" "" .unknown ['"', 'x']
  rw [hword, hliteral] at htaken
  exact ⟨htaken.1.mpr ⟨by decide, hends⟩, htaken.2⟩

end TraitMarkup
