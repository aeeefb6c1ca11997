import TraitMarkup.Number.Read
import TraitMarkup.Scan.Error
import TraitMarkup.Text.Blank
import TraitMarkup.Token

/-! # Pieces

A text is a sequence of pieces: blanks, line feeds, comments and tokens. What a piece is depends on
nothing but the characters from its first one on, so places and blocks are left to later. If a text
cannot be cut any further, its last piece says why. -/

namespace TraitMarkup

/-- Why a text cannot be cut any further. -/
structure Breach where
  cause : ScanError.Cause
  /-- What stands between the end of the last piece and the place to blame. -/
  before : List Char
  /-- What was read after the last piece before giving up. -/
  seen : List Char

inductive Piece where
  | blank (c : Char)
  | newline
  | comment (text : List Char)
  | token (body : Token.Body) (lexeme : List Char)
  | breach (b : Breach)

namespace Piece

/-- The characters that were read for a piece. -/
def chars : Piece → List Char
  | .blank c => [c]
  | .newline => ['\n']
  | .comment text => text
  | .token _ lexeme => lexeme
  | .breach b => b.seen

def isBreach : Piece → Bool
  | .breach _ => true
  | _ => false

/-- A run of characters in which a backslash takes the next character as it is: the characters meant
and those read for them. -/
inductive Run where
  /-- The run ends before `rest`. -/
  | done (value lexeme rest : List Char)
  /-- The text ends before the run does. -/
  | cut (value lexeme : List Char)
  /-- The text ends with a backslash, read after `lexeme`. -/
  | dangling (lexeme : List Char)

/-- The run with one more character in front. -/
def Run.cons (c : Char) (lexeme : List Char) : Run → Run
  | .done value lexeme' rest => .done (c :: value) (lexeme ++ lexeme') rest
  | .cut value lexeme' => .cut (c :: value) (lexeme ++ lexeme')
  | .dangling lexeme' => .dangling (lexeme ++ lexeme')

/-- The rest of a word. -/
def wordRun : List Char → Run
  | [] => .cut [] []
  | ['\\'] => .dangling []
  | '\\' :: c :: rest => (wordRun rest).cons c ['\\', c]
  | c :: rest => if Word.isContinue c then (wordRun rest).cons c [c] else .done [] [] (c :: rest)

/-- The rest of a literal, with its closing quote. -/
def literalRun (quote : Char) : List Char → Run
  | [] => .cut [] []
  | ['\\'] => .dangling []
  | '\\' :: c :: rest => (literalRun quote rest).cons c ['\\', c]
  | c :: rest =>
    if c = quote then .done [] [c] rest else (literalRun quote rest).cons c [c]

/-- A word whose first characters have been read as `lead`. -/
def readWord (lead cs : List Char) : Piece × List Char :=
  match wordRun cs with
  | .done value lexeme rest =>
    (.token (.identifier (String.ofList (lead ++ value))) (lead ++ lexeme), rest)
  | .cut value lexeme =>
    (.token (.identifier (String.ofList (lead ++ value))) (lead ++ lexeme), [])
  | .dangling lexeme =>
    (.breach ⟨.danglingEscape, lead ++ lexeme, lead ++ lexeme ++ ['\\']⟩, [])

/-- A literal whose opening quote has been read. -/
def readLiteral (quote : Char) (cs : List Char) : Piece × List Char :=
  match literalRun quote cs with
  | .done value lexeme rest => (.token (.string (String.ofList value)) (quote :: lexeme), rest)
  | .cut value lexeme =>
    (.breach ⟨.unterminated quote (String.ofList value), [], quote :: lexeme⟩, [])
  | .dangling lexeme =>
    (.breach ⟨.danglingEscape, quote :: lexeme, quote :: lexeme ++ ['\\']⟩, [])

/-- The longest `digits` or `digits.digits` at the start of a text, with what comes after it. -/
def numeral (cs : List Char) : List Char × List Char :=
  let whole := cs.takeWhile Text.isDecimal
  match cs.dropWhile Text.isDecimal with
  | '.' :: rest =>
    (whole ++ '.' :: rest.takeWhile Text.isDecimal, rest.dropWhile Text.isDecimal)
  | rest => (whole, rest)

/-- A number, or the word that it turns out to start if a backslash follows. -/
def readNumber (cs : List Char) : Piece × List Char :=
  match numeral cs with
  | (lexeme, '\\' :: rest) => readWord lexeme ('\\' :: rest)
  | (lexeme, rest) => (.token (.number (Number.ofNumeral lexeme)) lexeme, rest)

/-- A symbol that starts with the character of `s`, together with an equals sign if they join. -/
def readSymbol (s : Symbol) (rest : List Char) : Piece × List Char :=
  match s.withEquals?, rest with
  | some joined, '=' :: rest => (.token (.symbol joined .none) joined.chars, rest)
  | _, _ => (.token (.symbol s .none) s.chars, rest)

/-- The piece that starts with `c`, and what comes after it. -/
def read (c : Char) (rest : List Char) : Piece × List Char :=
  if c = '#' then (.comment ('#' :: rest.takeWhile (· != '\n')), rest.dropWhile (· != '\n'))
  else if c = '\n' then (.newline, rest)
  else if c = '"' ∨ c = '\'' then readLiteral c rest
  else if Text.isDecimal c then readNumber (c :: rest)
  else if c = '\\' ∨ Word.isStart c then readWord [] (c :: rest)
  else
    match Symbol.ofChar? c with
    | some s => readSymbol s rest
    | none =>
      if Text.isBlank c then (.blank c, rest)
      else (.breach ⟨.invalidCharacter c, [], []⟩, rest)

/-! ## What a piece leaves is shorter -/

/-- What a run leaves. -/
def Run.rest : Run → List Char
  | .done _ _ rest => rest
  | .cut .. => []
  | .dangling _ => []

@[simp] theorem Run.rest_cons (c : Char) (lexeme : List Char) (r : Run) :
    (r.cons c lexeme).rest = r.rest := by
  cases r <;> rfl

theorem length_rest_wordRun (cs : List Char) : (wordRun cs).rest.length ≤ cs.length := by
  fun_induction wordRun cs with
  | case1 => simp [Run.rest]
  | case2 => simp [Run.rest]
  | case3 c rest ih => simp; omega
  | case4 c rest _ _ _ ih => simp; omega
  | case5 => simp [Run.rest]

theorem length_rest_literalRun (quote : Char) (cs : List Char) :
    (literalRun quote cs).rest.length ≤ cs.length := by
  fun_induction literalRun quote cs with
  | case1 => simp [Run.rest]
  | case2 => simp [Run.rest]
  | case3 c rest ih => simp; omega
  | case4 => simp [Run.rest]
  | case5 c rest _ _ _ ih => simp; omega

theorem length_rest_readWord (lead cs : List Char) : (readWord lead cs).2.length ≤ cs.length := by
  have h := length_rest_wordRun cs
  unfold readWord
  split <;> simp_all [Run.rest]

theorem length_rest_readLiteral (quote : Char) (cs : List Char) :
    (readLiteral quote cs).2.length ≤ cs.length := by
  have h := length_rest_literalRun quote cs
  unfold readLiteral
  split <;> simp_all [Run.rest]

theorem length_rest_numeral {c : Char} (hc : Text.isDecimal c) (rest : List Char) :
    (numeral (c :: rest)).2.length ≤ rest.length := by
  have h : (rest.dropWhile Text.isDecimal).length ≤ rest.length :=
    (List.dropWhile_sublist _).length_le
  unfold numeral
  simp only [List.dropWhile_cons_of_pos hc]
  split
  · rename_i rest' heq
    have h' : (rest'.dropWhile Text.isDecimal).length ≤ rest'.length :=
      (List.dropWhile_sublist _).length_le
    simp only [heq, List.length_cons] at h
    simp only
    omega
  · exact h

theorem length_rest_readNumber {c : Char} (hc : Text.isDecimal c) (rest : List Char) :
    (readNumber (c :: rest)).2.length ≤ rest.length := by
  have h := length_rest_numeral hc rest
  unfold readNumber
  split
  · rename_i lexeme rest' heq
    rw [heq] at h
    exact Nat.le_trans (length_rest_readWord lexeme _) h
  · rename_i heq
    rw [heq] at h
    exact h

/-- A word that starts as it should takes at least its first character. -/
theorem length_rest_readWord_cons {c : Char} (hc : c = '\\' ∨ Word.isStart c)
    (rest : List Char) : (readWord [] (c :: rest)).2.length ≤ rest.length := by
  have h : (wordRun (c :: rest)).rest.length ≤ rest.length := by
    by_cases hb : c = '\\'
    · subst hb
      match rest with
      | [] => simp [wordRun, Run.rest]
      | d :: rest =>
        have := length_rest_wordRun rest
        simp only [wordRun, Run.rest_cons, List.length_cons]
        omega
    · have hd := Word.isContinue_of_isStart (hc.resolve_left hb)
      simpa [wordRun, hb, hd] using length_rest_wordRun rest
  unfold readWord
  split <;> simp_all [Run.rest]

theorem length_rest_readSymbol (s : Symbol) (rest : List Char) :
    (readSymbol s rest).2.length ≤ rest.length := by
  unfold readSymbol
  split <;> simp

/-- Every piece takes at least one character. -/
theorem length_rest_read (c : Char) (rest : List Char) : (read c rest).2.length ≤ rest.length := by
  unfold read
  split
  · exact (List.dropWhile_sublist _).length_le
  split
  · exact Nat.le_refl _
  split
  · exact length_rest_readLiteral c rest
  split
  · exact length_rest_readNumber ‹_› rest
  split
  · exact length_rest_readWord_cons ‹_› rest
  split
  · exact length_rest_readSymbol _ rest
  split <;> exact Nat.le_refl _

end Piece

/-- The pieces of a text, up to the first place where it cannot be cut. -/
def pieces : List Char → List Piece
  | [] => []
  | c :: rest =>
    let step := Piece.read c rest
    if step.1.isBreach then [step.1] else step.1 :: pieces step.2
  termination_by cs => cs.length
  decreasing_by
    have := Piece.length_rest_read c rest
    simp only [List.length_cons]
    omega

@[simp] theorem pieces_nil : pieces [] = [] := by rw [pieces]

theorem pieces_cons (c : Char) (rest : List Char) :
    pieces (c :: rest) =
      if (Piece.read c rest).1.isBreach then [(Piece.read c rest).1]
      else (Piece.read c rest).1 :: pieces (Piece.read c rest).2 := by
  rw [pieces]

end TraitMarkup
