import TraitMarkup.Text.Letter
import TraitMarkup.Text.Numeral

/-! # Words

A bare word starts with a letter or an underscore and goes on with letters, numerals, underscores
and round brackets, the latter because `me()` is one word. Any other character may stand in it after
a backslash. -/

namespace TraitMarkup.Word

/-- Whether a word may start with `c` as it is. -/
def isStart (c : Char) : Bool := c == '_' || Text.isLetter c

/-- Whether a word may go on with `c` as it is. -/
def isContinue (c : Char) : Bool :=
  c == '_' || Text.isLetter c || Text.isNumeral c || c == '(' || c == ')'

theorem isContinue_of_isStart {c : Char} (h : isStart c) : isContinue c := by
  simp only [isStart, Bool.or_eq_true] at h
  simp only [isContinue, Bool.or_eq_true]
  rcases h with h | h <;> simp [h]

/-- A character with a backslash before it unless it is safe. -/
def escapeUnless (safe : Char → Bool) (c : Char) : List Char := if safe c then [c] else ['\\', c]

/-- The characters of a word as they are written: each with a backslash if it cannot stand as it is
in its place. -/
def escapeChars : List Char → List Char
  | [] => []
  | c :: cs => escapeUnless isStart c ++ cs.flatMap (escapeUnless isContinue)

/-- A word as it is written. -/
def escape (s : String) : String := String.ofList (escapeChars s.toList)

/-- Text as it stands between double quotes: with a backslash before each backslash and each double
quote. -/
def quoteChars (cs : List Char) : List Char :=
  '"' :: cs.flatMap (escapeUnless fun c => c != '\\' && c != '"') ++ ['"']

/-- A text as a literal in double quotes. -/
def quote (s : String) : String := String.ofList (quoteChars s.toList)

end TraitMarkup.Word
