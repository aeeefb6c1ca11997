import TraitMarkup.Indentation
import TraitMarkup.Piece

/-! # Logical lines

A logical line is the pieces from the start of a text, or from after a line feed outside all tokens,
up to and with the next such line feed. A literal or an escape may carry it over several lines of
the text. -/

namespace TraitMarkup

/-- The pieces of one line, its line feed included. -/
abbrev LogicalLine := List Piece

/-- Cuts pieces into lines. -/
def logicalLines : List Piece → List LogicalLine
  | [] => []
  | .newline :: rest => [.newline] :: logicalLines rest
  | piece :: rest =>
    match logicalLines rest with
    | [] => [[piece]]
    | line :: lines => (piece :: line) :: lines

namespace LogicalLine

/-- The blanks at the start of a line. -/
def indent : LogicalLine → List Char
  | .blank c :: rest => c :: indent rest
  | _ => []

/-- What follows the indent of a line. -/
def content : LogicalLine → List Piece
  | .blank _ :: rest => content rest
  | line => line

/-- Whether there is nothing on a line but blanks and perhaps a comment. -/
def isBare (line : LogicalLine) : Bool :=
  match line.content with
  | [] | .newline :: _ | .comment _ :: _ => true
  | _ => false

end LogicalLine

/-- Takes the indent of a line, unless the line is bare: the block structure ignores bare lines. -/
def Indentation.enter (t : Indentation) (line : LogicalLine) :
    Except ScanError.Cause (List Marker) × Indentation :=
  if line.isBare then (.ok [], t) else t.measure line.indent

end TraitMarkup
