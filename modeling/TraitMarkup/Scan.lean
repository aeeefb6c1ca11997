import TraitMarkup.Line
import TraitMarkup.LogicalLine

/-! # Scanning

A whole text is scanned into tokens with markers around its blocks, and a single line into its tokens
and the width of its indent. Either way trailing blanks do not count, and scanning stops at the first
error. -/

namespace TraitMarkup

/-- What scanning has come to: the tokens up to its end or to the first error. -/
structure Scan where
  tokens : List Token
  position : Position
  indentation : Indentation
  error : Option ScanError

namespace Scan

/-- The scan with more tokens in front. -/
def prepend (tokens : List Token) (s : Scan) : Scan := { s with tokens := tokens ++ s.tokens }

/-- The tokens, if there was no error. -/
def result (s : Scan) : Except ScanError (List Token) :=
  match s.error with
  | some e => .error e
  | none => .ok s.tokens

end Scan

/-- The tokens among pieces that start at a position, with their places. -/
structure Placed where
  tokens : List Token
  position : Position
  error : Option ScanError

/-- Puts pieces in their places. -/
def place (file : String) (p : Position) : List Piece → Placed
  | [] => ⟨[], p, none⟩
  | .token body lexeme :: rest =>
    let placed := place file (p.after lexeme) rest
    { placed with tokens := ⟨body, String.ofList lexeme, p.inFile file⟩ :: placed.tokens }
  | .breach b :: _ => ⟨[], p.after b.seen, some ⟨b.cause, (p.after b.before).inFile file⟩⟩
  | piece :: rest => place file (p.after piece.chars) rest

namespace Scan

/-- Scans lines, the first of which starts at `p`. Markers stand at the start of the line before
which blocks open or close, or at the end of the text. -/
def ofLines (file : String) (p : Position) (t : Indentation) : List LogicalLine → Scan
  | [] => ⟨t.close.1.map (.ofMarker (p.inFile file)), p, t.close.2, none⟩
  | line :: rest =>
    match t.enter line with
    | (.error cause, t) => ⟨[], p.after line.indent, t, some ⟨cause, p.inFile file⟩⟩
    | (.ok markers, t) =>
      let placed := place file p line
      let tokens := markers.map (.ofMarker (p.inFile file)) ++ placed.tokens
      match placed.error with
      | some e => ⟨tokens, placed.position, t, some e⟩
      | none => (ofLines file placed.position t rest).prepend tokens

/-- Scans a text whose trailing blanks are gone. -/
def ofChars (file : String) (cs : List Char) : Scan :=
  ofLines file .start .fresh (logicalLines (pieces cs))

end Scan

/-- A text as it is scanned, without its trailing blanks. -/
def trimmed (source : String) : List Char := Text.trimEnd source.toList

/-- Scans a whole text. -/
def scan (file source : String) : Scan := .ofChars file (trimmed source)

/-- The tokens of a whole text. -/
def tokenize (file source : String) : Except ScanError (List Token) := (scan file source).result

/-! ## Single lines -/

/-- What scanning a text as one line has come to. -/
structure LineScan extends Placed where
  indent : Nat

namespace LineScan

/-- Scans a text as one line. Line feeds are blanks like others here, and the indent has to repeat one
blank. -/
def ofChars (file : String) (cs : List Char) : LineScan :=
  let blanks := cs.takeWhile Text.isBlank
  let same := blanks.takeWhile (some · == blanks.head?)
  let p := Position.start.after same
  if same.length < blanks.length then ⟨⟨[], p, some ⟨.mixedIndent, p.inFile file⟩⟩, same.length⟩
  else ⟨place file p (pieces (cs.dropWhile Text.isBlank)), same.length⟩

/-- The line, if there was no error. A line without tokens is none. -/
def result (file : String) (s : LineScan) : Except ScanError (Line Token) :=
  match s.error with
  | some e => .error e
  | none =>
    if h : s.tokens = [] then .error ⟨.noTokens, s.position.inFile file⟩
    else .ok ⟨s.indent, s.tokens, h⟩

end LineScan

/-- Scans a text as one line. -/
def lineScan (file source : String) : LineScan := .ofChars file (trimmed source)

/-- The tokens of a text taken as one line, with the width of its indent. -/
def scanLine (file source : String) : Except ScanError (Line Token) :=
  (lineScan file source).result file

end TraitMarkup
