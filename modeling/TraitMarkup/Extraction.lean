import TraitMarkup.Log
import TraitMarkup.Text.LineEnd

/-! # Extraction

A line of text is scanned and reduced to expressions. The lines of a source are extracted one by one:
a bad line does not keep the others from being read, and lines without tokens are passed over. -/

namespace TraitMarkup

/-- The stages that a line goes through. -/
inductive Stage where
  | scanning | reduction
  deriving DecidableEq

/-- The name under which a stage reports that it failed. -/
def Stage.failure : Stage → String
  | .scanning => "TokenFailure"
  | .reduction => "ExprFailure"

/-- The error that stops a line. -/
inductive LineError where
  | scan (e : ScanError)
  | reduce (e : ReduceError)
  deriving DecidableEq

/-- The one-line form. -/
def LineError.text : LineError → String
  | .scan e => e.text
  | .reduce e => e.text

/-- Why a line has no expressions: an error, laid to a stage. -/
structure LineFailure where
  stage : Stage
  error : LineError
  deriving DecidableEq

namespace LineFailure

/-- The line cannot be scanned. -/
def ofScan (e : ScanError) : LineFailure := ⟨.scanning, .scan e⟩

/-- The tokens of the line cannot be reduced. -/
def ofReduce (e : ReduceError) : LineFailure := ⟨.reduction, .reduce e⟩

/-- The name of the stage's failure. -/
def name (f : LineFailure) : String := f.stage.failure

/-- The one-line form. -/
def text (f : LineFailure) : String := s!"{f.name}: {f.error.text}"

/-- The form in log records. -/
def details (f : LineFailure) : String := s!"{f.name}({Text.quoted f.error.text})"

/-- Whether the line only lacks tokens. -/
def isBlank (f : LineFailure) : Bool :=
  match f.error with
  | .scan e => e.cause == .noTokens
  | .reduce _ => false

end LineFailure

/-- Why extraction stops: the line is bad, or it has an integer that is too long to be looked at. -/
inductive ExtractFailure where
  | line (f : LineFailure)
  | tooLong (e : Unsigned.TooLong)
  deriving DecidableEq

/-- The expressions of a text taken as one line. -/
def extractLine (file text : String) : Except ExtractFailure (Line Expression) :=
  match scanLine file text with
  | .error e => .error (.line (.ofScan e))
  | .ok tokens =>
    match reduceLine tokens with
    | .ok line => .ok line
    | .error (.refused e) => .error (.line (.ofReduce e))
    | .error (.tooLong e) => .error (.tooLong e)

/-- The records of extracting a line. -/
def extractLineLog (file text : String) : List LogRecord :=
  let scan := lineScan file text
  let reduction :=
    match scan.result file with
    | .ok line => (Reduction.of line.members).log
    | .error _ => []
  scan.log file ++ reduction

/-- What extracting the lines of a source has come to: the numbered lines, good or bad, up to the end
or to an integer that is too long. -/
structure Extraction where
  lines : List (Nat × Except LineFailure (Line Expression))
  log : List LogRecord
  stop : Option Unsigned.TooLong

/-- Extracts the numbered lines of a source. -/
def Extraction.ofLines (file : String) : List (Nat × String) → Extraction
  | [] => ⟨[], [], none⟩
  | (number, text) :: rest =>
    let log := extractLineLog file text
    match extractLine file text with
    | .error (.tooLong e) => ⟨[], log, some e⟩
    | .ok line =>
      let more := ofLines file rest
      { more with lines := (number, .ok line) :: more.lines, log := log ++ more.log }
    | .error (.line f) =>
      let more := ofLines file rest
      if f.isBlank then { more with log := log ++ more.log }
      else
        { more with
          lines := (number, .error f) :: more.lines
          log := log ++ ⟨.extraction, s!"Line {number} failed: {f.text}"⟩ :: more.log }

/-- The lines of a source with their numbers, from one on. -/
def numberedLines (source : String) : List (Nat × String) :=
  (Text.lines source.toList).mapIdx fun i line => (i + 1, String.ofList line)

/-- Extracts the lines of a source. -/
def extractLines (file source : String) : Extraction := .ofLines file (numberedLines source)

end TraitMarkup
