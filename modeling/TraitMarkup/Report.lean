import TraitMarkup.Configuration
import TraitMarkup.Extraction
import TraitMarkup.Rendering

/-! # Reports

What the program prints for a source: the expressions of each line, or the tokens with their block
structure. -/

namespace TraitMarkup

/-- The report on a line. -/
def lineReport : Except LineFailure (Line Expression) → String
  | .ok line => line.text Expression.text ++ "\n"
  | .error f => s!"ERROR: {f.text}\n"

/-- A report line by line, the number of bad lines, and what cut it short if anything did. -/
structure LinesReport where
  text : String
  failures : Nat
  log : List LogRecord
  stop : Option Unsigned.TooLong

/-- Reports the lines of an extraction. -/
def LinesReport.ofExtraction (x : Extraction) : LinesReport where
  text := String.join (x.lines.map fun line => lineReport line.2)
  failures := (x.lines.filter fun line => line.2 matches .error _).length
  log := x.log
  stop := x.stop

/-- The report on the expressions of a source. -/
def reportLines (config : Configuration) (source : String) : LinesReport :=
  .ofExtraction (extractLines config.file source)

/-- A report on tokens, and whether there were any errors. -/
structure TokensReport where
  text : String
  ok : Bool
  log : List LogRecord

/-- The report on the tokens of a source. A source without tokens gives an empty report. -/
def reportTokens (config : Configuration) (source : String) : TokensReport :=
  let scan := scan config.file source
  match scan.result with
  | .error e => ⟨s!"ERROR: {e.text}\n", false, scan.log⟩
  | .ok [] => ⟨"", true, scan.log⟩
  | .ok tokens => ⟨render config.indentUnit.text tokens ++ "\n", true, scan.log⟩

end TraitMarkup
