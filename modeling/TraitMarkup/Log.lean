import TraitMarkup.Reduction
import TraitMarkup.Scan

/-! # The debug log

On request every token and every expression is recorded as it is found, and every error as it is
raised. The records of a scan or a reduction follow from its outcome. -/

namespace TraitMarkup

/-- The part of the program that makes a record. -/
inductive LogSource where
  | scanner | reducer | extraction
  deriving DecidableEq

/-- The name under which a part makes its records. -/
def LogSource.label : LogSource → String
  | .scanner => "lexer.py"
  | .reducer => "reducer.py"
  | .extraction => "extract.py"

structure LogRecord where
  source : LogSource
  message : String
  deriving DecidableEq

/-- A record as it is written. -/
def LogRecord.text (r : LogRecord) : String := s!"{r.source.label}\t|\t{r.message}\n"

/-- Records as they are written. -/
def logText (records : List LogRecord) : String := String.join (records.map LogRecord.text)

namespace LogRecord

def pushedToken (t : Token) : LogRecord := ⟨.scanner, s!"Pushing token: {t.details}"⟩

def scanError (e : ScanError) : LogRecord := ⟨.scanner, s!"Returning error: {e.details}"⟩

def pushedExpression (e : Expression) : LogRecord :=
  ⟨.reducer, s!"Pushing expression: {e.details}"⟩

def reduceError (e : ReduceError) : LogRecord := ⟨.reducer, s!"Returning error: {e.details}"⟩

end LogRecord

/-- The records of a scan. -/
def Scan.log (s : Scan) : List LogRecord :=
  s.tokens.map .pushedToken ++ s.error.toList.map .scanError

/-- The records of scanning a line. -/
def LineScan.log (file : String) (s : LineScan) : List LogRecord :=
  let error :=
    match s.result file with
    | .ok _ => []
    | .error e => [.scanError e]
  s.tokens.map .pushedToken ++ error

/-- The records of a reduction. Too many digits are no error of its own and leave no record. -/
def Reduction.log (r : Reduction) : List LogRecord :=
  let error :=
    match r.stop with
    | some ⟨.refused e, _⟩ => [.reduceError e]
    | _ => []
  r.expressions.map .pushedExpression ++ error

/-- Where records go: to one of several streams, or nowhere. -/
structure LogTarget where
  stream : Option Nat
  deriving DecidableEq

namespace LogTarget

/-- The log is off. -/
def off : LogTarget := ⟨none⟩

/-- The least level of the records that are kept; zero stands for the surroundings' level. -/
def level (t : LogTarget) : Nat := if t.stream.isSome then 10 else 0

/-- The number of handlers. One of them is always there and drops everything. -/
def handlers (t : LogTarget) : Nat := if t.stream.isSome then 2 else 1

/-- What is written to a stream. -/
def written (t : LogTarget) (stream : Nat) (records : List LogRecord) : String :=
  if t.stream = some stream then logText records else ""

end LogTarget

end TraitMarkup
