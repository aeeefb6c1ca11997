import TraitMarkup.Report
import TraitMarkup.Text.Utf8

/-! # The command line

The program takes the name of a file and a few options, and prints a report on the file. -/

namespace TraitMarkup.CommandLine

/-! ## Arguments -/

inductive Flag where
  | help | tokens | debug
  deriving DecidableEq

namespace Flag

def all : List Flag := [.help, .tokens, .debug]

/-- The long name of an option. -/
def long : Flag → String
  | .help => "--help"
  | .tokens => "--tokens"
  | .debug => "--debug"

/-- All names of an option, as messages cite it. -/
def names : Flag → String
  | .help => "-h/--help"
  | .tokens => "--tokens"
  | .debug => "--debug"

end Flag

/-- What an argument is taken for. -/
inductive Argument where
  | plain (text : String)
  | flag (f : Flag)
  /-- An option with a value, which no option takes. -/
  | valued (f : Flag) (value : String)
  /-- No option of the program, though it looks like one. -/
  | unknown (text : String)
  /-- The two dashes after which everything is plain. -/
  | separator
  deriving DecidableEq

/-- The arguments make no sense. -/
inductive UsageError where
  | missingFile
  | unrecognized (args : List String)
  | ignoredValue (f : Flag) (value : String)
  | ambiguous (text : String)
  deriving DecidableEq

def UsageError.message : UsageError → String
  | .missingFile => "the following arguments are required: file"
  | .unrecognized args => "unrecognized arguments: " ++ String.intercalate " " args
  | .ignoredValue f value => s!"argument {f.names}: ignored explicit argument {Text.quoted value}"
  | .ambiguous text =>
    let choices := String.intercalate ", " (Flag.all.map Flag.long)
    s!"ambiguous option: {text} could match {choices}"

/-- Whether characters are a number after a minus sign, perhaps with a line feed at the end. Such an
argument is plain. -/
def isNumeral (cs : List Char) : Bool :=
  let cs := if cs.getLast? = some '\n' then cs.dropLast else cs
  match cs.dropWhile Text.isDecimal with
  | [] => !cs.isEmpty
  | '.' :: part => !part.isEmpty && part.all Text.isDecimal
  | _ => false

/-- What an argument with a dash in front is taken for if it is the name of no option. -/
def unnamed (text : String) : Argument :=
  if text.toList.contains ' ' then .plain text else .unknown text

/-- What is attached to the short option for help repeats it; the rest from the first other character
on would be its value, and so would nothing at all. -/
def attachedToHelp (cs : List Char) : Argument :=
  if cs ≠ [] ∧ cs.all (· == 'h') then .flag .help
  else .valued .help (String.ofList (cs.dropWhile (· == 'h')))

/-- Takes the short option for help with what follows it. An equals sign may come in between. -/
def shortHelp : List Char → Argument
  | [] => .flag .help
  | '=' :: cs => attachedToHelp cs
  | cs => attachedToHelp cs

/-- Takes an argument with two dashes in front for the option that its name abbreviates. -/
def longOption (text : String) : Except UsageError Argument :=
  let name := text.toList.takeWhile (· != '=')
  match Flag.all.filter fun f => name.isPrefixOf f.long.toList with
  | [] => .ok (unnamed text)
  | [f] =>
    match text.toList.dropWhile (· != '=') with
    | [] => .ok (.flag f)
    | _ :: value => .ok (.valued f (String.ofList value))
  | _ => .error (.ambiguous text)

/-- Takes an argument for what it looks like. -/
def classify (text : String) : Except UsageError Argument :=
  match text.toList with
  | ['-', '-'] => .ok .separator
  | '-' :: '-' :: _ => longOption text
  | '-' :: 'h' :: rest => .ok (shortHelp rest)
  | ['-'] => .ok (.plain text)
  | '-' :: rest => .ok (if isNumeral rest then .plain text else unnamed text)
  | _ => .ok (.plain text)

/-- Takes arguments for what they look like; after the separator all are plain. -/
def classifyAll : List String → Except UsageError (List Argument)
  | [] => .ok []
  | text :: rest => do
    match ← classify text with
    | .separator => return .separator :: rest.map .plain
    | argument => return argument :: (← classifyAll rest)

structure Options where
  file : String
  tokens : Bool
  debug : Bool
  deriving DecidableEq

/-- What the program is asked to do. -/
inductive Request where
  | help
  | run (o : Options)
  deriving DecidableEq

/-- The arguments gathered so far. -/
structure Gathered where
  file : Option String
  tokens : Bool
  debug : Bool
  extra : List String

/-- What the gathered arguments ask for. -/
def Gathered.request (g : Gathered) : Except UsageError Request :=
  match g.file, g.extra with
  | none, _ => .error .missingFile
  | some file, [] => .ok (.run ⟨file, g.tokens, g.debug⟩)
  | some _, extra => .error (.unrecognized extra)

/-- Gathers arguments from left to right. Help is given as soon as it is asked for. The first plain
argument is the file; a separator next to it goes with it, and any other is one argument too
many. -/
def gather (g : Gathered) : List Argument → Except UsageError Request
  | [] => g.request
  | .flag .help :: _ => .ok .help
  | .flag .tokens :: rest => gather { g with tokens := true } rest
  | .flag .debug :: rest => gather { g with debug := true } rest
  | .valued f value :: _ => .error (.ignoredValue f value)
  | .unknown text :: rest => gather { g with extra := g.extra ++ [text] } rest
  | .plain text :: rest =>
    if g.file.isSome then gather { g with extra := g.extra ++ [text] } rest
    else
      match rest with
      | .separator :: rest => gather { g with file := some text } rest
      | rest => gather { g with file := some text } rest
  | .separator :: rest =>
    match g.file, rest with
    | none, .plain text :: rest => gather { g with file := some text } rest
    | _, rest => gather { g with extra := g.extra ++ ["--"] } rest

/-- What the arguments ask for. -/
def parse (args : List String) : Except UsageError Request := do
  gather ⟨none, false, false, []⟩ (← classifyAll args)

def usage : String := "usage: noxc [-h] [--tokens] [--debug] file\n"

/-- The text on the program and its options. -/
def help : String :=
  usage ++ "\nScan and reduce a nox source file\n" ++
    "\npositional arguments:\n" ++
    "  file        nox source file to read\n" ++
    "\noptions:\n" ++
    "  -h, --help  show this help message and exit\n" ++
    "  --tokens    Print the token stream instead of expressions\n" ++
    "  --debug     Log every token push and raised error to stderr\n" ++
    "\nExamples:\n" ++
    "  noxc page.nox              # Expressions, line by line\n" ++
    "  noxc page.nox --tokens     # Token stream with block structure\n" ++
    "  NOX_DEBUG=1 noxc page.nox  # Same as --debug\n" ++
    "        \n"

/-! ## Files -/

/-- Why a file cannot be read. -/
inductive ReadFailure where
  | missing | directory | notDirectory | nameTooLong
  | other (code : Nat) (reason : String)
  deriving DecidableEq

namespace ReadFailure

def code : ReadFailure → Nat
  | .missing => 2
  | .notDirectory => 20
  | .directory => 21
  | .nameTooLong => 36
  | .other code _ => code

def reason : ReadFailure → String
  | .missing => "No such file or directory"
  | .notDirectory => "Not a directory"
  | .directory => "Is a directory"
  | .nameTooLong => "File name too long"
  | .other _ reason => reason

def message (f : ReadFailure) (path : String) : String :=
  s!"[Errno {f.code}] {f.reason}: {Text.quoted path}"

end ReadFailure

/-- The text of a file: its octets are UTF-8, and all its line ends become line feeds. -/
def sourceText (octets : List UInt8) : Except Text.DecodeError String :=
  (Text.decode octets).map fun cs => String.ofList (Text.unifyLineEnds cs)

/-! ## Running -/

/-- A path with a NUL in it names no file. -/
def isPath (path : String) : Bool := !path.toList.contains '\x00'

/-- What there is to say of a path that names no file. -/
def notPath : String := "embedded null byte"

/-- How the program ends: with an exit code, or broken off by what it cannot handle. -/
inductive Ending where
  | exit (code : Nat)
  | notPath
  | undecodable (e : Text.DecodeError)
  | tooLong (e : Unsigned.TooLong)
  deriving DecidableEq

/-- What the program prints and how it ends. -/
structure Outcome where
  stdout : String
  stderr : String
  ending : Ending

/-- Prints the report on a source. -/
def report (o : Options) (config : Configuration) (source : String) : Outcome :=
  let errors (log : List LogRecord) := if config.debug then logText log else ""
  if o.tokens then
    let r := reportTokens config source
    ⟨r.text, errors r.log, .exit 0⟩
  else
    let r := reportLines config source
    ⟨r.text, errors r.log, (r.stop.map Ending.tooLong).getD (.exit 0)⟩

/-- Runs the program on a file whose octets are given or cannot be had. -/
def runOn (o : Options) (debugValue : Option String) (octets : Except ReadFailure (List UInt8)) :
    Outcome :=
  let config : Configuration :=
    { Configuration.default with
      file := o.file, debug := o.debug || Configuration.debugFlag debugValue }
  if !isPath o.file then ⟨"", "", .notPath⟩
  else match octets with
  | .error f => ⟨"", s!"noxc: cannot read {o.file}: {f.message o.file}\n", .exit 1⟩
  | .ok octets =>
    match sourceText octets with
    | .error e => ⟨"", "", .undecodable e⟩
    | .ok source => report o config source

/-- Runs the program with the given arguments, the value of its environment variable, and the files
it may read. -/
def run (args : List String) (debugValue : Option String)
    (file : String → Except ReadFailure (List UInt8)) : Outcome :=
  match parse args with
  | .error e => ⟨"", usage ++ s!"noxc: error: {e.message}\n", .exit 2⟩
  | .ok .help => ⟨help, "", .exit 0⟩
  | .ok (.run o) => runOn o debugValue (file o.file)

end TraitMarkup.CommandLine
