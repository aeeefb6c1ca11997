import TraitMarkup.CommandLine

/-! The program. It reads the file that its arguments name and prints the report on it. -/

namespace TraitMarkup.CommandLine

/-- Reads a file. -/
def readOctets (path : String) : IO (Except ReadFailure (List UInt8)) := do
  try
    let octets ← IO.FS.readBinFile path
    return .ok octets.toList
  catch
    | .noFileOrDirectory .. => return .error .missing
    | .inappropriateType _ code _ =>
      return .error (if code.toNat = ReadFailure.directory.code then .directory else .notDirectory)
    | .permissionDenied .. => return .error (.other 13 "Permission denied")
    | e => return .error (.other 5 (toString e))

end TraitMarkup.CommandLine

open TraitMarkup CommandLine

def main (args : List String) : IO UInt32 := do
  let file : Except ReadFailure (List UInt8) ←
    match parse args with
    | .ok (.run o) => readOctets o.file
    | _ => pure (.error .missing)
  let outcome := run args (← IO.getEnv "NOX_DEBUG") fun _ => file
  (← IO.getStdout).putStr outcome.stdout
  (← IO.getStderr).putStr outcome.stderr
  match outcome.ending with
  | .exit code => return code.toUInt32
  | .notPath =>
    (← IO.getStderr).putStrLn notPath
    return 1
  | .undecodable e =>
    (← IO.getStderr).putStrLn e.message
    return 1
  | .tooLong e =>
    (← IO.getStderr).putStrLn e.message
    return 1
