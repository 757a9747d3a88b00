import ObjectPascal.CommandLine

/-!
The command line program.
-/

namespace ObjectPascal.CommandLine

/-- Reads a file, or says why that fails. -/
def readBytes (path : String) : IO (Except ReadFailure (List UInt8)) := do
  try
    let bytes ← IO.FS.readBinFile path
    return .ok bytes.toList
  catch
    | .noFileOrDirectory .. | .noSuchThing .. => return .error .missing
    | .inappropriateType _ code _ =>
      return .error (if code = 21 then .directory else .notDirectory)
    | .permissionDenied .. => return .error .denied
    | .invalidArgument .. => return .error .nameTooLong
    | _ => return .error .missing

/-- Runs the command on the lines read so far, shows what is new in its output, and reads one more
line for as long as the program asks for one. -/
partial def interact (args : List String) (s : Surroundings) (shown : Nat) : IO UInt32 := do
  let r := run args s
  let stdout ← IO.getStdout
  stdout.putStr (String.ofList (r.stdout.toList.drop shown))
  stdout.flush
  let line ← if r.asked > s.input.length then (← IO.getStdin).getLine else pure ""
  if line.isEmpty then
    (← IO.getStderr).putStr r.stderr
    match r.status with
    | .ok code => return code.toUInt32
    | .error (.undecodable malformed) =>
      IO.eprintln malformed.message
      return 1
    | .error (.notANumeral text) =>
      IO.eprintln (Text.notANumeralMessage text)
      return 1
    | .error (.tooManyDigits count) =>
      IO.eprintln (Text.tooManyDigitsMessage count)
      return 1
    | .error .nulInName =>
      IO.eprintln nulInNameMessage
      return 1
    | .error (.hostFault cause) =>
      IO.eprintln cause.message
      return 1
  else
    let text := if line.endsWith "\n" then (line.dropEnd 1).toString else line
    interact args { s with input := s.input ++ [text] } r.stdout.length

end ObjectPascal.CommandLine

open ObjectPascal.CommandLine in
def main (args : List String) : IO UInt32 := do
  let content ←
    match parseOptions args with
    | .ok o => if o.source then pure (.error .missing) else readBytes o.program
    | .error _ => pure (.error .missing)
  let directory := (← IO.currentDir).toString
  interact args { directory, read := fun _ => content, input := [] } 0
