import ObjectPascal.CommandLine.Options
import ObjectPascal.Interpreter
import ObjectPascal.Probe
import ObjectPascal.Text.Utf8
import ObjectPascal.Traceback

/-!
The command: from its arguments, the files it can read and its input to what it writes and the
status it ends with.
-/

namespace ObjectPascal.CommandLine

def usage : String :=
  "usage: minidelphi [-h] [-source] [-verbose] [--traceback-json] [--trace]\n" ++
  "                  program\n"

def help : String :=
  usage ++
  "\n" ++
  "minidelphi object Pascal interpreter\n" ++
  "\n" ++
  "positional arguments:\n" ++
  "  program              Source file path or literal source with -source\n" ++
  "\n" ++
  "options:\n" ++
  "  -h, --help           show this help message and exit\n" ++
  "  -source, --source    Treat program argument as literal source text\n" ++
  "  -verbose, --verbose  Emit frame snapshots in tracebacks\n" ++
  "  --traceback-json     Also emit JSON traceback\n" ++
  "  --trace              Log method calls to stderr\n"

/-- Why a file cannot be read. -/
inductive ReadFailure where
  | missing
  | directory
  | notDirectory
  | denied
  | nameTooLong
  deriving DecidableEq

def ReadFailure.message (file : String) (f : ReadFailure) : String :=
  let what :=
    match f with
    | .missing => "[Errno 2] No such file or directory"
    | .directory => "[Errno 21] Is a directory"
    | .notDirectory => "[Errno 20] Not a directory"
    | .denied => "[Errno 13] Permission denied"
    | .nameTooLong => "[Errno 36] File name too long"
  s!"{what}: {Text.quoted file}"

/-- What surrounds the command. -/
structure Surroundings where
  /-- The directory that relative paths start from. -/
  directory : String
  read : String → Except ReadFailure (List UInt8)
  /-- The lines of the standard input. -/
  input : List String

/-- What stops the command without a report. -/
inductive Escape where
  | nulInName
  | undecodable (malformed : Text.Utf8.Malformed)
  | notANumeral (text : String)
  | tooManyDigits (count : Nat)
  | hostFault (cause : HostCause)
  deriving DecidableEq

/-- What is said of a file name with a NUL in it. -/
def nulInNameMessage : String := "embedded null byte"

/-- How the command ends, and all that it has written. -/
structure Result where
  status : Except Escape Nat
  stdout : String := ""
  stderr : String := ""
  /-- How many lines of input have been asked for. -/
  asked : Nat := 0

/-- Lines with a line feed after each. -/
def unlines (lines : List String) : String :=
  String.join (lines.map (· ++ "\n"))

/-- A host that shows calls if asked to. -/
def hostFor (o : Options) : Host :=
  let hooks : Registry Handler :=
    if o.trace then
      match CallTrace.install 0 {} with
      | .ok hooks => hooks
      | .error _ => {}
    else {}
  { verbose := o.verbose, hooks }

/-- Runs a program text and reports how it ended. -/
def runProgram (o : Options) (input : List String) (file text : String) : Result :=
  let start : Machine := { input := { replies := input.map .line } }
  let (outcome, m) := runText (hostFor o) file text start
  let stdout := unlines m.output.toList
  let calls := unlines (CallTrace.lines m)
  let ending (status : Except Escape Nat) (complaint : String) : Result :=
    { status, stdout, stderr := calls ++ complaint, asked := m.input.asked }
  match outcome with
  | .ok () => ending (.ok 0) ""
  | .error (.source (.parse (.notANumeral text))) => ending (.error (.notANumeral text)) ""
  | .error (.source (.parse (.tooManyDigits count))) => ending (.error (.tooManyDigits count)) ""
  | .error (.source e) => ending (.ok 1) s!"ParseError: {e.message}\n"
  | .error (.raised (.runtime e)) | .error (.raised (.exhausted e)) =>
    ending (.ok 1) (unlines (m.tracebackText o.verbose e ::
      if o.tracebackJson then [m.tracebackJson e] else []))
  | .error (.raised (.host fault)) => ending (.error (.hostFault fault.cause)) ""

/-- The whole command. -/
def run (args : List String) (s : Surroundings) : Result :=
  match parseOptions args with
  | .error .help => { status := .ok 0, stdout := help }
  | .error (.usage text) =>
    { status := .ok 2, stderr := usage ++ s!"minidelphi: error: {text}\n" }
  | .ok o =>
    if o.source then runProgram o s.input Source.anonymous o.program
    else if '\x00' ∈ o.program.toList then { status := .error .nulInName }
    else
      match s.read o.program with
      | .error f =>
        { status := .ok 1, stderr := s!"Failed to read {o.program}: {f.message o.program}\n" }
      | .ok bytes =>
        match Text.Utf8.decode bytes with
        | .error malformed => { status := .error (.undecodable malformed) }
        | .ok text =>
          let text := String.ofList (Text.uniformNewlines text.toList)
          runProgram o s.input (reportedFile s.directory o.program) text

end ObjectPascal.CommandLine
