import ObjectPascal.Text.Digit
import ObjectPascal.Text.Quoted

/-!
The arguments of the command: switches, which may be shortened as long as they stay unambiguous,
and one program.
-/

namespace ObjectPascal.CommandLine

inductive Switch where
  | help
  | source
  | verbose
  | tracebackJson
  | trace
  deriving DecidableEq

/-- Every spelling of every switch, in the order in which they are tried. -/
def spellings : List (String × Switch) :=
  [("-h", .help), ("--help", .help), ("-source", .source), ("--source", .source),
    ("-verbose", .verbose), ("--verbose", .verbose), ("--traceback-json", .tracebackJson),
    ("--trace", .trace)]

/-- The spellings of a switch, as complaints name it. -/
def Switch.name (s : Switch) : String :=
  String.intercalate "/" ((spellings.filter fun (_, s') => s' = s).map Prod.fst)

/-- What an argument is. The text attached to a switch stands after an equals sign, or directly
behind a switch of one letter. -/
inductive Argument where
  | switch (switch : Switch) (spelling : String) (attached : Option (List Char))
  | unknown (text : String)
  | plain (text : String)
  | separator
  deriving DecidableEq

/-- Why the arguments do not lead to a run. -/
inductive Refusal where
  | help
  | usage (text : String)
  deriving DecidableEq

structure Options where
  program : String
  source : Bool := false
  verbose : Bool := false
  tracebackJson : Bool := false
  trace : Bool := false
  deriving DecidableEq

def startsWith (start cs : List Char) : Bool :=
  start.isPrefixOf cs

/-- The text before the first equals sign, and the text after it if there is one. -/
def splitEquals (cs : List Char) : List Char × Option (List Char) :=
  match cs.dropWhile (· ≠ '=') with
  | [] => (cs, none)
  | _ :: after => (cs.takeWhile (· ≠ '='), some after)

/-- A minus and digits of any scripts, with at most one point before the last of them; a line feed
may follow. -/
def isNegativeNumber (cs : List Char) : Bool :=
  match cs with
  | '-' :: rest =>
    let rest := if rest.getLast? = some '\n' then rest.dropLast else rest
    let fraction := rest.dropWhile Text.isAnyDigit
    match fraction with
    | [] => !rest.isEmpty
    | '.' :: digits => !digits.isEmpty && digits.all Text.isAnyDigit
    | _ => false
  | _ => false

/-- The switches that an argument with one or two leading minuses may shorten. -/
def candidates (cs : List Char) : List (String × Switch × Option (List Char)) :=
  if startsWith ['-', '-'] cs then
    let (start, after) := splitEquals cs
    (spellings.filter fun (spelling, _) => startsWith start spelling.toList).map
      fun (spelling, s) => (spelling, s, after)
  else
    spellings.filterMap fun (spelling, s) =>
      if spelling.toList = cs.take 2 then some (spelling, s, some (cs.drop 2))
      else if startsWith cs spelling.toList then some (spelling, s, none)
      else none

/-- Tells what an argument is when it is not the separator. -/
def classify (arg : String) : Except Refusal Argument :=
  let cs := arg.toList
  if cs.head? ≠ some '-' then .ok (.plain arg)
  else
    match spellings.lookup arg with
    | some s => .ok (.switch s arg none)
    | none =>
      if cs.length = 1 then .ok (.plain arg)
      else
        let (start, after) := splitEquals cs
        match after, spellings.lookup (String.ofList start) with
        | some after, some s => .ok (.switch s (String.ofList start) (some after))
        | _, _ =>
          match candidates cs with
          | [(spelling, s, attached)] => .ok (.switch s spelling attached)
          | [] =>
            if isNegativeNumber cs || ' ' ∈ cs then .ok (.plain arg) else .ok (.unknown arg)
          | several =>
            .error (.usage (s!"ambiguous option: {arg} could match " ++
              String.intercalate ", " (several.map Prod.fst)))

/-- After the first separator, every argument is plain. -/
def classifyAll : List String → Except Refusal (List Argument)
  | [] => .ok []
  | arg :: args =>
    if arg = "--" then .ok (.separator :: args.map .plain)
    else do
      let a ← classify arg
      return a :: (← classifyAll args)

/-- What has been gathered from the arguments so far. -/
structure Gathered where
  switches : List Switch := []
  program : Option String := none
  extras : List String := []

def ignored (s : Switch) (text : List Char) : Refusal :=
  .usage s!"argument {s.name}: ignored explicit argument {Text.quoted (String.ofList text)}"

/-- The switches in a bundle: `text` is attached to the switch `s`, and each of its characters has
to be the letter of a switch. The first that is not is refused, with all that follows it, in the
name of the switch before it. -/
def unbundle (s : Switch) : List Char → Except Refusal (List Switch)
  | [] => .ok [s]
  | c :: rest =>
    match spellings.lookup (String.ofList ['-', c]) with
    | none => .error (ignored s (c :: rest))
    | some s' => (unbundle s' rest).map (s :: ·)

/-- The switches that one argument stands for. A spelling with two minuses starts no bundle. -/
def expand (s : Switch) (spelling : String) : Option (List Char) → Except Refusal (List Switch)
  | none => .ok [s]
  | some text =>
    if text.isEmpty || startsWith ['-', '-'] spelling.toList then .error (ignored s text)
    else unbundle s text

/-- Goes through the arguments; asking for help ends it. The first plain argument is the program,
and a separator beside it is dropped with it. -/
def gather (g : Gathered) : List Argument → Except Refusal Gathered
  | [] => .ok g
  | .switch s spelling attached :: args => do
    let switches ← expand s spelling attached
    if .help ∈ switches then throw .help
    gather { g with switches := g.switches ++ switches } args
  | .unknown text :: args => gather { g with extras := g.extras ++ [text] } args
  | .separator :: .plain text :: args =>
    match g.program with
    | none => gather { g with program := some text } args
    | some _ => gather { g with extras := g.extras ++ ["--", text] } args
  | .plain text :: .separator :: args =>
    match g.program with
    | none => gather { g with program := some text } args
    | some _ => gather { g with extras := g.extras ++ [text, "--"] } args
  | .plain text :: args =>
    match g.program with
    | none => gather { g with program := some text } args
    | some _ => gather { g with extras := g.extras ++ [text] } args
  | .separator :: args => gather { g with extras := g.extras ++ ["--"] } args

/-- The options that the arguments of the command set. -/
def parseOptions (args : List String) : Except Refusal Options := do
  let g ← gather {} (← classifyAll args)
  match g.program with
  | none => throw (.usage "the following arguments are required: program")
  | some program =>
    if g.extras.isEmpty then
      return {
        program
        source := .source ∈ g.switches
        verbose := .verbose ∈ g.switches
        tracebackJson := .tracebackJson ∈ g.switches
        trace := .trace ∈ g.switches }
    else throw (.usage ("unrecognized arguments: " ++ String.intercalate " " g.extras))

end ObjectPascal.CommandLine
