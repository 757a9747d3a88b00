import ObjectPascal.Fault
import ObjectPascal.Text.Json

/-!
The log of a run: one entry for every step, never changed once made.
-/

namespace ObjectPascal

/-- How the body of a method comes to run. -/
inductive CallKind where
  | new
  | call
  | destroy
  deriving DecidableEq

def CallKind.rule : CallKind → String
  | .new => "NEW"
  | .call => "CALL"
  | .destroy => "DESTROY"

/-- The procedures of the language itself. -/
inductive Builtin where
  | writeln
  | readln
  deriving DecidableEq

def Builtin.name : Builtin → String
  | .writeln => "writeln"
  | .readln => "readln"

/-- What a step did; values stand as their texts. -/
inductive Step where
  | seed
  | declareClass (name : String)
  | attachMethod (method : String)
  | statement (form : Form)
  | enter (kind : CallKind) (method : String) (args : List String)
  | builtin (procedure : Builtin) (args : List String)
  deriving DecidableEq

namespace Step

def rule : Step → String
  | seed => "SEED"
  | declareClass _ => "CLASS"
  | attachMethod _ => "METHOD"
  | statement form => form.name
  | enter kind .. => kind.rule
  | builtin procedure _ => procedure.name

open Text (Json)

/-- The particulars of a step by name. -/
def detail : Step → List (String × Json)
  | seed | statement _ => []
  | declareClass name => [("class", .string name)]
  | attachMethod method => [("method", .string method)]
  | enter _ method args => [("method", .string method), ("args", .array (args.map .string))]
  | builtin _ args => [("args", .array (args.map .string))]

end Step

/-- A step, the frame that was innermost then, the place, and that frame's variables if asked
for. -/
structure LogEntry where
  step : Step
  frame : Option FrameId := none
  location : Option Location := none
  snapshot : Option (List (String × String)) := none
  deriving DecidableEq

/-- The text by which reports refer to the state after the step at an index. -/
def stateLabel (index : Nat) : String :=
  "s_" ++ Text.padded 6 index

/-- Every entry, in order; the first one seeds the log. -/
structure StepLog where
  entries : Array LogEntry := #[{ step := .seed }]
  deriving DecidableEq, Inhabited

namespace StepLog

def size (log : StepLog) : Nat :=
  log.entries.size

def push (log : StepLog) (e : LogEntry) : StepLog :=
  ⟨log.entries.push e⟩

def lastIndex (log : StepLog) : Nat :=
  log.size - 1

/-- The place of the last step. -/
def lastLocation (log : StepLog) : Option Location :=
  log.entries.back?.bind LogEntry.location

/-- The index of the last entry below `n` that belongs to a frame. -/
def lastBelow? (log : StepLog) (frame : FrameId) : Nat → Option Nat
  | 0 => none
  | n + 1 =>
    if (log.entries[n]?.bind LogEntry.frame) = some frame then some n
    else log.lastBelow? frame n

/-- The last entry that belongs to a frame, with its index. -/
def lastOf? (log : StepLog) (frame : FrameId) : Option (Nat × LogEntry) := do
  let index ← log.lastBelow? frame log.size
  let entry ← log.entries[index]?
  return (index, entry)

/-- The step at an index as a record of the passage from one state to the next. -/
def record (index : Nat) (step : Step) : List (String × Text.Json) :=
  let before := if index = 0 then "seed" else stateLabel (index - 1)
  ("rule", .string step.rule) :: step.detail ++
    [("from_state_id", .string before), ("to_state_id", .string (stateLabel index))]

end StepLog

end ObjectPascal
