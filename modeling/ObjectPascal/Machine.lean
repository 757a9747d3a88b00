import ObjectPascal.Event
import ObjectPascal.Input
import ObjectPascal.Store

/-!
The machine that runs programs: its state, its surroundings, and how handlers act on it.
-/

namespace ObjectPascal

/-- What a program has read or written, one entry for each completed procedure. -/
inductive TranscriptEntry where
  | writeln (values : List String)
  | readln (word : String)
  deriving DecidableEq

structure Machine where
  store : Store := {}
  log : StepLog := {}
  transcript : Array TranscriptEntry := #[]
  input : Input := {}
  /-- The lines that the output has taken. -/
  output : Array String := #[]
  observed : Array Observation := #[]
  /-- How often each handler has been called, by handler number. -/
  notified : List Nat := []
  deriving Inhabited

/-- A handler. It is told how often it has been called, this time included, and sees the
machine. -/
structure Handler where
  id : Nat
  react : Nat → Occasion → Machine → Reaction

/-- The surroundings of a machine. -/
structure Host where
  /-- Whether the log keeps the variables of every step. -/
  verbose : Bool := false
  hooks : Registry Handler := {}
  /-- Why the output refuses to take a line as the one of a number, counted from 1, if it does. -/
  refuse : Nat → Option String := fun _ => none

namespace Machine

/-- Adds one to a count; counts that are missing are zero. -/
def bump : Nat → List Nat → List Nat
  | 0, [] => [1]
  | 0, n :: ns => (n + 1) :: ns
  | i + 1, [] => 0 :: bump i []
  | i + 1, n :: ns => n :: bump i ns

/-- Assigns in turn, up to the first assignment that fails. -/
def assignAll : List (String × Value) → Store → Except Cause Unit × Store
  | [], s => (.ok (), s)
  | (name, v) :: rest, s =>
    match s.assign name v with
    | .error c => (.error c, s)
    | .ok s => assignAll rest s

/-- Calls one handler. -/
def notify (h : Handler) (occasion : Occasion) (m : Machine) : Except Failure Unit × Machine :=
  let notified := bump h.id m.notified
  let m := { m with notified }
  let r := h.react (notified.getD h.id 0) occasion m
  let m := { m with observed := m.observed ++ r.observations.toArray }
  match assignAll r.assignments m.store with
  | (.error cause, store) => (.error (.fault { cause }), { m with store })
  | (.ok (), store) =>
    match r.failure with
    | some f => (.error f, { m with store })
    | none => (.ok (), { m with store })

/-- Calls handlers in turn, up to the first that fails. -/
def notifyAll : List Handler → Occasion → Machine → Except Failure Unit × Machine
  | [], _, m => (.ok (), m)
  | h :: hs, occasion, m =>
    match notify h occasion m with
    | (.error f, m) => (.error f, m)
    | (.ok (), m) => notifyAll hs occasion m

/-- What the failure of a handler means for the run: a fault of the language goes on as it is, any
other failure is a fault of the observer. -/
def judge (observer : String) (location : Option Location) :
    Except Failure Unit → Except Raised Unit
  | .ok () => .ok ()
  | .error (.fault error) => .error (.runtime error)
  | .error (.host text) => .error (.fault location (.observerFailed observer text))

/-- Tells the handlers of an event. -/
def emit (host : Host) (event : Event) (m : Machine) : Except Raised Unit × Machine :=
  let location := m.log.lastLocation
  let (r, m) := notifyAll (host.hooks.handlers event.name) (.event event) m
  (judge s!"Hook '{event.name.text}'" location r, m)

/-- Adds a step in the innermost frame to the log. -/
def record (host : Host) (step : Step) (location : Option Location) (m : Machine) : Machine :=
  let frame := m.store.innermost.frame
  let snapshot := if host.verbose then some (m.store.snapshot frame) else none
  { m with log := m.log.push { step, frame := some frame, location, snapshot } }

/-- What step rules are told of a step that is the next to be logged. -/
def nextStep (step : Step) (location : Option Location) (m : Machine) : StepContext :=
  { index := m.log.size, rule := step.rule, location, depth := m.store.depth }

/-- Logs a step and tells the step rules that are due. -/
def logStep (host : Host) (step : Step) (location : Option Location) (m : Machine) :
    Except Raised Unit × Machine :=
  let context := m.nextStep step location
  let due := host.hooks.dueHandlers context.index
  let (r, m) := notifyAll due (.step context) (m.record host step location)
  (judge "Step rule" location r, m)

/-- Offers a line to the output; one that is refused is not counted. -/
def write (host : Host) (line : String) (m : Machine) : Except Raised Unit × Machine :=
  match host.refuse (m.output.size + 1) with
  | some text => (.error (.host { cause := .outputRefused text }), m)
  | none => (.ok (), { m with output := m.output.push line })

theorem write_store (host : Host) (line : String) (m : Machine) :
    (m.write host line).2.store = m.store := by
  unfold write
  split <;> rfl

def nextWord (m : Machine) : Except Raised (Option String) × Machine :=
  match m.input.nextWord with
  | (.ok word, input) => (.ok word, { m with input })
  | (.error text, input) => (.error (.host { cause := .inputFailed text }), { m with input })

theorem nextWord_store (m : Machine) : m.nextWord.2.store = m.store := by
  unfold nextWord
  split <;> rfl

end Machine

end ObjectPascal
