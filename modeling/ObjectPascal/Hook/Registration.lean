import ObjectPascal.Machine

/-!
How handlers come to be registered: by a call on the registry itself, or through the services of a
host, which take a handler at once or give a decorator that takes it later. And how a registry calls
those whose time has come.
-/

namespace ObjectPascal

/-- What a handler is registered for. -/
inductive Purpose where
  | event (name : String) (priority : Int := 0) (owner : String := "")
  | steps (name : String) (interval : Int)
  deriving DecidableEq

/-- A rule without a name takes a title for its name. -/
def Purpose.titled (title : String) : Purpose → Purpose
  | event name priority owner => .event name priority owner
  | steps name interval => .steps (if name = "" then title else name) interval

/-- What a registration is answered with. -/
inductive Answer (α : Type) where
  | subscription (sub : Subscription α)
  | rule (rule : StepRule α)
  | handler (handler : α)
  /-- A decorator, known by what it registers handlers for. -/
  | decorator (purpose : Purpose)

/-- A call by which a handler comes to be registered. -/
inductive Registration (α : Type) where
  /-- On the registry itself. -/
  | direct (purpose : Purpose) (handler : α)
  /-- Through the services; without a handler this asks for a decorator. -/
  | service (purpose : Purpose) (handler : Option α)
  /-- A decorator of the services is applied to a handler. -/
  | decorate (purpose : Purpose) (handler : α)

namespace Registry

variable {α : Type}

def register (r : Registry α) (handler : α) :
    Purpose → Except HookError (Answer α) × Registry α
  | .event name priority owner =>
    let sub : Subscription α := { handler, priority, owner }
    match r.subscribe name sub with
    | .error e => (.error e, r)
    | .ok r => (.ok (.subscription sub), r)
  | .steps name interval =>
    match r.addRule name interval handler with
    | .error e => (.error e, r)
    | .ok r => (.ok (.rule ⟨name, interval.toNat, handler⟩), r)

/-- Carries out a registration. Through the services, a rule without a name goes by the title of its
handler, and the answer is the handler. -/
def answer (title : α → String) (r : Registry α) :
    Registration α → Except HookError (Answer α) × Registry α
  | .direct purpose handler => r.register handler purpose
  | .service purpose none => (.ok (.decorator purpose), r)
  | .service purpose (some handler) | .decorate purpose handler =>
    let (a, r) := r.register handler (purpose.titled (title handler))
    (a.map fun _ => .handler handler, r)

/-- Carries out registrations in turn, those after one that fails too. -/
def answerAll (title : α → String) :
    List (Registration α) → Registry α → List (Except HookError (Answer α)) × Registry α
  | [], r => ([], r)
  | c :: cs, r =>
    let (a, r) := r.answer title c
    let (as, r) := answerAll title cs r
    (a :: as, r)

/-- Tells the handlers of the event of a name, up to the first that fails. -/
def emit (r : Registry Handler) (event : String) (occasion : Occasion) (m : Machine) :
    Except Failure Unit × Machine :=
  match EventName.ofText? event with
  | none => (.ok (), m)
  | some e => Machine.notifyAll (r.handlers e) occasion m

/-- Tells the step rules that are due, up to the first that fails. -/
def afterStep (r : Registry Handler) (context : StepContext) (m : Machine) :
    Except Failure Unit × Machine :=
  Machine.notifyAll (r.dueHandlers context.index) (.step context) m

end Registry

namespace Machine

/-- Events of a run are told through the registry of the host. -/
theorem emit_eq (host : Host) (event : Event) (m : Machine) :
    m.emit host event =
      (judge s!"Hook '{event.name.text}'" m.log.lastLocation
          (host.hooks.emit event.name.text (.event event) m).1,
        (host.hooks.emit event.name.text (.event event) m).2) := by
  cases event <;> rfl

/-- So are the steps that a run logs. -/
theorem logStep_eq (host : Host) (step : Step) (location : Option Location) (m : Machine) :
    m.logStep host step location =
      (judge "Step rule" location
          (host.hooks.afterStep (m.nextStep step location) (m.record host step location)).1,
        (host.hooks.afterStep (m.nextStep step location) (m.record host step location)).2) :=
  rfl

end Machine

end ObjectPascal
