/-!
Hooks: who is told of which event, in which order, and who is told of every n-th step.
-/

namespace ObjectPascal

/-- The moments of a run that can be subscribed to. -/
inductive EventName where
  | programStart
  | beforeStatement
  | afterStatement
  | beforeCall
  | afterCall
  | onError
  | programEnd
  deriving DecidableEq

namespace EventName

def text : EventName → String
  | programStart => "program_start"
  | beforeStatement => "before_statement"
  | afterStatement => "after_statement"
  | beforeCall => "before_call"
  | afterCall => "after_call"
  | onError => "on_error"
  | programEnd => "program_end"

def all : List EventName :=
  [programStart, beforeStatement, afterStatement, beforeCall, afterCall, onError, programEnd]

def ofText? (s : String) : Option EventName :=
  all.find? fun e => e.text = s

end EventName

/-- Why a subscription is refused. -/
inductive HookError where
  | unknownEvent (name : String)
  | shortInterval (rule : String) (interval : Int)
  deriving DecidableEq

def HookError.message : HookError → String
  | .unknownEvent name =>
    s!"Unknown event '{name}'; expected one of " ++
      String.intercalate ", " (EventName.all.map EventName.text)
  | .shortInterval rule interval =>
    s!"Step rule '{rule}' needs an interval of at least 1, got {interval}"

structure Subscription (α : Type) where
  handler : α
  priority : Int := 0
  owner : String := ""

/-- A handler for every step whose index is a multiple of `interval`. -/
structure StepRule (α : Type) where
  name : String
  interval : Nat
  handler : α

def StepRule.due {α : Type} (r : StepRule α) (index : Nat) : Bool :=
  index % r.interval = 0

/-- The subscriptions of each event, in the order of first subscription of the events, and the
step rules in the order of their registration. -/
structure Registry (α : Type) where
  subscriptions : List (EventName × List (Subscription α)) := []
  rules : List (StepRule α) := []

namespace Registry

variable {α : Type}

/-- Puts a subscription behind those of its priority or a higher one. -/
def place (sub : Subscription α) : List (Subscription α) → List (Subscription α)
  | [] => [sub]
  | s :: rest => if sub.priority ≤ s.priority then s :: place sub rest else sub :: s :: rest

def placeFor (event : EventName) (sub : Subscription α) :
    List (EventName × List (Subscription α)) → List (EventName × List (Subscription α))
  | [] => [(event, [sub])]
  | (e, subs) :: rest =>
    if e = event then (e, place sub subs) :: rest else (e, subs) :: placeFor event sub rest

/-- Subscribes to an event; of equal priorities the earlier one comes first. -/
def subscribe (r : Registry α) (event : String) (sub : Subscription α) :
    Except HookError (Registry α) :=
  match EventName.ofText? event with
  | none => .error (.unknownEvent event)
  | some e => .ok { r with subscriptions := placeFor e sub r.subscriptions }

def addRule (r : Registry α) (name : String) (interval : Int) (handler : α) :
    Except HookError (Registry α) :=
  if interval < 1 then .error (.shortInterval name interval)
  else .ok { r with rules := r.rules ++ [⟨name, interval.toNat, handler⟩] }

/-- The handlers of an event in the order of their calls. -/
def handlers (r : Registry α) (event : EventName) : List α :=
  match r.subscriptions.find? fun (e, _) => e = event with
  | none => []
  | some (_, subs) => subs.map Subscription.handler

/-- The handlers due at a step in the order of their calls. -/
def dueHandlers (r : Registry α) (index : Nat) : List α :=
  (r.rules.filter (·.due index)).map StepRule.handler

end Registry

end ObjectPascal
