import ObjectPascal.Action

/-!
Scripts: what a piece of a program does, as a tree that has the actions of the machine at its
leaves. A script says nothing about the machine that carries it out.
-/

namespace ObjectPascal

inductive Script : Type → Type 1 where
  | done {α : Type} (a : α) : Script α
  /-- Ends in failure. -/
  | fail {α : Type} (raised : Raised) : Script α
  /-- A single action. -/
  | perform (action : Action) : Script action.Result
  /-- One script after another, which is left out if the first one fails. -/
  | andThen {α β : Type} (first : Script α) (next : α → Script β) : Script β
  /-- The outcome of a script as its result. -/
  | attempt {α : Type} (inner : Script α) : Script (Except Raised α)

namespace Script

variable {α β : Type}

instance : Monad Script where
  pure := done
  bind := andThen

/-- Ends in a fault of the program. -/
def fault (location : Option Location) (cause : Cause) : Script α :=
  fail (.fault location cause)

/-- Adds to what is known of a failure. -/
def mapError (f : Raised → Raised) (x : Script α) : Script α := do
  match ← x.attempt with
  | .ok a => return a
  | .error e => fail (f e)

/-- Carries out a script. -/
def run (host : Host) : {α : Type} → Script α → Machine → Except Raised α × Machine
  | _, done a, m => (.ok a, m)
  | _, fail e, m => (.error e, m)
  | _, perform a, m => m.perform host a
  | _, andThen x f, m =>
    match x.run host m with
    | (.ok a, m) => (f a).run host m
    | (.error e, m) => (.error e, m)
  | _, attempt x, m =>
    match x.run host m with
    | (r, m) => (.ok r, m)

/-- The actions that a script carries out, each with the state of the machine before it. -/
def moments (host : Host) : {α : Type} → Script α → Machine → List (Machine × Action)
  | _, done _, _ => []
  | _, fail _, _ => []
  | _, perform a, m => [(m, a)]
  | _, andThen x f, m =>
    x.moments host m ++
      match x.run host m with
      | (.ok a, m) => (f a).moments host m
      | (.error _, _) => []
  | _, attempt x, m => x.moments host m

@[simp]
theorem run_pure (host : Host) (a : α) (m : Machine) :
    (pure a : Script α).run host m = (.ok a, m) :=
  rfl

@[simp]
theorem run_fail (host : Host) (e : Raised) (m : Machine) :
    (fail e : Script α).run host m = (.error e, m) :=
  rfl

@[simp]
theorem run_fault (host : Host) (location : Option Location) (c : Cause) (m : Machine) :
    (fault location c : Script α).run host m = (.error (.fault location c), m) :=
  rfl

@[simp]
theorem run_perform (host : Host) (a : Action) (m : Machine) :
    (perform a).run host m = m.perform host a :=
  rfl

theorem run_bind (host : Host) (x : Script α) (f : α → Script β) (m : Machine) :
    (x >>= f).run host m =
      match x.run host m with
      | (.ok a, m') => (f a).run host m'
      | (.error e, m') => (.error e, m') := by
  change (andThen x f).run host m = _
  rw [run]

@[simp]
theorem run_attempt (host : Host) (x : Script α) (m : Machine) :
    x.attempt.run host m = (.ok (x.run host m).1, (x.run host m).2) :=
  rfl

@[simp]
theorem run_mapError (host : Host) (f : Raised → Raised) (x : Script α) (m : Machine) :
    (x.mapError f).run host m = ((x.run host m).1.mapError f, (x.run host m).2) := by
  simp only [mapError, run_bind, run_attempt]
  cases (x.run host m).1 <;> rfl

end Script

end ObjectPascal
