import ObjectPascal.Machine

/-!
Ready-made handlers: one that notes every call to it and may interfere at a chosen one, and one
that writes a line for every call that a program makes.
-/

namespace ObjectPascal

/-- A handler that notes what it is told. At the call of a number it assigns to a variable, and at
the call of another it fails. -/
structure Probe where
  label : String
  assign : Option (Nat × String × Int) := none
  fail : Option (Nat × Failure) := none

namespace Probe

def note (p : Probe) (m : Machine) : Occasion → Observation
  | .event event => .event p.label event m.store.depth m.log.lastIndex
  | .step context => .step p.label context

def react (p : Probe) (count : Nat) (occasion : Occasion) (m : Machine) : Reaction where
  observations := [p.note m occasion]
  assignments :=
    match p.assign with
    | some (number, name, n) => if number = count then [(name, .int n)] else []
    | none => []
  failure :=
    match p.fail with
    | some (number, failure) => if number = count then some failure else none
    | none => none

def handler (p : Probe) (id : Nat) : Handler :=
  ⟨id, p.react⟩

/-- What a probe assigns is the number it is made with. -/
theorem of_mem_assignments {p : Probe} {count : Nat} {occasion : Occasion} {m : Machine}
    {a : String × Value} (h : a ∈ (p.react count occasion m).assignments) :
    ∃ number n, p.assign = some (number, a.1, n) ∧ a.2 = .int n := by
  unfold react at h
  dsimp only at h
  split at h
  · next number name n hassign =>
    split at h
    · rw [List.mem_singleton.mp h]
      exact ⟨number, n, hassign, rfl⟩
    · cases h
  · cases h

end Probe

namespace CallTrace

/-- Two columns for each active call. -/
def indent (m : Machine) : String :=
  String.ofList (List.replicate (2 * m.store.depth) ' ')

/-- The line for the start or the end of a call. -/
def line? (m : Machine) : Event → Option String
  | .beforeCall name args _ =>
    some (indent m ++ "-> " ++ name ++ "(" ++ String.intercalate ", " args ++ ")")
  | .afterCall name result _ => some (indent m ++ "<- " ++ name ++ " = " ++ result)
  | _ => none

def react (_ : Nat) (occasion : Occasion) (m : Machine) : Reaction :=
  match occasion with
  | .event event => { observations := ((line? m event).map Observation.line).toList }
  | .step _ => {}

def owner : String := "trace"

/-- Subscribes to the start and the end of calls; handler number `id` is used. -/
def install (id : Nat) (hooks : Registry Handler) : Except HookError (Registry Handler) := do
  let sub : Subscription Handler := { handler := ⟨id, react⟩, owner }
  let hooks ← hooks.subscribe EventName.beforeCall.text sub
  hooks.subscribe EventName.afterCall.text sub

/-- The lines written so far. -/
def lines (m : Machine) : List String :=
  m.observed.toList.filterMap fun
    | .line text => some text
    | _ => none

end CallTrace

end ObjectPascal
