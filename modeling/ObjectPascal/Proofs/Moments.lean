import ObjectPascal.Execution

/-!
The stores that a run passes through: before every action, after every assignment that a handler
makes while the action is carried out, and at the end.
-/

namespace ObjectPascal

namespace Machine

/-- The store after each of some assignments, up to the first that fails. -/
def assignedStores : List (String × Value) → Store → List Store
  | [], _ => []
  | (name, v) :: rest, s =>
    match s.assign name v with
    | .error _ => []
    | .ok s => s :: assignedStores rest s

/-- What a handler does when it is called on a machine. -/
def reaction (h : Handler) (occasion : Occasion) (m : Machine) : Reaction :=
  let notified := bump h.id m.notified
  h.react (notified.getD h.id 0) occasion { m with notified }

/-- The stores that calling handlers in turn passes through. -/
def notifiedStores : List Handler → Occasion → Machine → List Store
  | [], _, _ => []
  | h :: hs, occasion, m =>
    assignedStores (reaction h occasion m).assignments m.store ++
      match notify h occasion m with
      | (.error _, _) => []
      | (.ok (), m) => notifiedStores hs occasion m

/-- The stores that an action passes through on the way. -/
def passing (host : Host) (m : Machine) : Action → List Store
  | .log step location =>
    let context := m.nextStep step location
    notifiedStores (host.hooks.dueHandlers context.index) (.step context)
      (m.record host step location)
  | .emit event => notifiedStores (host.hooks.handlers event.name) (.event event) m
  | _ => []

/-! Without handlers, telling them does nothing. -/

theorem emit_of_no_hooks {host : Host} (h : host.hooks = {}) (event : Event) (m : Machine) :
    m.emit host event = (.ok (), m) := by
  unfold emit
  rw [h]
  rfl

theorem logStep_of_no_hooks {host : Host} (h : host.hooks = {}) (step : Step)
    (location : Option Location) (m : Machine) :
    m.logStep host step location = (.ok (), m.record host step location) := by
  unfold logStep
  rw [h]
  rfl

end Machine

namespace Script

variable {α β : Type} {host : Host}

/-- All stores that a script passes through, in order. -/
def stores (host : Host) (x : Script α) (m : Machine) : List Store :=
  (x.moments host m).flatMap (fun (m', a) => m'.store :: m'.passing host a) ++
    [(x.run host m).2.store]

@[simp]
theorem moments_perform (a : Action) (m : Machine) :
    (perform a).moments host m = [(m, a)] :=
  rfl

theorem moments_bind (x : Script α) (f : α → Script β) (m : Machine) :
    (x >>= f).moments host m =
      x.moments host m ++
        match x.run host m with
        | (.ok a, m') => (f a).moments host m'
        | (.error _, _) => [] := by
  change (andThen x f).moments host m = _
  rcases hr : x.run host m with ⟨r, m'⟩
  cases r with
  | ok a => simp only [moments, hr]
  | error e => simp only [moments, hr]

/-- After a first script that succeeds, what is passed through is what both pass through. -/
theorem mem_moments_bind {x : Script α} {f : α → Script β} {m : Machine} {p : Machine × Action} :
    p ∈ (x >>= f).moments host m ↔
      p ∈ x.moments host m ∨
        ∃ a m', x.run host m = (.ok a, m') ∧ p ∈ (f a).moments host m' := by
  rw [moments_bind, List.mem_append]
  obtain ⟨r, m'⟩ := x.run host m
  cases r with
  | ok a =>
    refine or_congr_right ⟨fun h => ⟨a, m', rfl, h⟩, ?_⟩
    rintro ⟨_, _, ⟨⟩, h⟩
    exact h
  | error e => simp

@[simp]
theorem moments_attempt (x : Script α) (m : Machine) :
    x.attempt.moments host m = x.moments host m :=
  rfl

theorem moments_mapError (x : Script α) (f : Raised → Raised) (m : Machine) :
    (x.mapError f).moments host m = x.moments host m := by
  unfold mapError
  rw [moments_bind, run_attempt, moments_attempt]
  cases (x.run host m).1 <;> exact List.append_nil _

theorem run_bind_of_ok {x : Script α} {f : α → Script β} {m m' : Machine} {a : α}
    (hr : x.run host m = (.ok a, m')) : (x >>= f).run host m = (f a).run host m' := by
  rw [run_bind, hr]

theorem run_liveFrames (host : Host) (m : Machine) :
    (perform .liveFrames).run host m = (.ok m.store.liveFrames, m) :=
  rfl

theorem run_lastStep (host : Host) (m : Machine) :
    (perform .lastStep).run host m = (.ok (m.log.lastIndex, m.log.lastLocation), m) :=
  rfl

/-- How a sequence ends: the first script fails, or the second one is run after it. -/
theorem run_bind_cases (host : Host) (x : Script α) (f : α → Script β) (m : Machine) :
    (∃ a m', x.run host m = (.ok a, m') ∧ (x >>= f).run host m = (f a).run host m') ∨
      ∃ e m', x.run host m = (.error e, m') ∧ (x >>= f).run host m = (.error e, m') := by
  rw [run_bind]
  obtain ⟨r, m'⟩ := x.run host m
  cases r with
  | ok a => exact .inl ⟨a, m', rfl, rfl⟩
  | error e => exact .inr ⟨e, m', rfl, rfl⟩

theorem mem_stores {x : Script α} {m : Machine} {s : Store} :
    s ∈ x.stores host m ↔
      (∃ p ∈ x.moments host m, s = p.1.store ∨ s ∈ p.1.passing host p.2) ∨
        s = (x.run host m).2.store := by
  simp only [stores, List.mem_append, List.mem_flatMap, List.mem_cons, List.not_mem_nil, or_false]

end Script

end ObjectPascal
