import ObjectPascal.Proofs.Nesting

/-!
The active calls over a run. However a script of the language ends, the calls that are active then
are those that were active when it started, and in between they lie untouched below the calls that
were started since.
-/

namespace ObjectPascal

namespace Store

theorem setField_calls {s s' : Store} {id : ObjectId} {name : String} {v : Value}
    (h : s.setField id name v = .ok s') : s'.calls = s.calls := by
  unfold setField at h
  split at h
  · cases h
    rfl
  · cases h

theorem assign_calls {s s' : Store} {name : String} {v : Value}
    (h : s.assign name v = .ok s') : s'.calls = s.calls := by
  unfold assign at h
  split at h
  · cases h
  · cases h
    rfl
  · exact setField_calls h

theorem assignName_calls {s s' : Store} {name : String} {v : Value}
    (h : s.assignName name v = .ok s') : s'.calls = s.calls := by
  unfold assignName at h
  dsimp only at h
  split at h
  · cases h
    rfl
  · exact assign_calls h

theorem writeField_calls {s s' : Store} {id : ObjectId} {field : String} {v : Value}
    (h : s.writeField id field v = .ok s') : s'.calls = s.calls := by
  unfold writeField at h
  cases hc : s.checkAccess (s.object id).classId field ((s.objectClass id).fieldVisibility field) with
  | error c => rw [hc] at h; cases h
  | ok _ =>
    rw [hc] at h
    exact setField_calls h

theorem defineNew_calls {s s' : Store} {c : Class} (h : s.defineNew c = .ok s') :
    s'.calls = s.calls := by
  unfold defineNew define addClass at h
  dsimp only at h
  split at h
  · cases h
  · cases h
    rfl

theorem attachMethod_calls {s s' : Store} {className : String} {method : String → Method}
    {m : Method} (h : s.attachMethod className method = .ok (s', m)) : s'.calls = s.calls := by
  unfold attachMethod at h
  cases hc : s.getClass className with
  | error c => rw [hc] at h; cases h
  | ok id =>
    rw [hc] at h
    cases h
    rfl

end Store

namespace Machine

theorem assignAll_calls (as : List (String × Value)) (s : Store) :
    (assignAll as s).2.calls = s.calls := by
  induction as generalizing s with
  | nil => rfl
  | cons a as ih =>
    obtain ⟨name, v⟩ := a
    unfold assignAll
    cases h : s.assign name v with
    | error c => rfl
    | ok s' => exact (ih s').trans (Store.assign_calls h)

theorem assignedStores_calls {as : List (String × Value)} {s s' : Store}
    (h : s' ∈ assignedStores as s) : s'.calls = s.calls := by
  induction as generalizing s with
  | nil => cases h
  | cons a as ih =>
    obtain ⟨name, v⟩ := a
    unfold assignedStores at h
    cases hs : s.assign name v with
    | error c => rw [hs] at h; cases h
    | ok s₁ =>
      rw [hs] at h
      have hc := Store.assign_calls hs
      rcases List.mem_cons.mp h with rfl | h
      · exact hc
      · exact (ih h).trans hc

/-- A handler is told of a machine, assigns, and fails or not. -/
theorem notify_eq (h : Handler) (occasion : Occasion) (m : Machine) :
    notify h occasion m =
      let r := reaction h occasion m
      let noted := { m with
        notified := bump h.id m.notified
        observed := m.observed ++ r.observations.toArray }
      match assignAll r.assignments m.store with
      | (.error cause, store) => (.error (.fault { cause }), { noted with store })
      | (.ok (), store) => (r.failure.elim (.ok ()) .error, { noted with store }) := by
  rcases hr : assignAll (reaction h occasion m).assignments m.store with ⟨r, store⟩
  unfold notify reaction
  unfold reaction at hr
  dsimp only at hr ⊢
  rw [hr]
  cases r with
  | error c => rfl
  | ok =>
    dsimp only
    cases (h.react _ occasion _).failure <;> rfl

/-- A handler changes the store by its assignments alone. -/
theorem notify_store (h : Handler) (occasion : Occasion) (m : Machine) :
    (notify h occasion m).2.store =
      (assignAll (reaction h occasion m).assignments m.store).2 := by
  rw [notify_eq]
  dsimp only
  split
  · next hs => rw [hs]
  · next hs => rw [hs]

theorem notify_calls (h : Handler) (occasion : Occasion) (m : Machine) :
    (notify h occasion m).2.store.calls = m.store.calls := by
  rw [notify_store, assignAll_calls]

theorem notifyAll_calls (hs : List Handler) (occasion : Occasion) (m : Machine) :
    (notifyAll hs occasion m).2.store.calls = m.store.calls := by
  induction hs generalizing m with
  | nil => rfl
  | cons h hs ih =>
    have hc := notify_calls h occasion m
    unfold notifyAll
    rcases hn : notify h occasion m with ⟨r, m'⟩
    rw [hn] at hc
    cases r with
    | error f => exact hc
    | ok _ => exact (ih m').trans hc

theorem notifiedStores_calls {hs : List Handler} {occasion : Occasion} {m : Machine} {s : Store}
    (h : s ∈ notifiedStores hs occasion m) : s.calls = m.store.calls := by
  induction hs generalizing m with
  | nil => cases h
  | cons first hs ih =>
    have hc := notify_calls first occasion m
    unfold notifiedStores at h
    rcases List.mem_append.mp h with h | h
    · exact assignedStores_calls h
    · rcases hn : notify first occasion m with ⟨r, m'⟩
      rw [hn] at hc h
      cases r with
      | error f => cases h
      | ok _ => exact (ih h).trans hc

/-- Handlers that act while an action is carried out leave the calls alone. -/
theorem passing_calls {host : Host} {m : Machine} {a : Action} {s : Store}
    (h : s ∈ m.passing host a) : s.calls = m.store.calls := by
  cases a with
  | log step location =>
    have hc := notifiedStores_calls h
    exact hc
  | emit event => exact notifiedStores_calls h
  | _ => cases h

end Machine

/-- Actions that neither start nor end a call. -/
def Action.keepsCalls : Action → Bool
  | .enter .. | .leave => false
  | _ => true

theorem Action.keepsCalls_of_evaluates (a : Action) (h : a.evaluates = true) :
    a.keepsCalls = true := by
  cases a <;> first | rfl | cases h

namespace Machine

theorem perform_calls (host : Host) (m : Machine) (a : Action) (h : a.keepsCalls = true) :
    (m.perform host a).2.store.calls = m.store.calls := by
  cases a with
  | log step location => exact notifyAll_calls _ _ _
  | emit event => exact notifyAll_calls _ _ _
  | writeField id field v location =>
    exact update_store (P := fun s => s.calls = m.store.calls) rfl fun _ => Store.writeField_calls
  | assign name v =>
    exact update_store (P := fun s => s.calls = m.store.calls) rfl fun _ => Store.assignName_calls
  | enter frame receiver => cases h
  | leave => cases h
  | write line => exact congrArg Store.calls (m.write_store host line)
  | nextWord => exact congrArg Store.calls m.nextWord_store
  | defineClass decl location =>
    exact update_store (P := fun s => s.calls = m.store.calls) rfl fun _ => Store.defineNew_calls
  | attachMethod impl =>
    unfold perform
    dsimp only
    split
    · next hs => exact Store.attachMethod_calls hs
    · rfl
  | _ => rfl

/-- The machine just inside a call. -/
def entered (m : Machine) (frame : FrameId) (receiver : ObjectId) : Machine :=
  { m with store := m.store.enter ⟨frame, some (m.store.object receiver).classId, some receiver⟩ }

/-- The machine just outside the innermost call. -/
def left (m : Machine) : Machine :=
  { m with store := m.store.leave }

end Machine

namespace Script

variable {α β : Type} {host : Host}

/-- Inside a call a script runs as it would by itself; the call adds the live frames to what is
known of a failure, and ends. -/
theorem run_within (frame : FrameId) (receiver : ObjectId) (inside : Script Unit) (m : Machine) :
    (within frame receiver inside).run host m =
      let (r, m') := inside.run host (m.entered frame receiver)
      (r.mapError (Raised.capture m'.store.liveFrames), m'.left) := by
  unfold within
  rw [run_bind]
  change (inside.attempt >>= _).run host (m.entered frame receiver) = _
  rw [run_bind, run_attempt]
  obtain ⟨r, m'⟩ := inside.run host (m.entered frame receiver)
  cases r <;> rfl

theorem moments_within (frame : FrameId) (receiver : ObjectId) (inside : Script Unit)
    (m : Machine) :
    (within frame receiver inside).moments host m =
      (m, .enter frame receiver) :: inside.moments host (m.entered frame receiver) ++
        match inside.run host (m.entered frame receiver) with
        | (.ok _, m') => [(m', .leave)]
        | (.error _, m') => [(m', .liveFrames), (m', .leave)] := by
  unfold within
  rw [moments_bind]
  change (m, .enter frame receiver) :: (inside.attempt >>= _).moments host (m.entered frame receiver)
    = _
  rw [moments_bind, run_attempt, moments_attempt]
  obtain ⟨r, m'⟩ := inside.run host (m.entered frame receiver)
  cases r <;> rfl

/-- Whatever the machine, the script leaves the active calls as it found them, and before each of
its actions these lie untouched below the calls started since. -/
structure Balanced (host : Host) (x : Script α) : Prop where
  run : ∀ m, (x.run host m).2.store.calls = m.store.calls
  moments : ∀ m, ∀ p ∈ x.moments host m, m.store.calls <:+ p.1.store.calls

namespace Balanced

theorem pure (a : α) : Balanced host (Pure.pure a : Script α) :=
  ⟨fun _ => rfl, fun _ _ h => nomatch h⟩

theorem fail (e : Raised) : Balanced host (Script.fail e : Script α) :=
  ⟨fun _ => rfl, fun _ _ h => nomatch h⟩

theorem perform {a : Action} (h : a.keepsCalls = true) : Balanced host (Script.perform a) := by
  refine ⟨fun m => Machine.perform_calls host m a h, fun m p hp => ?_⟩
  rw [moments_perform, List.mem_singleton] at hp
  subst hp
  exact List.suffix_refl _

theorem bind {x : Script α} {f : α → Script β} (hx : Balanced host x)
    (hf : ∀ a, Balanced host (f a)) : Balanced host (x >>= f) := by
  constructor
  · intro m
    have hm := hx.run m
    obtain ⟨a, m', he, hb⟩ | ⟨e, m', he, hb⟩ := run_bind_cases host x f m
    all_goals rw [he] at hm; rw [hb]
    · exact ((hf a).run m').trans hm
    · exact hm
  · intro m p hp
    obtain hp | ⟨a, m', he, hp⟩ := mem_moments_bind.mp hp
    · exact hx.moments m p hp
    · have hm := hx.run m
      rw [he] at hm
      rw [← hm]
      exact (hf a).moments m' p hp

theorem attempt {x : Script α} (hx : Balanced host x) : Balanced host x.attempt :=
  ⟨hx.run, hx.moments⟩

theorem within {frame : FrameId} {receiver : ObjectId} {inside : Script Unit}
    (hx : Balanced host inside) : Balanced host (within frame receiver inside) := by
  have hrun (m : Machine) : ∃ a, (inside.run host (m.entered frame receiver)).2.store.calls =
      a :: m.store.calls := ⟨_, hx.run (m.entered frame receiver)⟩
  constructor
  · intro m
    obtain ⟨a, ha⟩ := hrun m
    rw [run_within]
    change (inside.run host (m.entered frame receiver)).2.store.calls.tail = _
    rw [ha, List.tail_cons]
  · intro m p hp
    obtain ⟨a, ha⟩ := hrun m
    have hin : m.store.calls <:+ (m.entered frame receiver).store.calls :=
      List.suffix_cons _ _
    have hend : m.store.calls <:+ (inside.run host (m.entered frame receiver)).2.store.calls := by
      rw [ha]
      exact List.suffix_cons _ _
    rw [moments_within] at hp
    rcases List.mem_append.mp hp with hp | hp
    · rcases List.mem_cons.mp hp with rfl | hp
      · exact List.suffix_refl _
      · exact hin.trans (hx.moments _ p hp)
    · -- the machine after the body, before the frames are noted or the call ends
      rcases he : inside.run host (m.entered frame receiver) with ⟨r, m'⟩
      rw [he] at hend hp
      cases r with
      | ok _ =>
        rw [List.mem_singleton.mp hp]
        exact hend
      | error e =>
        rcases List.mem_cons.mp hp with rfl | hp
        · exact hend
        · rw [List.mem_singleton.mp hp]
          exact hend

end Balanced

/-- By induction on how the script is put together: the calls it starts are the ones it ends. -/
theorem balanced_of_nested {x : Script α} (hx : Nested (fun a => a.keepsCalls = true) x) :
    Balanced host x := by
  induction hx with
  | done a => exact .pure a
  | fail e => exact .fail e
  | perform h => exact .perform h
  | andThen _ _ ihx ihf => exact .bind ihx ihf
  | attempt _ ih => exact .attempt ih
  | within _ ih => exact .within ih
  | create _ _ ih => exact .bind (.perform rfl) ih

/-- Over a run from `m` the calls active at its start stay as they are, with further ones inside
them, and at its end they are all that is active. -/
def RestoresCalls (host : Host) (x : Script α) (m : Machine) : Prop :=
  (x.run host m).2.store.calls = m.store.calls ∧
    ∀ s ∈ x.stores host m, m.store.calls <:+ s.calls

theorem Balanced.restoresCalls {x : Script α} (hx : Balanced host x) (m : Machine) :
    x.RestoresCalls host m := by
  refine ⟨hx.run m, fun s hs => ?_⟩
  obtain ⟨p, hp, hs⟩ | rfl := mem_stores.mp hs
  · have hm := hx.moments m p hp
    rcases hs with rfl | hs
    · exact hm
    · rw [Machine.passing_calls hs]
      exact hm
  · exact ⟨[], (hx.run m).symm⟩

end Script

/-! Whole programs. -/

namespace Nested

theorem of_evaluates {α : Type} {x : Script α} (hx : Evaluates x) :
    Nested (fun a => a.keepsCalls = true) x :=
  hx.mono Action.keepsCalls_of_evaluates

theorem of_declares {α : Type} {x : Script α} (hx : Declares x) :
    Nested (fun a => a.keepsCalls = true) x := by
  induction hx with
  | done a => exact .done a
  | fail e => exact .fail e
  | @perform a h =>
    refine .perform ?_
    cases a <;> first | rfl | cases h
  | log => exact .perform rfl
  | andThen _ _ ihx ihf => exact .andThen ihx ihf

theorem programEffect (depth : Nat) (p : Program) :
    Nested (fun a => a.keepsCalls = true) (p.effect depth) :=
  .bind (of_declares (.declareClasses _)) fun _ => .bind (of_declares (.attachMethods _)) fun _ =>
    .bind (of_declares (.declareVars _)) fun _ => of_evaluates (.executeAll (.runBody depth) _)

theorem report (raised : Raised) :
    Nested (fun a => a.keepsCalls = true) (Program.report raised) := by
  cases raised with
  | runtime error =>
    exact .bind (.perform rfl) fun _ => .bind (.perform rfl) fun _ =>
      .bind (.perform rfl) fun _ => .fail _
  | host fault =>
    exact .bind (.perform rfl) fun _ => .bind (.perform rfl) fun _ =>
      .bind (.perform rfl) fun _ => .fail _
  | exhausted error =>
    exact .bind (.mapError _ (.perform rfl)) fun _ => .bind (.perform rfl) fun _ =>
      .bind (.perform rfl) fun _ => .fail _

theorem programExecute (depth : Nat) (p : Program) :
    Nested (fun a => a.keepsCalls = true) (p.execute depth) := by
  refine .bind (.perform rfl) fun _ => .bind (.attempt (programEffect depth p)) fun r => ?_
  cases r with
  | ok _ => exact .perform rfl
  | error raised => exact report raised

end Nested

/-- Programs, constructor calls and method calls, whatever the handlers, the input and the output
do and however the run ends, give the active calls back as they were. -/
theorem calls_restored (host : Host) (m : Machine) (depth : Nat) :
    (∀ p : Program, (p.execute depth).RestoresCalls host m) ∧
    (∀ id member args location,
      (construct (runBody depth) id member args location).RestoresCalls host m) ∧
    ∀ receiver member args location,
      (invokeMethod (runBody depth) receiver member args location).RestoresCalls host m := by
  have restores {α : Type} {x : Script α} (hx : Nested (fun a => a.keepsCalls = true) x) :
      x.RestoresCalls host m :=
    (Script.balanced_of_nested hx).restoresCalls m
  have hb := Evaluates.runBody depth
  refine ⟨fun p => restores (.programExecute depth p), fun id member args location => ?_,
    fun receiver member args location => ?_⟩
  · exact restores (.of_evaluates (.construct hb id member args location))
  · exact restores (.of_evaluates (.invokeMethod hb receiver member args location))

end ObjectPascal
