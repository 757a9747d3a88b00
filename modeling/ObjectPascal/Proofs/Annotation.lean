import ObjectPascal.Proofs.Chronicle
import ObjectPascal.Proofs.EventOrder

/-!
What is noted in the error that a run ends in. The report of a failure notes the live frames and the
last step. The handlers that are told of the program as a whole stand outside the report: when one
of them fails, its failure is the error of the run, as it is. Nothing is noted in it, unless the
handler fails with an error in which that has been noted already, as one does that raises again what
it has been told of.
-/

namespace ObjectPascal

open Script

/-- The events of a program as a whole. -/
def Event.ofProgram : Event → Bool
  | .programStart _ | .onError _ | .programEnd => true
  | _ => false

/-! What statements tell is not about the program as a whole. -/

mutual

theorem StatementWord.inner {K : Method → Prop} {d : Nat} {s : Statement} {w : List Signal} :
    StatementWord K d s w → ∀ x ∈ w, x.1.ofProgram = false
  | .mk _ h, x, hx => by
    rcases List.mem_append.mp hx with hx | hx
    · rcases List.mem_cons.mp hx with rfl | hx
      · rfl
      · obtain ⟨u, hu, hx⟩ := List.mem_flatten.mp hx
        exact (h u hu).inner x hx
    · rw [List.mem_singleton.mp hx]
      rfl

theorem CallWord.inner {K : Method → Prop} {d : Nat} {w : List Signal} :
    CallWord K d w → ∀ x ∈ w, x.1.ofProgram = false
  | .method _ _ _ _ h, x, hx => by
    rcases List.mem_append.mp hx with hx | hx
    · rcases List.mem_cons.mp hx with rfl | hx
      · rfl
      · exact h.inner x hx
    · rw [List.mem_singleton.mp hx]
      rfl
  | .procedure _ _ _ _, x, hx => by
    rcases List.mem_cons.mp hx with rfl | hx
    · rfl
    · rw [List.mem_singleton.mp hx]
      rfl

theorem BlockWord.inner {K : Method → Prop} {d : Nat} {ss : List Statement} {w : List Signal} :
    BlockWord K d ss w → ∀ x ∈ w, x.1.ofProgram = false
  | .nil, _, hx => nomatch hx
  | .cons h h', x, hx => by
    rcases List.mem_append.mp hx with hx | hx
    · exact h.inner x hx
    · exact h'.inner x hx

end

namespace Program

variable {host : Host} {depth : Nat} {p : Program} {m n : Machine} {event : Event}

/-- The declarations and the main block tell nothing about the program as a whole. -/
theorem inner_of_mem_effect (h : (n, .emit event) ∈ (p.effect depth).moments host m) :
    event.ofProgram = false := by
  have htold : (event, n.store.depth) ∈ (p.effect depth).events host m :=
    List.mem_filterMap.mpr ⟨_, h, rfl⟩
  cases Tells.effect host depth p m with
  | whole _ hword => exact hword.inner _ htold
  | cut _ hword hpart => exact hword.inner _ (hpart.subset htold)

end Program

/-! What is noted. -/

namespace RuntimeError

/-- The frames are noted, and the step is the last one in the log of the machine. -/
def Annotated (e : RuntimeError) (m : Machine) : Prop :=
  e.stack.isSome ∧ e.step = some m.log.lastIndex

instance (e : RuntimeError) (m : Machine) : Decidable (e.Annotated m) :=
  inferInstanceAs (Decidable (_ ∧ _))

/-- Neither frames nor a step are noted. -/
def Bare (e : RuntimeError) : Prop :=
  e.stack = none ∧ e.step = none

theorem Bare.not_annotated {e : RuntimeError} (h : e.Bare) (m : Machine) : ¬ e.Annotated m := by
  rintro ⟨hstack, -⟩
  rw [h.1] at hstack
  cases hstack

theorem annotated_congr {e : RuntimeError} {m m' : Machine} (h : m'.log = m.log) :
    e.Annotated m' ↔ e.Annotated m := by
  unfold Annotated
  rw [h]

end RuntimeError

/-- The fault that a computation ends in, unless it is one of the surroundings. -/
def Raised.error? : Raised → Option RuntimeError
  | .runtime e | .exhausted e => some e
  | .host _ => none

namespace Machine

variable {host : Host} {m : Machine} {event : Event} {raised : Raised}

theorem emit_log (host : Host) (event : Event) (m : Machine) :
    (m.emit host event).2.log = m.log :=
  notifyAll_log _ _ _

/-- What handlers fail with is a fault of the program. -/
theorem emit_error (h : (m.emit host event).1 = .error raised) : ∃ e, raised = .runtime e := by
  unfold emit judge at h
  dsimp only at h
  split at h <;> cases h <;> exact ⟨_, rfl⟩

/-- Handlers that note nothing in what they raise fail with nothing noted. -/
theorem emit_bare (hh : host.hooks.All (Handler.Raises RuntimeError.Bare)) {e : RuntimeError}
    (h : (m.emit host event).1 = .error (.runtime e)) : e.Bare := by
  unfold emit judge at h
  dsimp only at h
  split at h
  · cases h
  · next hf =>
    cases h
    exact notifyAll_raises (fun _ _ _ _ => ⟨rfl, rfl⟩) (hh.handlers _) hf
  · cases h
    exact ⟨rfl, rfl⟩

end Machine

/-! The report. -/

namespace Script

variable {α β : Type} {host : Host} {m m' n : Machine} {event event' : Event}

theorem Quiet.not_mem {x : Script α} (h : Quiet host x) :
    (n, Action.emit event) ∉ x.moments host m := by
  intro hmem
  have htold : (event, n.store.depth) ∈ x.events host m := List.mem_filterMap.mpr ⟨_, hmem, rfl⟩
  rw [h m] at htold
  cases htold

/-- After a script that tells nothing, what is told is what the next one tells. -/
theorem Quiet.mem_bind {x : Script α} {f : α → Script β} {a : α} (h : Quiet host x)
    (hr : x.run host m = (.ok a, m')) :
    (n, Action.emit event) ∈ (x >>= f).moments host m ↔
      (n, .emit event) ∈ (f a).moments host m' := by
  rw [mem_moments_bind]
  constructor
  · rintro (hmem | ⟨_, _, hr', hmem⟩)
    · exact absurd hmem h.not_mem
    · cases hr.symm.trans hr'
      exact hmem
  · exact fun hmem => .inr ⟨a, m', hr, hmem⟩

variable {x : Script Unit} {f : Unit → Script α}

/-- Before a script that tells nothing, what is told is the event alone. -/
theorem mem_tell_bind (hx : x.moments host m = [(m, .emit event)]) (hf : Quiet host (f ())) :
    (n, Action.emit event') ∈ (x >>= f).moments host m ↔ n = m ∧ event' = event := by
  rw [mem_moments_bind, hx]
  constructor
  · rintro (hmem | ⟨_, _, -, hmem⟩)
    · cases List.mem_singleton.mp hmem
      exact ⟨rfl, rfl⟩
    · exact absurd hmem hf.not_mem
  · rintro ⟨rfl, rfl⟩
    exact .inl List.mem_cons_self

end Script

/-- The script tells the handlers of a failure and of nothing else, and fails with everything noted.
If the handlers fail, it fails as they do. -/
structure Annotates (host : Host) (x : Script Unit) (m : Machine) (told raised : Raised) :
    Prop where
  tells : ∀ n event, (n, Action.emit event) ∈ x.moments host m ↔ n = m ∧ event = .onError told
  run : x.run host m = (.error raised, (m.emit host (.onError told)).2)
  ends : ((m.emit host (.onError told)).1 = .ok () ∧ ∃ e, raised.error? = some e ∧ e.Annotated m) ∨
    ∃ e, (m.emit host (.onError told)).1 = .error (.runtime e) ∧ raised.error? = some e

namespace Annotates

variable {host : Host} {m : Machine} {told raised : Raised}

theorem after_quiet {α : Type} {x : Script α} {f : α → Script Unit} {a : α} (hq : Quiet host x)
    (hr : x.run host m = (.ok a, m)) (h : Annotates host (f a) m told raised) :
    Annotates host (x >>= f) m told raised where
  tells n event := (hq.mem_bind hr).trans (h.tells n event)
  run := (run_bind_of_ok hr).trans h.run
  ends := h.ends

/-- To tell of a failure and then to fail, with what is noted before or after. -/
theorem of_tell {x : Script Unit} {f : Unit → Script Unit}
    (hmoments : x.moments host m = [(m, .emit (.onError told))])
    (hm : (x.run host m).2 = (m.emit host (.onError told)).2)
    (hok : (m.emit host (.onError told)).1 = .ok () → (x.run host m).1 = .ok ())
    (herror : ∀ e, (m.emit host (.onError told)).1 = .error (.runtime e) →
      ∃ r, (x.run host m).1 = .error r ∧ r.error? = some e)
    (hq : Quiet host (f ()))
    (hf : ∀ m', m'.log = m.log → ∃ r e, (f ()).run host m' = (.error r, m') ∧
      r.error? = some e ∧ e.Annotated m) :
    ∃ raised, Annotates host (x >>= f) m told raised := by
  have htells (n : Machine) (event : Event) :
      (n, Action.emit event) ∈ (x >>= f).moments host m ↔ n = m ∧ event = .onError told :=
    mem_tell_bind hmoments hq
  have hx {r : Except Raised Unit} (hr : (x.run host m).1 = r) :
      x.run host m = (r, (m.emit host (.onError told)).2) := Prod.ext hr hm
  rcases hemit : (m.emit host (.onError told)).1 with r | _
  · obtain ⟨e, rfl⟩ := Machine.emit_error hemit
    obtain ⟨r, hr, he⟩ := herror e hemit
    refine ⟨r, htells, ?_, .inr ⟨e, hemit, he⟩⟩
    rw [run_bind, hx hr]
  · obtain ⟨r, e, hr, he, hnoted⟩ := hf _ (Machine.emit_log host (.onError told) m)
    refine ⟨r, htells, ?_, .inl ⟨hemit, e, he, hnoted⟩⟩
    rw [run_bind_of_ok (hx (hok hemit))]
    exact hr

/-- By cases on what has failed: it is noted before the handlers are told, or after. -/
theorem report (host : Host) (raised : Raised) (m : Machine) :
    ∃ told raised', Annotates host (Program.report raised) m told raised' := by
  have hstack (stack : Option (List FrameId)) (live : List FrameId) :
      (stack.or (some live)).isSome := by
    rw [Option.isSome_or]
    exact Bool.or_true _
  unfold Program.report
  cases raised with
  | runtime error =>
    let raised := Raised.capture m.store.liveFrames
      (.runtime { error with step := some m.log.lastIndex })
    obtain ⟨raised', h⟩ : ∃ raised', Annotates host
        (perform (.emit (.onError raised)) >>= fun _ => fail raised) m raised raised' := by
      refine of_tell rfl rfl id (fun e he => ⟨_, he, rfl⟩) (fun _ => rfl) fun m' _ => ?_
      exact ⟨_, _, rfl, rfl, hstack _ _, rfl⟩
    exact ⟨raised, raised', after_quiet (.perform fun _ => rfl) (run_liveFrames host m)
      (after_quiet (.perform fun _ => rfl) (run_lastStep host m) h)⟩
  | host fault =>
    refine ⟨_, of_tell rfl rfl id (fun e he => ⟨_, he, rfl⟩) ?_ fun m' hlog => ?_⟩
    · exact .bind (.perform fun _ => rfl) fun _ => .bind (.perform fun _ => rfl) fun _ _ => rfl
    · rw [run_bind_of_ok (run_liveFrames host m'), run_bind_of_ok (run_lastStep host m')]
      exact ⟨_, _, rfl, rfl, hstack _ _, congrArg (fun log => some (StepLog.lastIndex log)) hlog⟩
  | exhausted error =>
    refine ⟨_, of_tell (moments_mapError _ _ m) ?_ ?_ ?_ ?_ fun m' hlog => ?_⟩
    · rw [run_mapError]
      rfl
    · intro hok
      rw [run_mapError]
      exact congrArg (Except.mapError Raised.outOfRoom) hok
    · intro e he
      rw [run_mapError]
      exact ⟨_, congrArg (Except.mapError Raised.outOfRoom) he, rfl⟩
    · exact .bind (.perform fun _ => rfl) fun _ => .bind (.perform fun _ => rfl) fun _ _ => rfl
    · rw [run_bind_of_ok (run_liveFrames host m'), run_bind_of_ok (run_lastStep host m')]
      exact ⟨_, _, rfl, rfl, hstack _ _, congrArg (fun log => some (StepLog.lastIndex log)) hlog⟩

end Annotates

namespace Program

variable {host : Host} {depth : Nat} {p : Program} {m m₁ m₂ : Machine}

/-- What a run whose start is told consists of. -/
theorem mem_execute_of_start {r : Except Raised Unit} {x : Machine × Action}
    (hstart : (perform (.emit (.programStart p.name))).run host m = (.ok (), m₁))
    (hr : (p.effect depth).run host m₁ = (r, m₂)) :
    x ∈ (p.execute depth).moments host m ↔
      x = (m, .emit (.programStart p.name)) ∨ x ∈ (p.effect depth).moments host m₁ ∨
        x ∈ (conclude r).moments host m₂ := by
  have hattempt : (p.effect depth).attempt.run host m₁ = (.ok r, m₂) := by rw [run_attempt, hr]
  rw [execute_eq, moments_bind, hstart]
  dsimp only
  rw [moments_bind, hattempt, List.mem_append, List.mem_append, moments_perform,
    List.mem_singleton]
  rfl

/-- A handler is told of the program as a whole. -/
def Tells (host : Host) (depth : Nat) (p : Program) (m n : Machine) (event : Event) : Prop :=
  (n, .emit event) ∈ (p.execute depth).moments host m ∧ event.ofProgram = true

/-- No handler fails when it is told of the program as a whole. -/
def Undisturbed (host : Host) (depth : Nat) (p : Program) (m : Machine) : Prop :=
  ∀ n event, p.Tells host depth m n event → (n.emit host event).1 = .ok ()

/-- Whatever a handler fails with when it is told of the program as a whole, everything has been
noted in it. -/
def MarksKept (host : Host) (depth : Nat) (p : Program) (m : Machine) : Prop :=
  ∀ n event e, p.Tells host depth m n event → (n.emit host event).1 = .error (.runtime e) →
    e.Annotated n

theorem Undisturbed.marksKept (h : p.Undisturbed host depth m) : p.MarksKept host depth m := by
  intro n event e htells he
  rw [h n event htells] at he
  cases he

/-- The one handler that fails when it is told of the program as a whole, and what it fails with. -/
structure Disturbed (host : Host) (depth : Nat) (p : Program) (m n : Machine) (event : Event)
    (e : RuntimeError) : Prop where
  tells : p.Tells host depth m n event
  fails : (n.emit host event).1 = .error (.runtime e)
  alone : ∀ n' event', p.Tells host depth m n' event' →
    (n'.emit host event').1 = .ok () ∨ n' = n ∧ event' = event

namespace Disturbed

variable {n : Machine} {event : Event} {e : RuntimeError}

theorem not_undisturbed (h : p.Disturbed host depth m n event e) :
    ¬ p.Undisturbed host depth m := by
  intro hcalm
  have hok := hcalm n event h.tells
  rw [h.fails] at hok
  cases hok

theorem marksKept_iff (h : p.Disturbed host depth m n event e) :
    p.MarksKept host depth m ↔ e.Annotated n := by
  constructor
  · exact fun hkept => hkept n event e h.tells h.fails
  · intro hnoted n' event' e' htells he
    rcases h.alone n' event' htells with hok | ⟨rfl, rfl⟩
    · rw [hok] at he
      cases he
    · cases h.fails.symm.trans he
      exact hnoted

end Disturbed

/-- The error that a run ends in: what the report makes of a failure, or the failure of a handler
that is told of the program as a whole. -/
theorem execute_error {m' : Machine} {raised : Raised}
    (hrun : (p.execute depth).run host m = (.error raised, m')) :
    ∃ e, raised.error? = some e ∧ (e.Annotated m' ∧ p.Undisturbed host depth m ∨
      ∃ n event, p.Disturbed host depth m n event e ∧ m'.log = n.log) := by
  rcases hstart : m.emit host (.programStart p.name) with ⟨r₁, m₁⟩
  have hstarted : (perform (.emit (.programStart p.name))).run host m = (r₁, m₁) := hstart
  cases r₁ with
  | error r =>
    -- nothing comes after a start that fails
    have hends : (p.execute depth).run host m = (.error r, m₁) := by
      rw [execute_eq, run_bind, hstarted]
    cases hrun.symm.trans hends
    have hfails := congrArg Prod.fst hstart
    obtain ⟨e, rfl⟩ := Machine.emit_error hfails
    have hall : (p.execute depth).moments host m = [(m, .emit (.programStart p.name))] := by
      rw [execute_eq, moments_bind, hstarted]
      rfl
    refine ⟨e, rfl, .inr ⟨m, .programStart p.name, ⟨⟨?_, rfl⟩, hfails, ?_⟩, ?_⟩⟩
    · rw [hall]
      exact List.mem_cons_self
    · rintro n' event' ⟨hmem, -⟩
      rw [hall] at hmem
      cases List.mem_singleton.mp hmem
      exact .inr ⟨rfl, rfl⟩
    · rw [← Machine.emit_log host (.programStart p.name) m, hstart]
  | ok =>
    rcases heffect : (p.effect depth).run host m₁ with ⟨r₂, m₂⟩
    obtain ⟨-, hconclude, -⟩ := execute_of_start hstarted heffect
    rw [hconclude] at hrun
    -- the other handlers are told of the conclusion
    have tells {n : Machine} {event : Event} (h : p.Tells host depth m n event) :
        (n.emit host event).1 = .ok () ∨ (n, .emit event) ∈ (conclude r₂).moments host m₂ := by
      obtain ⟨hmem, hprogram⟩ := h
      rcases (mem_execute_of_start hstarted heffect).mp hmem with hmem | hmem | hmem
      · cases hmem
        exact .inl (congrArg Prod.fst hstart)
      · rw [inner_of_mem_effect hmem] at hprogram
        cases hprogram
      · exact .inr hmem
    have told {n : Machine} {event : Event} (h : (n, .emit event) ∈ (conclude r₂).moments host m₂)
        (hprogram : event.ofProgram = true) : p.Tells host depth m n event :=
      ⟨(mem_execute_of_start hstarted heffect).mpr (.inr (.inr h)), hprogram⟩
    cases r₂ with
    | ok =>
      have hfails : (m₂.emit host .programEnd).1 = .error raised := congrArg Prod.fst hrun
      obtain ⟨e, rfl⟩ := Machine.emit_error hfails
      refine ⟨e, rfl, .inr ⟨m₂, .programEnd, ⟨told List.mem_cons_self rfl, hfails, ?_⟩, ?_⟩⟩
      · intro n' event' h
        refine (tells h).imp_right fun hmem => ?_
        cases List.mem_singleton.mp hmem
        exact ⟨rfl, rfl⟩
      · rw [← Machine.emit_log host .programEnd m₂]
        exact congrArg (fun x => x.2.log) hrun.symm
    | error r₂ =>
      obtain ⟨r, raised', hreport⟩ := Annotates.report host r₂ m₂
      cases hreport.run.symm.trans hrun
      have hlog := Machine.emit_log host (.onError r) m₂
      have hlast : p.Tells host depth m m₂ (.onError r) :=
        told ((hreport.tells _ _).mpr ⟨rfl, rfl⟩) rfl
      rcases hreport.ends with ⟨hok, e, he, hnoted⟩ | ⟨e, hfails, he⟩
      · refine ⟨e, he, .inl ⟨(RuntimeError.annotated_congr hlog).mpr hnoted, ?_⟩⟩
        intro n event h
        rcases tells h with hok | hmem
        · exact hok
        · obtain ⟨rfl, rfl⟩ := (hreport.tells _ _).mp hmem
          exact hok
      · refine ⟨e, he, .inr ⟨m₂, .onError r, ⟨hlast, hfails, ?_⟩, hlog⟩⟩
        exact fun n' event' h => (tells h).imp_right (hreport.tells _ _).mp

end Program

/-- A run that ends in an error ends in a fault of the program, in which the frames and the last
step are noted just if they have been noted in whatever a handler fails with that is told of the
program as a whole. If no handler raises an error in which something has been noted before, they are
both noted or both missing, and noted just if no handler fails that is told of the program as a
whole. -/
theorem failure_annotated_iff {host : Host} {m m' : Machine} {p : Program} {depth : Nat}
    {raised : Raised} (hrun : (p.execute depth).run host m = (.error raised, m')) :
    ∃ e, raised.error? = some e ∧
      (e.Annotated m' ↔ p.MarksKept host depth m) ∧
      (host.hooks.All (Handler.Raises RuntimeError.Bare) →
        (e.Annotated m' ∨ e.Bare) ∧ (e.Annotated m' ↔ p.Undisturbed host depth m)) := by
  obtain ⟨e, he, ⟨hnoted, hcalm⟩ | ⟨n, event, hfails, hlog⟩⟩ := Program.execute_error hrun
  · exact ⟨e, he, ⟨fun _ => hcalm.marksKept, fun _ => hnoted⟩,
      fun _ => ⟨.inl hnoted, fun _ => hcalm, fun _ => hnoted⟩⟩
  · refine ⟨e, he, ?_, fun hh => ?_⟩
    · rw [hfails.marksKept_iff]
      exact RuntimeError.annotated_congr hlog
    · have hbare := Machine.emit_bare hh hfails.fails
      refine ⟨.inr hbare, fun h => ?_, fun h => ?_⟩
      · exact absurd h (hbare.not_annotated m')
      · exact absurd h hfails.not_undisturbed

/-- A program that divides by zero. -/
def Program.hasty : Program where
  location := default
  name := none
  classes := none
  vars := none
  methods := none
  block := ⟨default, [.procedureCall default "writeln"
    [.binary default .div (.literal default 1) (.literal default 0)]]⟩

/-- Surroundings with a handler of one event. -/
def Host.hearing (event : EventName) (react : Occasion → Reaction) : Host where
  hooks := { subscriptions := [(event, [{ handler := ⟨0, fun _ occasion _ => react occasion⟩ }])] }

/-- Raises again what it is told of. -/
def Reaction.protest : Occasion → Reaction
  | .event (.onError (.runtime e)) => { failure := some (.fault e) }
  | _ => {}


/-- A handler that is told of the division and raises it again keeps what is noted in it; so does
one that only listens. -/
theorem failure_annotated_iff_division :
    let p := Program.hasty
    let e : RuntimeError := ⟨.divisionByZero, some default, some 1, some [0]⟩
    let protesting : Host := .hearing .onError .protest
    let listening : Host := .hearing .onError fun _ => { observations := [.line "heard"] }
    ((p.execute 1).run protesting {}).1 = .error (.runtime e) ∧
      e.Annotated ((p.execute 1).run protesting {}).2 ∧
      p.MarksKept protesting 1 {} ∧ ¬ p.Undisturbed protesting 1 {} ∧
      listening.hooks.All (Handler.Raises RuntimeError.Bare) ∧
      e.Annotated ((p.execute 1).run listening {}).2 ∧ p.Undisturbed listening 1 {} := by
  intro p e protesting listening
  have hraised : ((p.execute 1).run protesting {}).1 = .error (.runtime e) := by decide +kernel
  have hnoted : e.Annotated ((p.execute 1).run protesting {}).2 := by decide +kernel
  have hraised' : ((p.execute 1).run listening {}).1 = .error (.runtime e) := by decide +kernel
  have hnoted' : e.Annotated ((p.execute 1).run listening {}).2 := by decide +kernel
  have hbare : listening.hooks.All (Handler.Raises RuntimeError.Bare) := by
    refine .single fun _ _ _ _ h => ?_
    cases h
  have hends {host : Host} (h : ((p.execute 1).run host {}).1 = .error (.runtime e)) :
      (p.execute 1).run host {} = (.error (.runtime e), ((p.execute 1).run host {}).2) :=
    Prod.ext h rfl
  obtain ⟨e₁, he₁, hiff, -⟩ := failure_annotated_iff (hends hraised)
  obtain ⟨e₂, he₂, -, hquiet⟩ := failure_annotated_iff (hends hraised')
  obtain rfl : e = e₁ := Option.some.inj he₁
  obtain rfl : e = e₂ := Option.some.inj he₂
  refine ⟨hraised, hnoted, hiff.mp hnoted, fun hcalm => ?_, hbare, hnoted',
    (hquiet hbare).2.mp hnoted'⟩
  obtain ⟨n, hn⟩ : ∃ n, ((p.execute 1).moments protesting {})[5]? =
      some (n, .emit (.onError (.runtime e))) := ⟨_, rfl⟩
  cases hcalm n _ ⟨List.mem_of_getElem? hn, rfl⟩

/-- A handler that fails at the start of a program without statements: the error says neither when
nor in which frames. -/
theorem start_failure_bare :
    let p : Program := { Program.hasty with block := ⟨default, []⟩ }
    let e : RuntimeError := { cause := .observerFailed "Hook 'program_start'" "boom" }
    let host : Host := .hearing .programStart fun _ => { failure := some (.host "boom") }
    let run := (p.execute 1).run host {}
    run.1 = .error (.runtime e) ∧ e.step = none ∧ e.stack = none ∧ ¬ e.Annotated run.2 := by
  refine ⟨rfl, rfl, rfl, ?_⟩
  exact RuntimeError.Bare.not_annotated ⟨rfl, rfl⟩ _

end ObjectPascal
