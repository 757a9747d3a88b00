import ObjectPascal.Interpreter
import ObjectPascal.Probe
import ObjectPascal.Store.Graph
import ObjectPascal.Proofs.Handlers

/-!
Instruments: handlers that only look on, and a log that keeps the variables of every step. Taking
their traces off a machine commutes with every action, and so with every run.
-/

namespace ObjectPascal

/-- A handler that neither assigns nor fails. -/
def Handler.Passive (h : Handler) : Prop :=
  ∀ count occasion m, (h.react count occasion m).assignments = [] ∧
    (h.react count occasion m).failure = none

def LogEntry.withoutSnapshot (e : LogEntry) : LogEntry :=
  { e with snapshot := none }

def StepLog.withoutSnapshots (log : StepLog) : StepLog :=
  ⟨log.entries.map LogEntry.withoutSnapshot⟩

namespace StepLog

@[simp]
theorem size_withoutSnapshots (log : StepLog) : log.withoutSnapshots.size = log.size := by
  simp [withoutSnapshots, size]

@[simp]
theorem lastIndex_withoutSnapshots (log : StepLog) :
    log.withoutSnapshots.lastIndex = log.lastIndex := by
  simp [lastIndex]

@[simp]
theorem lastLocation_withoutSnapshots (log : StepLog) :
    log.withoutSnapshots.lastLocation = log.lastLocation := by
  have hback : log.withoutSnapshots.entries.back? =
      log.entries.back?.map LogEntry.withoutSnapshot := by
    simp [withoutSnapshots, Array.back?_eq_getElem?]
  unfold lastLocation
  rw [hback]
  cases log.entries.back? <;> rfl

@[simp]
theorem withoutSnapshots_push (log : StepLog) (e : LogEntry) :
    (log.push e).withoutSnapshots = log.withoutSnapshots.push e.withoutSnapshot := by
  simp [withoutSnapshots, push]

end StepLog

/-- The same surroundings without instruments. -/
def Host.plain (host : Host) : Host :=
  { refuse := host.refuse }

namespace Machine

/-- A machine without the traces of instruments. -/
def uninstrumented (m : Machine) : Machine :=
  { m with log := m.log.withoutSnapshots, observed := #[], notified := [] }

variable {host : Host} {m : Machine}

theorem uninstrumented_record (step : Step) (location : Option Location) :
    (m.record host step location).uninstrumented =
      m.uninstrumented.record host.plain step location := by
  unfold record uninstrumented
  simp only [StepLog.withoutSnapshots_push]
  rfl

/-- Calling a handler that only looks on. -/
theorem notify_of_passive {h : Handler} (hp : h.Passive) (occasion : Occasion) (m : Machine) :
    (notify h occasion m).1 = .ok () ∧
      (notify h occasion m).2.uninstrumented = m.uninstrumented := by
  obtain ⟨hassign, hfail⟩ :=
    hp ((bump h.id m.notified).getD h.id 0) occasion { m with notified := bump h.id m.notified }
  unfold notify
  simp only [hassign, hfail, assignAll]
  exact ⟨trivial, rfl⟩

theorem notifyAll_of_passive {hs : List Handler} (hp : ∀ h ∈ hs, h.Passive)
    (occasion : Occasion) (m : Machine) :
    (notifyAll hs occasion m).1 = .ok () ∧
      (notifyAll hs occasion m).2.uninstrumented = m.uninstrumented := by
  induction hs generalizing m with
  | nil => exact ⟨rfl, rfl⟩
  | cons h hs ih =>
    obtain ⟨hfirst, hrest⟩ := List.forall_mem_cons.mp hp
    have hn := notify_of_passive hfirst occasion m
    unfold notifyAll
    rcases he : notify h occasion m with ⟨r, m'⟩
    rw [he] at hn
    obtain ⟨hr, hm⟩ := hn
    have hr' : r = .ok () := hr
    subst hr'
    obtain ⟨hlast, hend⟩ := ih hrest m'
    exact ⟨hlast, hend.trans hm⟩

theorem emit_uninstrumented (hp : host.hooks.All Handler.Passive) (event : Event) :
    m.uninstrumented.emit host.plain event =
      ((m.emit host event).1, (m.emit host event).2.uninstrumented) := by
  obtain ⟨hr, hm⟩ := notifyAll_of_passive (hp.handlers event.name) (.event event) m
  rw [emit_of_no_hooks rfl]
  unfold emit
  simp only [hr, hm, judge]

theorem logStep_uninstrumented (hp : host.hooks.All Handler.Passive) (step : Step)
    (location : Option Location) :
    m.uninstrumented.logStep host.plain step location =
      ((m.logStep host step location).1, (m.logStep host step location).2.uninstrumented) := by
  obtain ⟨hr, hm⟩ := notifyAll_of_passive (hp.dueHandlers (m.nextStep step location).index)
    (.step (m.nextStep step location)) (m.record host step location)
  rw [logStep_of_no_hooks rfl, ← uninstrumented_record]
  unfold logStep
  simp only [hr, hm, judge]

theorem update_uninstrumented (location : Option Location) (r : Except Cause Store) :
    m.uninstrumented.update location r =
      ((m.update location r).1, (m.update location r).2.uninstrumented) := by
  cases r <;> rfl

/-- An action does the same with instruments as without. -/
theorem perform_uninstrumented (hp : host.hooks.All Handler.Passive) (m : Machine) (a : Action) :
    m.uninstrumented.perform host.plain a =
      ((m.perform host a).1, (m.perform host a).2.uninstrumented) := by
  cases a with
  | log step location => exact logStep_uninstrumented hp step location
  | emit event => exact emit_uninstrumented hp event
  | writeField id field v location => exact update_uninstrumented _ _
  | assign name v => exact update_uninstrumented _ _
  | defineClass decl location => exact update_uninstrumented _ _
  | write line =>
    change m.uninstrumented.write host.plain line =
      ((m.write host line).1, (m.write host line).2.uninstrumented)
    have houtput : m.uninstrumented.output = m.output := rfl
    have hrefuse : host.plain.refuse = host.refuse := rfl
    unfold write
    rw [houtput, hrefuse]
    cases host.refuse (m.output.size + 1) <;> rfl
  | nextWord =>
    change m.uninstrumented.nextWord = (m.nextWord.1, m.nextWord.2.uninstrumented)
    have hinput : m.uninstrumented.input = m.input := rfl
    unfold nextWord
    rw [hinput]
    obtain ⟨r, input⟩ := m.input.nextWord
    cases r <;> rfl
  | attachMethod impl =>
    have hstore : m.uninstrumented.store = m.store := rfl
    dsimp only [perform]
    rw [hstore]
    cases m.store.attachMethod impl.className impl.method <;> rfl
  | lastStep =>
    change ((Except.ok (m.log.withoutSnapshots.lastIndex, m.log.withoutSnapshots.lastLocation) :
      Except Raised (Nat × Option Location)), m.uninstrumented) = _
    rw [StepLog.lastIndex_withoutSnapshots, StepLog.lastLocation_withoutSnapshots]
    rfl
  | _ => rfl

end Machine

/-- A change of machines that commutes with every action commutes with every run. -/
theorem Script.run_of_perform {host host' : Host} {f : Machine → Machine}
    (hf : ∀ m a, (f m).perform host' a = ((m.perform host a).1, f (m.perform host a).2))
    {α : Type} (x : Script α) (m : Machine) :
    x.run host' (f m) = ((x.run host m).1, f (x.run host m).2) := by
  induction x generalizing m with
  | done a => rfl
  | fail e => rfl
  | perform a => exact hf m a
  | andThen x next ihx ihnext =>
    have hx := ihx m
    change (x >>= next).run host' (f m) =
      (((x >>= next).run host m).1, f ((x >>= next).run host m).2)
    obtain ⟨a, m', hr, hb⟩ | ⟨e, m', hr, hb⟩ := run_bind_cases host x next m
    · rw [hr] at hx
      rw [hb, run_bind, hx]
      exact ihnext a m'
    · rw [hr] at hx
      rw [hb, run_bind, hx]
  | attempt x ih =>
    rw [run_attempt, run_attempt, ih m]

/-- Without instruments a text runs the same, and leaves the same but for their traces. -/
theorem runText_uninstrumented (host : Host) (hp : host.hooks.All Handler.Passive)
    (file text : String) (m : Machine) :
    runText host.plain file text m.uninstrumented =
      ((runText host file text m).1, (runText host file text m).2.uninstrumented) := by
  unfold runText
  cases Program.ofText file text with
  | error e => rfl
  | ok p =>
    have hrun := Script.run_of_perform (Machine.perform_uninstrumented hp)
      (p.execute depthLimit) m
    simp only [hrun]

/-- Tracing calls adds handlers that only look on. -/
theorem CallTrace.passive_of_install {id : Nat} {hooks traced : Registry Handler}
    (hp : hooks.All Handler.Passive) (h : CallTrace.install id hooks = .ok traced) :
    traced.All Handler.Passive := by
  have hreact : Handler.Passive ⟨id, CallTrace.react⟩ := by
    intro count occasion m
    cases occasion <;> exact ⟨rfl, rfl⟩
  unfold CallTrace.install at h
  dsimp only at h
  cases hfirst : hooks.subscribe EventName.beforeCall.text
      { handler := ⟨id, CallTrace.react⟩, owner := CallTrace.owner } with
  | error e =>
    rw [hfirst] at h
    cases h
  | ok first =>
    rw [hfirst] at h
    have hsecond : first.subscribe EventName.afterCall.text
        { handler := ⟨id, CallTrace.react⟩, owner := CallTrace.owner } = .ok traced := h
    have hadded : first.All Handler.Passive := by
      apply hp.subscribe _ hfirst
      exact hreact
    apply hadded.subscribe _ hsecond
    exact hreact

/-- Any text on any machine and any output: keeping the variables of every step, handlers that only
look on and a trace of the calls change neither how the run ends nor anything that it leaves, but
for the variables kept in the log. -/
theorem instruments_transparent (verbose : Bool) (hooks : Registry Handler)
    (refuse : Nat → Option String) (hp : hooks.All Handler.Passive) (traced : Registry Handler)
    (ht : traced = hooks ∨ ∃ id, CallTrace.install id hooks = .ok traced) (file text : String)
    (m : Machine) :
    let observed := runText { verbose, hooks := traced, refuse } file text m
    let alone := runText { refuse } file text m
    observed.1 = alone.1 ∧
      observed.2.store = alone.2.store ∧
      observed.2.store.graph = alone.2.store.graph ∧
      observed.2.output = alone.2.output ∧
      observed.2.transcript = alone.2.transcript ∧
      observed.2.input = alone.2.input ∧
      observed.2.log.withoutSnapshots = alone.2.log.withoutSnapshots := by
  intro observed alone
  have htraced : traced.All Handler.Passive := by
    rcases ht with rfl | ⟨id, h⟩
    · exact hp
    · exact CallTrace.passive_of_install hp h
  have hobserved : runText { refuse } file text m.uninstrumented =
      (observed.1, observed.2.uninstrumented) :=
    runText_uninstrumented { verbose, hooks := traced, refuse } htraced file text m
  have halone : runText { refuse } file text m.uninstrumented =
      (alone.1, alone.2.uninstrumented) :=
    runText_uninstrumented { refuse } .empty file text m
  -- both are the run on the machine without traces, in plain surroundings
  have hsame := hobserved.symm.trans halone
  obtain ⟨hresult, hmachine⟩ := Prod.mk.inj hsame
  have hstore := congrArg Machine.store hmachine
  have houtput := congrArg Machine.output hmachine
  have htranscript := congrArg Machine.transcript hmachine
  have hinput := congrArg Machine.input hmachine
  have hlog := congrArg Machine.log hmachine
  exact ⟨hresult, hstore, congrArg Store.graph hstore, houtput, htranscript, hinput, hlog⟩

/-- A handler for the statements and one for every second step. -/
def onlookers : Registry Handler where
  subscriptions := [(.beforeStatement, [{ handler := Probe.handler { label := "statement" } 0 }])]
  rules := [⟨"step", 2, Probe.handler { label := "step" } 1⟩]

/-- A run that fails, under observation and with its calls traced. -/
theorem instruments_transparent_failure :
    onlookers.All Handler.Passive ∧
      ∃ traced, CallTrace.install 2 onlookers = .ok traced ∧
        (runText { verbose := true, hooks := traced } "a.pas" "begin writeln(1); writeln(x) end."
            {}).1 =
          (runText {} "a.pas" "begin writeln(1); writeln(x) end." {}).1 := by
  have hp : onlookers.All Handler.Passive := by
    constructor
    · intro e he sub hsub
      rw [List.mem_singleton.mp he] at hsub
      rw [List.mem_singleton.mp hsub]
      intro count occasion m
      exact ⟨rfl, rfl⟩
    · intro rule hrule
      rw [List.mem_singleton.mp hrule]
      intro count occasion m
      exact ⟨rfl, rfl⟩
  have hinstall : ∃ traced, CallTrace.install 2 onlookers = .ok traced := ⟨_, rfl⟩
  obtain ⟨traced, ht⟩ := hinstall
  have h := instruments_transparent true onlookers (fun _ => none) hp traced (.inr ⟨2, ht⟩) "a.pas"
    "begin writeln(1); writeln(x) end." {}
  exact ⟨hp, traced, ht, h.1⟩

end ObjectPascal
