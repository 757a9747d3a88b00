import Mathlib.Data.Prod.Basic
import ObjectPascal.Proofs.Unwinding
import ObjectPascal.Traceback

/-!
What is reported when the main block of a program fails: the frames, the step and the place are
those of the moment at which the failure was raised, and the traceback leads through the calls to
the statement that failed.
-/

namespace ObjectPascal

open Script

/-- Declarations leave the trail in order: they log in the frame that is innermost anyway. -/
theorem Machine.Trail.declares {host : Host} (hh : host.hooks = {}) {α : Type} {x : Script α}
    (hx : Declares x) {m : Machine} (hm : m.Trail) : (x.run host m).2.Trail := by
  induction hx generalizing m with
  | done => exact hm
  | fail => exact hm
  | perform h => exact hm.perform_declares h
  | log step location =>
    change (m.logStep host step location).2.Trail
    rw [Machine.logStep_of_no_hooks hh]
    exact hm.record host step location
  | @andThen _ _ x f _ _ ihx ihf =>
    have hfirst := ihx hm
    change ((x >>= f).run host m).2.Trail
    rcases run_bind_cases host x f m with ⟨a, m', hr, hbind⟩ | ⟨e, m', hr, hbind⟩
    · rw [hr] at hfirst
      rw [hbind]
      exact ihf a hfirst
    · rw [hr] at hfirst
      rw [hbind]
      exact hfirst

/-! The report. -/

/-- The frames that are noted in a failure. -/
def Raised.stack? : Raised → Option (List FrameId)
  | .runtime e => e.stack
  | .host f => f.stack
  | .exhausted e => e.stack

theorem Raised.PlacedIn.stack?_capture {places : List Location} {raised : Raised}
    (h : raised.PlacedIn places) (l : Location) (frames : List FrameId) :
    ((raised.locate l).capture frames).stack? = some frames := by
  cases raised with
  | runtime e => exact congrArg (Option.or · (some frames)) h.1
  | host f => exact congrArg (Option.or · (some frames)) h
  | exhausted => exact h.elim

section

variable {host : Host} (hh : host.hooks = {})

include hh

/-- Every failure but the want of room is reported as a fault of the program, with the frames that
are noted or else those that are live, and with the last step. -/
theorem report_run {raised : Raised} (h : ∀ e, raised ≠ .exhausted e) (m : Machine) :
    ∃ e : RuntimeError, (Program.report raised).run host m = (.error (.runtime e), m) ∧
      e.stack = (raised.capture m.store.liveFrames).stack? ∧ e.step = some m.log.lastIndex ∧
      ∀ e₀, raised = .runtime e₀ → e.cause = e₀.cause ∧ e.location = e₀.location := by
  have htold (event : Event) : (perform (.emit event)).run host m = (.ok (), m) :=
    Machine.emit_of_no_hooks hh event m
  unfold Program.report
  cases raised with
  | runtime e₀ =>
    refine ⟨{ e₀ with step := some m.log.lastIndex, stack := e₀.stack.or (some m.store.liveFrames) },
      ?_, rfl, rfl, ?_⟩
    · dsimp only
      rw [run_bind_of_ok (run_liveFrames host m), run_bind_of_ok (run_lastStep host m),
        run_bind_of_ok (htold _)]
      rfl
    · rintro _ ⟨⟩
      exact ⟨rfl, rfl⟩
  | host f =>
    refine ⟨⟨.internal f.cause.message, m.log.lastLocation, some m.log.lastIndex,
      f.stack.or (some m.store.liveFrames)⟩, ?_, rfl, rfl, nofun⟩
    dsimp only
    rw [run_bind_of_ok (htold _), run_bind_of_ok (run_liveFrames host m),
      run_bind_of_ok (run_lastStep host m)]
    rfl
  | exhausted e => exact absurd rfl (h e)

variable {p : Program} {depth : Nat} {m m₁ m₂ : Machine}

/-- After the declarations, the main block fails in one of its statements or in one of a method it
calls. -/
theorem main_ends (depth : Nat) (hm : m.Trail) (hdeclared : p.declare.run host m = (.ok (), m₁)) :
    Ends host (p.main depth) m₁ (Returns m₁)
      (BodyBreaks host (depth + 1) p.block.statements m₁) := by
  have hkept := hm.declares hh p.declares_declare
  rw [hdeclared] at hkept
  exact runBody_ends hh (depth + 1) p.block.statements m₁ hkept

/-- A failure of the main block is reported by the machine that it leaves. -/
theorem execute_run_of_main (hdeclared : p.declare.run host m = (.ok (), m₁)) {raised : Raised}
    (hmain : (p.main depth).run host m₁ = (.error raised, m₂)) :
    (p.execute depth).run host m = (Program.report raised).run host m₂ := by
  have heffect : (p.effect depth).run host m = (.error raised, m₂) := by
    rw [Program.run_effect, run_bind_of_ok hdeclared]
    exact hmain
  have hstart : (perform (.emit (.programStart p.name))).run host m = (.ok (), m) :=
    Machine.emit_of_no_hooks hh _ m
  have hattempt : (p.effect depth).attempt.run host m = (.ok (.error raised), m₂) := by
    rw [run_attempt, heffect]
  unfold Program.execute
  rw [run_bind_of_ok hstart, run_bind_of_ok hattempt]

/-- What the report says of a failure that comes out of the main block is what was so when it was
raised. -/
theorem execute_reports (hdeclared : p.declare.run host m = (.ok (), m₁)) {raised out : Raised}
    (hmain : (p.main depth).run host m₁ = (.error out, m₂)) {s : Statement} {n : Machine}
    (hu : Unwound s raised n out m₂) :
    ∃ e : RuntimeError, (p.execute depth).run host m = (.error (.runtime e), m₂) ∧
      e.stack = some n.store.liveFrames ∧ e.step = some n.log.lastIndex ∧
      ∀ e₀, raised = .runtime e₀ →
        e.cause = e₀.cause ∧ e.location = e₀.location.or (some s.location) := by
  have hstack : (out.capture m₂.store.liveFrames).stack? = some n.store.liveFrames := by
    rw [hu.noted, hu.placed.stack?_capture]
  have hout : ∀ e, out ≠ .exhausted e := by
    rintro e rfl
    have hnoted := hu.noted
    cases raised with
    | runtime e₀ => cases hnoted
    | host f => cases hnoted
    | exhausted e₀ => exact hu.placed
  obtain ⟨e, hrun, hestack, hestep, hcause⟩ := report_run hh hout m₂
  refine ⟨e, ?_, hestack.trans hstack, ?_, ?_⟩
  · rw [execute_run_of_main hh hdeclared hmain, hrun]
  · rw [hestep, hu.log]
  · rintro e₀ rfl
    have hnoted := hu.noted
    cases out with
    | runtime e₁ =>
      obtain ⟨hsame, hplace, -⟩ := RuntimeError.mk.inj (Raised.runtime.inj hnoted)
      obtain ⟨hc, hl⟩ := hcause e₁ rfl
      exact ⟨hc.trans hsame, hl.trans hplace⟩
    | host f => cases hnoted
    | exhausted => cases hnoted

end

/-- If a fault is raised while the main block of a program runs, the error that comes out of the
run tells the frames that were live and the last step that was logged when it was raised, and a
place in the statement that was being executed then. -/
theorem fault_report_exact {host : Host} (hh : host.hooks = {}) (replies : List Reply)
    (p : Program) (depth : Nat) {m₁ n : Machine} {e₀ : RuntimeError}
    (hdeclared : p.declare.run host { input := { replies } } = (.ok (), m₁))
    (hraised : (p.main depth).origin? host m₁ = some (.runtime e₀, n)) :
    ∃ (e : RuntimeError) (m' : Machine) (s : Statement),
      (p.execute depth).run host { input := { replies } } = (.error (.runtime e), m') ∧
      e.cause = e₀.cause ∧
      e.stack = some n.store.liveFrames ∧
      e.step = some n.log.lastIndex ∧
      FailsIn host (depth + 1) p.block.statements m₁ s (.runtime e₀) n ∧
      ∃ l ∈ s.places, e.location = some l := by
  have hstart : Machine.Trail { input := { replies } } := .of_start rfl rfl
  cases main_ends hh depth hstart hdeclared with
  | done hrun horigin =>
    rw [hraised] at horigin
    cases horigin
  | raised hrun horigin hbreaks =>
    rw [hraised] at horigin
    cases horigin
    cases hbreaks with
    | @statement _ _ _ _ s hs hu =>
      obtain ⟨e, hexecute, hstack, hstep, hcause⟩ := execute_reports hh hdeclared hrun hu
      obtain ⟨hsame, hplace⟩ := hcause e₀ rfl
      refine ⟨e, _, s, hexecute, hsame, hstack, hstep, hs, ?_⟩
      cases hl : e₀.location with
      | none =>
        rw [hl] at hplace
        exact ⟨s.location, s.location_mem_places, hplace⟩
      | some l =>
        rw [hl] at hplace
        exact ⟨l, hu.placed.2 l hl, hplace⟩

/-- A program whose constructor calls a method that writes a number and then divides by zero. -/
def Program.reckless : Program where
  location := default
  name := none
  classes := some ⟨default,
    [⟨default, "TTask", [.member (.method ⟨default, .constructor, "Create", [], none⟩)]⟩]⟩
  vars := none
  methods := some ⟨default,
    [⟨default, .constructor, "TTask", "Create", [], none,
        ⟨default, [.methodCall (at_ 8) "self" "Run" []]⟩⟩,
      ⟨default, .procedure, "TTask", "Run", [], none,
        ⟨default, [.procedureCall (at_ 12) "writeln" [.literal (at_ 12) 1],
          .procedureCall (at_ 13) "writeln"
            [.binary (at_ 14) .div (.literal (at_ 14) 1) (.literal (at_ 14) 0)]]⟩⟩]⟩
  block := ⟨default, [.methodCall (at_ 18) "TTask" "Create" []]⟩
where
  at_ (line : Nat) : Location := ⟨"task.pas", line, 1, ""⟩

/-- The division is reported from within both calls. -/
theorem fault_report_exact_division :
    let p := Program.reckless
    let m₁ := (p.declare.run {} {}).2
    let e₀ : RuntimeError := ⟨.divisionByZero, some (Program.reckless.at_ 14), none, none⟩
    p.declare.run {} {} = (.ok (), m₁) ∧
    ∃ n, (p.main 2).origin? {} m₁ = some (.runtime e₀, n) ∧
      ∃ e m' s, (p.execute 2).run {} {} = (.error (.runtime e), m') ∧
        e.cause = .divisionByZero ∧ e.stack = some [0, 1, 2] ∧ e.step = some 10 ∧
        FailsIn {} 3 p.block.statements m₁ s (.runtime e₀) n ∧
        ∃ l ∈ s.places, e.location = some l := by
  have hview : ((Program.reckless.main 2).origin? {} (Program.reckless.declare.run {} {}).2).map
      (fun o => (o.1, o.2.store.liveFrames, o.2.log.lastIndex)) =
      some (.runtime ⟨.divisionByZero, some (Program.reckless.at_ 14), none, none⟩, [0, 1, 2], 10) := by
    decide +kernel
  intro p m₁ e₀
  have hdeclared : p.declare.run {} {} = (.ok (), m₁) := rfl
  obtain ⟨⟨raised, n⟩, hraised, hn⟩ := Option.map_eq_some_iff.mp hview
  obtain ⟨rfl, hlive, hstep⟩ : raised = .runtime e₀ ∧ n.store.liveFrames = [0, 1, 2] ∧
      n.log.lastIndex = 10 := by simpa only [Prod.mk.injEq] using hn
  have h := fault_report_exact rfl [] p 2 hdeclared hraised
  rw [hlive, hstep] at h
  exact ⟨hdeclared, n, hraised, h⟩

/-! Tracebacks. -/

/-- A frame of a report shows the last step taken in the frame that it stands for. -/
structure Machine.Shows (m : Machine) (id : FrameId) (f : TracebackFrame) : Prop where
  name : f.name = (m.store.frame id).name
  callLocation : f.callLocation = (m.store.frame id).callLocation
  entry : ∃ i e, f.entry = some (i, e) ∧ m.log.IsLast id i e

/-- The step shown for one frame is the call that the next frame is of, at the place shown, and
comes before the step shown there. -/
def TracebackFrame.LeadsTo (f g : TracebackFrame) : Prop :=
  ∃ i a j b, f.entry = some (i, a) ∧ g.entry = some (j, b) ∧ i < j ∧
    a.step.rule ∈ ["NEW", "CALL", "DESTROY"] ∧ ("method", .string g.name) ∈ a.step.detail ∧
    f.location = g.callLocation

namespace Machine

variable {m m' : Machine} {places : List Location} {e : RuntimeError}

/-- From the innermost frame outward: each frame that leads to another has a last step. -/
theorem Trail.exists_lastOf? (h : m.Trail) (hl : m.LastIn places) :
    ∀ f ∈ m.store.stack, ∃ i e, m.log.lastOf? f = some (i, e) := by
  obtain ⟨outer, hstack⟩ := m.store.stack_eq
  have hlinks := h.links
  rw [hstack] at hlinks ⊢
  refine hlinks.induction (fun f => ∃ i e, m.log.lastOf? f = some (i, e)) _ ?_ ?_
  · rintro g f ⟨i, e, _, _, _, hlast, -⟩ -
    exact ⟨i, e, hlast⟩
  · intro _
    obtain ⟨i, e, _, hlast, -⟩ := hl
    exact ⟨i, e, hlast⟩

/-- How a frame is shown. -/
def shown (m : Machine) (id : FrameId) : TracebackFrame :=
  ⟨(m.store.frame id).name, (m.store.frame id).callLocation, m.log.lastOf? id⟩

/-- The traceback after a failure is the one of the moment at which it was raised. -/
theorem traceback_eq (hlog : m'.log = m.log) (hframes : m'.store.frames = m.store.frames)
    (he : e.stack = some m.store.liveFrames) : m'.traceback e = m.store.liveFrames.map m.shown := by
  unfold traceback shown Store.frame
  rw [hlog, hframes, he]
  rfl

theorem Trail.shows (h : m.Trail) (hl : m.LastIn places) :
    ∀ id ∈ m.store.liveFrames, m.Shows id (m.shown id) := by
  intro id hid
  rw [← Store.stack_reverse, List.mem_reverse] at hid
  obtain ⟨i, e, hlast⟩ := h.exists_lastOf? hl id hid
  exact ⟨rfl, rfl, i, e, hlast, StepLog.isLast_of_lastOf? hlast⟩

theorem Shows.congr {id : FrameId} {f : TracebackFrame} (h : m.Shows id f) (hlog : m'.log = m.log)
    (hframes : m'.store.frames = m.store.frames) : m'.Shows id f := by
  have hframe : m'.store.frame id = m.store.frame id := by
    unfold Store.frame
    rw [hframes]
  obtain ⟨hname, hcall, hentry⟩ := h
  rw [← hframe] at hname hcall
  rw [← hlog] at hentry
  exact ⟨hname, hcall, hentry⟩

theorem Trail.leadsTo (h : m.Trail) (hl : m.LastIn places) :
    (m.store.liveFrames.map m.shown).IsChain TracebackFrame.LeadsTo := by
  rw [List.isChain_map, ← Store.stack_reverse, List.isChain_reverse]
  refine h.links.imp_of_mem_imp ?_
  rintro g f hg - ⟨i, a, kind, args, l, hlast, hstep, hplace, hcall, hlater⟩
  obtain ⟨j, b, hnext⟩ := h.exists_lastOf? hl g hg
  refine ⟨i, a, j, b, hlast, hnext, hlater j b hnext, ?_, ?_, ?_⟩
  · rw [hstep]
    change kind.rule ∈ _
    cases kind <;> decide
  · rw [hstep]
    exact List.mem_cons_self
  · unfold TracebackFrame.location shown
    rw [hlast, hcall]
    exact congrArg (Option.or · _) hplace

end Machine

/-- If the main block of a program fails otherwise than for want of room, every frame of the
traceback shows the last step that was taken in it, these steps come one after another, each is
the call of the next frame, shown at the place of the call, and the last one is shown at the
statement that failed or at a call in it. -/
theorem traceback_coherent {host : Host} (hh : host.hooks = {}) (replies : List Reply)
    (p : Program) (depth : Nat) {m₁ m₂ : Machine} {out : Raised}
    (hdeclared : p.declare.run host { input := { replies } } = (.ok (), m₁))
    (hmain : (p.main depth).run host m₁ = (.error out, m₂)) (hout : ∀ e, out ≠ .exhausted e) :
    ∃ (e : RuntimeError) (m' : Machine) (frames : List FrameId),
      (p.execute depth).run host { input := { replies } } = (.error (.runtime e), m') ∧
      e.stack = some frames ∧
      List.Forall₂ m'.Shows frames (m'.traceback e) ∧
      (m'.traceback e).IsChain TracebackFrame.LeadsTo ∧
      ∃ (s : Statement) (raised : Raised) (n : Machine) (last : TracebackFrame) (l : Location),
        FailsIn host (depth + 1) p.block.statements m₁ s raised n ∧
        n.store.liveFrames = frames ∧
        (m'.traceback e).getLast? = some last ∧ last.location = some l ∧ l ∈ s.callPlaces := by
  have hstart : Machine.Trail { input := { replies } } := .of_start rfl rfl
  cases main_ends hh depth hstart hdeclared with
  | done hrun =>
    rw [hmain] at hrun
    cases hrun
  | @raised raised _ n _ hrun _ hbreaks =>
    rw [hmain] at hrun
    cases hrun
    cases hbreaks with
    | exhausted => exact absurd rfl (hout _)
    | @statement _ _ _ _ s hs hu =>
      obtain ⟨e, hexecute, hstack, -⟩ := execute_reports hh hdeclared hmain hu
      have htraceback := Machine.traceback_eq hu.log hu.frames hstack
      refine ⟨e, m₂, n.store.liveFrames, hexecute, hstack, ?_, ?_, s, raised, n, ?_⟩
      · rw [htraceback, List.forall₂_map_right_iff, List.forall₂_same]
        intro id hid
        exact (hu.trail.shows hu.last id hid).congr hu.log hu.frames
      · rw [htraceback]
        exact hu.trail.leadsTo hu.last
      · obtain ⟨i, a, l, hlast, hplace, hl⟩ := hu.last
        refine ⟨n.shown n.store.innermost.frame, l, hs, rfl, ?_, ?_, hl⟩
        · rw [htraceback, List.getLast?_map, Store.getLast?_liveFrames]
          rfl
        · unfold TracebackFrame.location Machine.shown
          rw [hlast]
          exact congrArg (Option.or · _) hplace

/-- The output refuses the first line, which is written two calls deep. -/
theorem traceback_coherent_refusal :
    let host : Host := { refuse := fun _ => some "full" }
    let p := Program.reckless
    let m₁ := (p.declare.run host {}).2
    let out := Raised.host ⟨.outputRefused "full", some [0, 1, 2]⟩
    p.declare.run host {} = (.ok (), m₁) ∧ (∀ e, out ≠ .exhausted e) ∧
    ∃ m₂, (p.main 2).run host m₁ = (.error out, m₂) ∧
    ∃ (e : RuntimeError) (m' : Machine) (frames : List FrameId),
      (p.execute 2).run host {} = (.error (.runtime e), m') ∧ e.stack = some frames ∧
      List.Forall₂ m'.Shows frames (m'.traceback e) ∧
      (m'.traceback e).IsChain TracebackFrame.LeadsTo ∧
      ∃ (s : Statement) (raised : Raised) (n : Machine) (last : TracebackFrame) (l : Location),
        FailsIn host 3 p.block.statements m₁ s raised n ∧ n.store.liveFrames = frames ∧
        (m'.traceback e).getLast? = some last ∧ last.location = some l ∧ l ∈ s.callPlaces := by
  have hfails : ((Program.reckless.main 2).run { refuse := fun _ => some "full" }
      (Program.reckless.declare.run { refuse := fun _ => some "full" } {}).2).1 =
      .error (.host ⟨.outputRefused "full", some [0, 1, 2]⟩) := by
    decide +kernel
  intro host p m₁ out
  have hdeclared : p.declare.run host {} = (.ok (), m₁) := rfl
  have hout : ∀ e, out ≠ .exhausted e := fun _ => nofun
  obtain ⟨m₂, hmain⟩ : ∃ m₂, (p.main 2).run host m₁ = (.error out, m₂) :=
    ⟨_, Prod.fst_eq_iff.mp hfails⟩
  have h := traceback_coherent rfl [] p 2 hdeclared hmain hout
  exact ⟨hdeclared, hout, m₂, hmain, h⟩

end ObjectPascal
