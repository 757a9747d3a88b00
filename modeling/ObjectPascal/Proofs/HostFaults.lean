import ObjectPascal.Proofs.FaultReport

/-!
Faults of the surroundings. Only writing and reading ask anything of them, so when the output
refuses a line or the input fails, the statement that is being executed innermost is a call of the
procedure that asked. The report places such a fault at the last step that was logged. That is the
step of the statement itself, unless its operands make calls, which log steps of their own.
-/

namespace ObjectPascal

open Script

/-! What is asked of the surroundings. -/

/-- The procedure that asks for an action, if it asks something of the surroundings. -/
def Action.procedure? : Action → Option Builtin
  | .write _ => some .writeln
  | .nextWord => some .readln
  | _ => none

/-- The procedure that asked for what failed. -/
def HostCause.procedure? : HostCause → Option Builtin
  | .outputRefused _ => some .writeln
  | .inputFailed _ => some .readln
  | .tooManyDigits _ | .tooWide => none

def Raised.procedure? : Raised → Option Builtin
  | .host f => f.cause.procedure?
  | .runtime _ | .exhausted _ => none

/-- The procedures that a statement calls by itself. -/
def Statement.procedures : Statement → List Builtin
  | .procedureCall _ name _ => (Builtin.ofName? name).toList
  | _ => []

namespace Machine

variable {host : Host} {m : Machine}

theorem judge_procedure? {observer : String} {location : Option Location}
    {r : Except Failure Unit} {raised : Raised} (h : judge observer location r = .error raised) :
    raised.procedure? = none := by
  cases r with
  | ok => cases h
  | error f =>
    cases f with
    | host text =>
      cases h
      rfl
    | fault error =>
      cases h
      rfl

/-- An action fails in the surroundings only if it asks something of them. -/
theorem perform_procedure? {a : Action} {raised : Raised}
    (h : (m.perform host a).1 = .error raised) : raised.procedure? = a.procedure? := by
  have hfault {α : Type} {location : Option Location} {r : Except Cause α}
      (hr : faultAt location r = .error raised) : raised.procedure? = none := by
    cases r with
    | ok => cases hr
    | error c =>
      cases hr
      rfl
  have hupdate {location : Option Location} {r : Except Cause Store}
      (hr : (m.update location r).1 = .error raised) : raised.procedure? = none := by
    cases r with
    | ok => cases hr
    | error c =>
      cases hr
      rfl
  cases a with
  | log step location => exact judge_procedure? h
  | emit event => exact judge_procedure? h
  | lookup name => exact hfault h
  | receiver => exact hfault h
  | readField id field location => exact hfault h
  | findConstructor id member location => exact hfault h
  | findMethod id member location => exact hfault h
  | writeField id field v location => exact hupdate h
  | assign name v => exact hupdate h
  | defineClass decl location => exact hupdate h
  | attachMethod impl =>
    dsimp only [perform] at h
    split at h
    · cases h
    · cases h
      rfl
  | write line =>
    change (m.write host line).1 = _ at h
    unfold write at h
    split at h
    · cases h
      rfl
    · cases h
  | nextWord =>
    change m.nextWord.1 = _ at h
    unfold nextWord at h
    split at h
    · cases h
    · cases h
      rfl
  | _ => cases h

end Machine

/-! Where a failure is raised. -/

namespace Script

variable {α : Type} {host : Host} {m n : Machine} {raised : Raised}

/-- A run in which nothing is raised ends well. -/
theorem run_ok_of_origin? {x : Script α} (h : x.origin? host m = none) :
    ∃ a m', x.run host m = (.ok a, m') := by
  induction x generalizing m with
  | done a => exact ⟨a, m, rfl⟩
  | fail e => cases h
  | perform a =>
    rw [origin?] at h
    rcases hr : m.perform host a with ⟨r, m'⟩
    rw [hr] at h
    cases r with
    | ok r => exact ⟨r, m', hr⟩
    | error e => cases h
  | andThen x f ihx ihf =>
    change (x >>= f).origin? host m = none at h
    cases ho : x.origin? host m with
    | some o =>
      rw [origin?_bind_of_raised ho] at h
      cases h
    | none =>
      obtain ⟨a, m', hr⟩ := ihx ho
      rw [origin?_bind_of_ok ho hr] at h
      obtain ⟨b, m'', hf⟩ := ihf a h
      exact ⟨b, m'', (run_bind_of_ok hr).trans hf⟩
  | attempt x ih => exact ⟨_, _, rfl⟩

/-- What is raised in a sequence is raised in the first script, or in the second after it. -/
theorem origin?_bind {β : Type} {x : Script α} {f : α → Script β} {o : Raised × Machine}
    (h : (x >>= f).origin? host m = some o) :
    x.origin? host m = some o ∨ x.origin? host m = none ∧
      ∃ a m', x.run host m = (.ok a, m') ∧ (f a).origin? host m' = some o := by
  cases ho : x.origin? host m with
  | some o' =>
    rw [origin?_bind_of_raised ho] at h
    exact .inl h
  | none =>
    obtain ⟨a, m', hr⟩ := run_ok_of_origin? ho
    rw [origin?_bind_of_ok ho hr] at h
    exact .inr ⟨rfl, a, m', hr, h⟩

/-- What is raised in a script whose outcome is handled, if nothing is raised when all is well. -/
theorem origin?_of_attempt {β : Type} {x : Script α} {f : Except Raised α → Script β}
    {o : Raised × Machine} (h : (x.attempt >>= f).origin? host m = some o)
    (hf : ∀ a m', (f (.ok a)).origin? host m' = none) : x.origin? host m = some o := by
  rcases origin?_bind h with h | ⟨ho, r, m', hr, h⟩
  · exact h
  · obtain ⟨a, m₁, hrun⟩ := run_ok_of_origin? (x := x) ho
    rw [run_attempt, hrun] at hr
    cases hr
    rw [hf a m₁] at h
    cases h

theorem origin?_of_mapError {x : Script α} {g : Raised → Raised} {o : Raised × Machine}
    (h : (x.mapError g).origin? host m = some o) : x.origin? host m = some o :=
  origin?_of_attempt h fun _ _ => rfl

theorem origin?_of_within {frame : FrameId} {receiver : ObjectId} {inside : Script Unit}
    {o : Raised × Machine} (h : (within frame receiver inside).origin? host m = some o) :
    inside.origin? host (m.entered frame receiver) = some o := by
  have hentered : (perform (.enter frame receiver)).run host m =
      (.ok (), m.entered frame receiver) := rfl
  unfold within at h
  rw [origin?_bind_of_ok rfl hentered] at h
  exact origin?_of_attempt h fun _ _ => rfl

theorem origin?_perform {a : Action} (h : (perform a).origin? host m = some (raised, n)) :
    m.perform host a = (.error raised, n) := by
  rw [origin?] at h
  rcases hr : m.perform host a with ⟨r, m'⟩
  rw [hr] at h
  cases r with
  | ok => cases h
  | error e =>
    cases h
    rfl

/-- The calls that are active at the start are active where a failure is raised. -/
theorem calls_of_origin? {x : Script α} (hx : Nested (fun a => a.keepsCalls = true) x)
    (h : x.origin? host m = some (raised, n)) : m.store.calls <:+ n.store.calls := by
  induction hx generalizing m with
  | done a => cases h
  | fail e =>
    cases h
    exact List.suffix_refl _
  | @perform a hk =>
    have hcalls := Machine.perform_calls host m a hk
    rw [origin?_perform h] at hcalls
    exact ⟨[], hcalls.symm⟩
  | @andThen _ _ x f hx _ ihx ihf =>
    change (x >>= f).origin? host m = _ at h
    rcases origin?_bind h with h | ⟨-, a, m', hr, h⟩
    · exact ihx h
    · have hcalls := (balanced_of_nested hx : Balanced host x).run m
      rw [hr] at hcalls
      rw [← hcalls]
      exact ihf a h
  | attempt _ ih => exact ih h
  | within _ ih =>
    have hin := ih (origin?_of_within h)
    exact (List.suffix_cons _ _).trans hin
  | @create _ id f _ _ ih =>
    change (perform (.newObject id) >>= f).origin? host m = _ at h
    rcases origin?_bind h with h | ⟨-, object, m', hr, h⟩
    · cases origin?_perform h
    · have hcalls := Machine.perform_calls host m (.newObject id) rfl
      rw [show m.perform host (.newObject id) = (.ok object, m') from hr] at hcalls
      exact hcalls ▸ ih object h

end Script

/-! What statements ask for. -/

/-- Scripts that ask the surroundings only for `bs`, outside of the calls they make. -/
inductive Asks (bs : List Builtin) : {α : Type} → Script α → Prop
  | done {α : Type} (a : α) : Asks bs (.done a)
  | fail {α : Type} {e : Raised} (h : e.procedure? = none) : Asks bs (.fail e : Script α)
  | perform {a : Action} (h : ∀ b, a.procedure? = some b → b ∈ bs) (hk : a.keepsCalls = true) :
      Asks bs (.perform a)
  | andThen {α β : Type} {x : Script α} {f : α → Script β} (hx : Asks bs x)
      (hf : ∀ a, Asks bs (f a)) : Asks bs (.andThen x f)
  | within {frame : FrameId} {receiver : ObjectId} {inside : Script Unit}
      (hx : Nested (fun a => a.keepsCalls = true) inside) : Asks bs (within frame receiver inside)

namespace Asks

variable {bs : List Builtin} {α β : Type}

theorem pure (a : α) : Asks bs (Pure.pure a : Script α) :=
  .done a

theorem fault (location : Option Location) (c : Cause) :
    Asks bs (Script.fault location c : Script α) :=
  .fail rfl

theorem bind {x : Script α} {f : α → Script β} (hx : Asks bs x) (hf : ∀ a, Asks bs (f a)) :
    Asks bs (x >>= f) :=
  .andThen hx hf

/-- An action that asks nothing of the surroundings. -/
theorem action {a : Action} (h : a.procedure? = none) (hk : a.keepsCalls = true) :
    Asks bs (Script.perform a) := by
  refine .perform ?_ hk
  intro b hb
  rw [h] at hb
  cases hb

theorem asking {a : Action} {b : Builtin} (hb : b ∈ bs) (h : a.procedure? = some b)
    (hk : a.keepsCalls = true) : Asks bs (Script.perform a) := by
  refine .perform ?_ hk
  intro b' hb'
  cases h.symm.trans hb'
  exact hb

theorem nested {x : Script α} (h : Asks bs x) : Nested (fun a => a.keepsCalls = true) x := by
  induction h with
  | done a => exact .done a
  | fail => exact .fail _
  | perform _ hk => exact .perform hk
  | andThen _ _ ihx ihf => exact .andThen ihx ihf
  | within hx => exact .within hx

/-- A fault of the surroundings comes of what the script asks for, unless it is raised in a call. -/
theorem mem_or_deeper {x : Script α} (h : Asks bs x) {host : Host} {m n : Machine}
    {raised : Raised} {b : Builtin} (ho : x.origin? host m = some (raised, n))
    (hb : raised.procedure? = some b) : b ∈ bs ∨ m.store.depth < n.store.depth := by
  induction h generalizing m with
  | done a => cases ho
  | fail h =>
    cases ho
    rw [h] at hb
    cases hb
  | perform h =>
    have herror := congrArg Prod.fst (origin?_perform ho)
    rw [Machine.perform_procedure? herror] at hb
    exact .inl (h b hb)
  | @andThen _ _ x f hx _ ihx ihf =>
    change (x >>= f).origin? host m = _ at ho
    rcases origin?_bind ho with ho | ⟨-, a, m', hr, ho⟩
    · exact ihx ho
    · have hcalls := (balanced_of_nested hx.nested : Balanced host x).run m
      rw [hr] at hcalls
      have hdepth : m'.store.depth = m.store.depth := congrArg List.length hcalls
      rw [← hdepth]
      exact ihf a ho
  | within hx =>
    have hcalls := calls_of_origin? hx (origin?_of_within ho)
    exact .inr hcalls.length_le

theorem renderAll (vs : List Value) : Asks bs (renderAll vs) := by
  induction vs with
  | nil => exact .pure _
  | cons v vs ih => exact .bind (.action rfl rfl) fun _ => .bind ih fun _ => .pure _

theorem expectInt (location : Location) (v : Value) : Asks bs (expectInt location v) := by
  cases v with
  | int n => exact .pure n
  | object id => exact .fault _ _
  | nil => exact .fault _ _

theorem narrow (n : Int) : Asks bs (narrow n) := by
  unfold ObjectPascal.narrow
  split
  · exact .pure _
  · exact .fail rfl

theorem arithmetic (location : Location) (op : Operator) (a b : Int) :
    Asks bs (arithmetic location op a b) := by
  cases op with
  | add => exact narrow _
  | sub => exact narrow _
  | mul => exact narrow _
  | div =>
    unfold ObjectPascal.arithmetic
    cases Word.quotient? a b with
    | none => exact .fault _ _
    | some q => exact narrow q
  | other symbol => exact .fault _ _

theorem resolveObject (base : String) (location : Location) :
    Asks bs (resolveObject base location) := by
  unfold ObjectPascal.resolveObject
  split
  · exact .action rfl rfl
  · refine .bind (.action rfl rfl) fun v => ?_
    cases v with
    | int n => exact .fault _ _
    | object id => exact .pure id
    | nil => exact .fault _ _

theorem readDesignator (d : Designator) : Asks bs (readDesignator d) := by
  unfold ObjectPascal.readDesignator
  split
  · exact .action rfl rfl
  · exact .bind (resolveObject _ _) fun _ => .action rfl rfl
  · exact .fault _ _

theorem writeDesignator (d : Designator) (v : Value) : Asks bs (writeDesignator d v) := by
  unfold ObjectPascal.writeDesignator
  split
  · exact .action rfl rfl
  · exact .bind (resolveObject _ _) fun _ => .action rfl rfl
  · exact .fault _ _

theorem writeAll (lines : List String) : Asks [.writeln] (writeAll lines) := by
  induction lines with
  | nil => exact .pure _
  | cons line lines ih => exact .bind (.asking List.mem_cons_self rfl rfl) fun _ => ih

theorem readInto (name : String) (location : Location) :
    Asks [.readln] (readInto name location) := by
  refine .bind (.asking List.mem_cons_self rfl rfl) fun word => ?_
  cases word with
  | none => exact .fault _ _
  | some word =>
    dsimp only
    split
    · exact .fault _ _
    split
    · exact .fail rfl
    split
    · exact .bind (.action rfl rfl) fun _ => .action rfl rfl
    · exact .fault _ _

theorem invokeBuiltin {name : String} {procedure : Builtin}
    (hn : Builtin.ofName? name = some procedure) (args : List Value) (operands : List Expr)
    (location : Location) : Asks [procedure] (invokeBuiltin name args operands location) := by
  unfold ObjectPascal.invokeBuiltin
  rw [hn]
  cases procedure with
  | writeln => exact .bind (writeAll _) fun _ => .action rfl rfl
  | readln =>
    dsimp only
    split
    · unfold ObjectPascal.readln
      split
      · split
        · exact readInto _ _
        · exact .fault _ _
      · exact .fault _ _
    · exact .fault _ _

theorem callResult (m : Method) (frame : FrameId) : Asks bs (callResult m frame) := by
  unfold ObjectPascal.callResult
  split
  · exact .action rfl rfl
  · exact .pure _

theorem checkArity (m : Method) (args : List Value) (location : Option Location) :
    Asks bs (checkArity m args location) := by
  unfold ObjectPascal.checkArity
  split
  · exact .pure _
  · exact .fault _ _

section

variable {body : List Statement → Script Unit}
  (hb : ∀ ss, Nested (fun a => a.keepsCalls = true) (body ss))

include hb

theorem runMethod (kind : CallKind) (receiver : ObjectId) (m : Method) (args : List Value)
    (location : Option Location) : Asks bs (runMethod body kind receiver m args location) :=
  .bind (.action rfl rfl) fun frame => .bind (renderAll args) fun _ =>
    .bind (.action rfl rfl) fun _ => .bind (.action rfl rfl) fun _ =>
      .bind (.within (hb _)) fun _ => .bind (callResult m frame) fun _ =>
        .bind (.action rfl rfl) fun _ => .bind (.action rfl rfl) fun _ => .pure _

theorem callMember (location : Location) (left member : String) (args : List Value) :
    Asks bs (callMember body location left member args) := by
  refine .bind (.action rfl rfl) fun id => ?_
  cases id with
  | some id =>
    exact .bind (.action rfl rfl) fun m => .bind (checkArity m args _) fun _ =>
      .bind (.action rfl rfl) fun object => .bind (runMethod hb _ object m args _) fun _ => .pure _
  | none =>
    exact .bind (resolveObject _ _) fun receiver => .bind (.action rfl rfl) fun (m, kind) =>
      .bind (checkArity m args _) fun _ => runMethod hb kind receiver m args _

omit hb

mutual

theorem evaluate (hb : ∀ ss, Nested (fun a => a.keepsCalls = true) (body ss)) :
    (e : Expr) → Asks bs (evaluate body e)
  | .literal _ _ => .pure _
  | .ref d => readDesignator d
  | .parens _ e => evaluate hb e
  | .binary location op left right =>
    .bind (evaluate hb left) fun a => .bind (expectInt location a) fun _ =>
      .bind (evaluate hb right) fun b => .bind (expectInt location b) fun _ =>
        .bind (arithmetic location op _ _) fun _ => .pure _
  | .call location left member args =>
    .bind (evaluateAll hb args) fun vs => callMember hb location left member vs
  | .bare _ => .fault _ _

theorem evaluateAll (hb : ∀ ss, Nested (fun a => a.keepsCalls = true) (body ss)) :
    (es : List Expr) → Asks bs (evaluateAll body es)
  | [] => .pure _
  | e :: es => .bind (evaluate hb e) fun _ => .bind (evaluateAll hb es) fun _ => .pure _

end

include hb

/-- A statement asks for what it calls, and for nothing else. -/
theorem effect (s : Statement) : Asks s.procedures (s.effect body) := by
  cases s with
  | assignment location target value =>
    exact .bind (evaluate hb value) fun v => writeDesignator target v
  | methodCall location left member args =>
    exact .bind (evaluateAll hb args) fun vs =>
      .bind (callMember hb location left member vs) fun _ => .pure _
  | bare location => exact .fault _ _
  | procedureCall location name args =>
    change Asks (Builtin.ofName? name).toList (callProcedure body location name args)
    unfold callProcedure
    cases hn : Builtin.ofName? name with
    | none => exact .fault _ _
    | some procedure =>
      refine .bind ?_ fun vs => .bind (renderAll vs) fun texts => .bind (.action rfl rfl) fun _ =>
        .bind (invokeBuiltin hn vs args location) fun _ =>
          .bind (.action rfl rfl) fun _ => .action rfl rfl
      cases procedure with
      | writeln => exact evaluateAll hb args
      | readln => exact .pure _

end

end Asks

/-! The statement that is being executed. -/

/-- Scripts in which nothing is called are silent. -/
theorem Orderly.silent_of_no_calls {body : List Statement → Script Unit} {places : List Location}
    {α : Type} {x : Script α} (hx : Orderly body places [] x) : Silent places x := by
  induction hx with
  | silent h => exact h
  | andThen _ _ ihx ihf => exact .andThen ihx ihf
  | construct _ hc => cases hc
  | invokeMethod _ hc => cases hc
  | procedure _ _ _ hc => cases hc

theorem StepLog.lastLocation_push (log : StepLog) (e : LogEntry) :
    (log.push e).lastLocation = e.location := by
  unfold lastLocation push
  rw [Array.back?_push]
  rfl

/-- A call of a procedure that calls nothing for its operands logs no step before it fails. -/
theorem callProcedure_ends {host : Host} (hh : host.hooks = {}) {name : String} {b : Builtin}
    (hn : Builtin.ofName? name = some b) {args : List Expr}
    (hcalls : b = .readln ∨ Expr.allCallPlaces args = []) (body : List Statement → Script Unit)
    (location : Location) (m : Machine) :
    Ends host (callProcedure body location name args) m (fun _ => True)
      fun _ n _ _ => n.log = m.log := by
  have hoperands : Silent (Expr.allPlaces args) (operandValues body b args) := by
    rcases hcalls with rfl | hnone
    · exact .pure _
    · refine (Orderly.operandValues b (List.Subset.refl _) ?_).silent_of_no_calls
      rw [hnone]
      exact List.Subset.refl _
  unfold callProcedure
  rw [hn]
  refine (hoperands.ends host m).bind ?_ ?_
  · rintro _ _ _ _ ⟨-, -, -, hsteady⟩
    exact hsteady.log
  intro vs m₁ _ hm₁
  obtain ⟨hrendered, hnone⟩ := renderAll_ends host m₁ vs
  refine .bind_ok hrendered hnone ?_
  refine .bind_perform (Machine.emit_of_no_hooks hh _ m₁) ?_
  have hinside : Silent [location] (invokeBuiltin name vs args location) :=
    .invokeBuiltin List.mem_cons_self name vs args
  refine (hinside.ends host m₁).bind ?_ ?_
  · rintro _ _ _ _ ⟨-, -, -, hsteady⟩
    exact hsteady.log.trans hm₁.log
  intro _ m₂ _ _
  refine .bind_perform (Machine.logStep_of_no_hooks hh _ _ m₂) ?_
  have htold := Machine.emit_of_no_hooks hh (.afterCall name "nil" (some location.line))
  exact .done (htold _) (origin?_perform_of_ok (htold _)) trivial

namespace FailsIn

variable {host : Host} {depth : Nat} {ss : List Statement} {m n : Machine} {f : HostFault}
  {b : Builtin}

/-- A fault of the surroundings is raised in a call of the procedure that asks for what fails. -/
theorem procedureCall {s : Statement} (h : FailsIn host depth ss m s (.host f) n)
    (hb : f.cause.procedure? = some b) :
    ∃ location name args, s = .procedureCall location name args ∧
      Builtin.ofName? name = some b := by
  obtain ⟨d, k, -, ho, hcalls⟩ := h
  have hraised : (Raised.host f).procedure? = some b := hb
  have hmem : b ∈ s.procedures := by
    rcases origin?_bind ho with ho | ⟨-, _, k', hr, ho⟩
    · -- logging the step asks for nothing
      have herror := congrArg Prod.fst (origin?_perform ho)
      rw [Machine.perform_procedure? herror] at hraised
      cases hraised
    · have hlogged := Machine.perform_calls host k (.log (.statement s.form) (some s.location)) rfl
      rw [show k.perform host (.log (.statement s.form) (some s.location)) = _ from hr] at hlogged
      have hbody (ss : List Statement) : Nested (fun a => a.keepsCalls = true) (runBody d ss) :=
        .of_evaluates (.runBody d ss)
      have hasked := (Asks.effect hbody s).mem_or_deeper (origin?_of_mapError ho) hraised
      rcases hasked with hmem | hdeeper
      · exact hmem
      · have hdepth : n.store.depth = k'.store.depth :=
          congrArg List.length (hcalls.trans hlogged.symm)
        omega
  cases s with
  | procedureCall location name args =>
    exact ⟨location, name, args, rfl, Option.mem_toList.mp hmem⟩
  | assignment => cases hmem
  | methodCall => cases hmem
  | bare => cases hmem

/-- If nothing is called for the operands, the last step is that of the statement itself. -/
theorem lastLocation (hh : host.hooks = {}) {location : Location} {name : String}
    {args : List Expr} (h : FailsIn host depth ss m (.procedureCall location name args) (.host f) n)
    (hn : Builtin.ofName? name = some b) (hcalls : b = .readln ∨ Expr.allCallPlaces args = []) :
    n.log.lastLocation = some location := by
  obtain ⟨d, k, -, ho, -⟩ := h
  let start := k.record host (.statement .procedureCall) (some location)
  have hlogged : k.perform host (.log (.statement .procedureCall) (some location)) =
      (.ok (), start) := Machine.logStep_of_no_hooks hh _ _ k
  have hraised : (callProcedure (runBody d) location name args).origin? host start =
      some (.host f, n) := by
    rcases origin?_bind ho with ho | ⟨-, _, k', hr, ho⟩
    · cases hlogged.symm.trans (origin?_perform ho)
    · cases hr.symm.trans hlogged
      exact origin?_of_mapError ho
  cases callProcedure_ends hh hn hcalls (runBody d) location start with
  | done _ hnone _ => cases hnone.symm.trans hraised
  | raised _ horigin hlog =>
    cases horigin.symm.trans hraised
    rw [hlog]
    exact StepLog.lastLocation_push _ _

end FailsIn

/-- A fault of the surroundings is reported as an internal one, at the last step. -/
theorem report_run_host {host : Host} (hh : host.hooks = {}) (f : HostFault) (m : Machine) :
    (Program.report (.host f)).run host m =
      (.error (.runtime ⟨.internal f.cause.message, m.log.lastLocation, some m.log.lastIndex,
        f.stack.or (some m.store.liveFrames)⟩), m) := by
  have htold : (perform (.emit (.onError (.host f)))).run host m = (.ok (), m) :=
    Machine.emit_of_no_hooks hh _ m
  unfold Program.report
  dsimp only
  rw [run_bind_of_ok htold, run_bind_of_ok (run_liveFrames host m),
    run_bind_of_ok (run_lastStep host m)]
  rfl

/-- On its way out, a fault of the surroundings keeps its cause. -/
theorem Unwound.host_cause {s : Statement} {f : HostFault} {n m' : Machine} {out : Raised}
    (h : Unwound s (.host f) n out m') : ∃ f', out = .host f' ∧ f'.cause = f.cause := by
  have hnoted := h.noted
  cases out with
  | host f' => exact ⟨f', rfl, (HostFault.mk.inj (Raised.host.inj hnoted)).1⟩
  | runtime e => cases hnoted
  | exhausted => cases hnoted

/-- If the output refuses a line or the input fails while the main block of a program runs, the
error that comes out of the run tells the frames that were live and the last step that was logged.
A call of the procedure that asked was being executed, and the error is placed there if nothing is
called for its operands. In general it is placed where the last step is. -/
theorem host_fault_report {host : Host} (hh : host.hooks = {}) (replies : List Reply) (p : Program)
    (depth : Nat) {m₁ n : Machine} {f : HostFault} {b : Builtin}
    (hdeclared : p.declare.run host { input := { replies } } = (.ok (), m₁))
    (hraised : (p.main depth).origin? host m₁ = some (.host f, n))
    (hb : f.cause.procedure? = some b) :
    ∃ (e : RuntimeError) (m' : Machine) (location : Location) (name : String) (args : List Expr),
      (p.execute depth).run host { input := { replies } } = (.error (.runtime e), m') ∧
      e.cause = .internal f.cause.message ∧
      e.stack = some n.store.liveFrames ∧
      e.step = some n.log.lastIndex ∧
      FailsIn host (depth + 1) p.block.statements m₁ (.procedureCall location name args)
        (.host f) n ∧
      Builtin.ofName? name = some b ∧
      e.location = n.log.lastLocation ∧
      (b = .readln ∨ Expr.allCallPlaces args = [] → e.location = some location) := by
  have hstart : Machine.Trail { input := { replies } } := .of_start rfl rfl
  cases main_ends hh depth hstart hdeclared with
  | done _ horigin _ => cases hraised.symm.trans horigin
  | @raised _ out _ m₂ hrun horigin hbreaks =>
    cases hraised.symm.trans horigin
    cases hbreaks with
    | @statement _ _ _ _ s hs hu =>
      obtain ⟨location, name, args, rfl, hn⟩ := hs.procedureCall hb
      obtain ⟨e, hexecute, hstack, hstep, -⟩ := execute_reports hh hdeclared hrun hu
      obtain ⟨f', rfl, hcause⟩ := hu.host_cause
      have hreport := (execute_run_of_main hh hdeclared hrun).trans (report_run_host hh f' m₂)
      cases hexecute.symm.trans hreport
      have hplace : m₂.log.lastLocation = n.log.lastLocation := by rw [hu.log]
      have hinternal : Cause.internal f'.cause.message = .internal f.cause.message := by rw [hcause]
      refine ⟨_, m₂, location, name, args, hreport, hinternal, hstack, hstep, hs, hn, hplace, ?_⟩
      exact fun hcalls => hplace.trans (hs.lastLocation hh hn hcalls)

/-- The output refuses the first line, which is written two calls deep. -/
theorem host_fault_report_refusal :
    let host : Host := { refuse := fun _ => some "full" }
    let p := Program.reckless
    let m₁ := (p.declare.run host {}).2
    let f : HostFault := { cause := .outputRefused "full" }
    p.declare.run host {} = (.ok (), m₁) ∧ f.cause.procedure? = some .writeln ∧
    ∃ n, (p.main 2).origin? host m₁ = some (.host f, n) ∧
      ∃ e m' location name args, (p.execute 2).run host {} = (.error (.runtime e), m') ∧
        e.cause = .internal "full" ∧ e.stack = some [0, 1, 2] ∧ e.step = some 8 ∧
        FailsIn host 3 p.block.statements m₁ (.procedureCall location name args) (.host f) n ∧
        Builtin.ofName? name = some .writeln ∧ e.location = some (Program.reckless.at_ 12) ∧
        (Builtin.writeln = .readln ∨ Expr.allCallPlaces args = [] →
          e.location = some location) := by
  have hview : ((Program.reckless.main 2).origin? { refuse := fun _ => some "full" }
      (Program.reckless.declare.run { refuse := fun _ => some "full" } {}).2).map
      (fun o => (o.1, o.2.store.liveFrames, o.2.log.lastIndex, o.2.log.lastLocation)) =
      some (.host { cause := .outputRefused "full" }, [0, 1, 2], 8,
        some (Program.reckless.at_ 12)) := by
    decide +kernel
  intro host p m₁ f
  have hdeclared : p.declare.run host {} = (.ok (), m₁) := rfl
  obtain ⟨⟨raised, n⟩, hraised, hn⟩ := Option.map_eq_some_iff.mp hview
  obtain ⟨rfl, hlive, hstep, hlast⟩ : raised = .host f ∧ n.store.liveFrames = [0, 1, 2] ∧
      n.log.lastIndex = 8 ∧ n.log.lastLocation = some (Program.reckless.at_ 12) := by
    simpa only [Prod.mk.injEq] using hn
  have h := host_fault_report rfl [] p 2 hdeclared hraised rfl
  rw [hlive, hstep, hlast] at h
  exact ⟨hdeclared, rfl, n, hraised, h⟩

/-- A program that makes an object and writes the number that a method of it gives. -/
def Program.gauge : Program where
  location := default
  name := none
  classes := some ⟨default, [⟨default, "TGauge",
    [.member (.method ⟨default, .constructor, "Create", [], none⟩),
      .member (.method ⟨default, .function, "Level", [], some "Integer"⟩)]⟩]⟩
  vars := some ⟨default, [⟨default, ["g"], "TGauge"⟩]⟩
  methods := some ⟨default,
    [⟨default, .constructor, "TGauge", "Create", [], none, ⟨default, []⟩⟩,
      ⟨default, .function, "TGauge", "Level", [], some "Integer",
        ⟨default, [.assignment (at_ 11) ⟨at_ 11, "Level", []⟩ (.literal (at_ 11) 7)]⟩⟩]⟩
  block := ⟨default, [making, writing]⟩
where
  at_ (line : Nat) : Location := ⟨"gauge.pas", line, 3, ""⟩
  making : Statement :=
    .assignment (at_ 14) ⟨at_ 14, "g", []⟩ (.call (at_ 14) "TGauge" "Create" [])
  writing : Statement := .procedureCall (at_ 15) "writeln" [.call (at_ 15) "g" "Level" []]

/-- The output refuses the number, and the fault is placed in the method that gave it, which is
over, and not at the statement that was to write it. -/
theorem host_fault_misplaced :
    let host : Host := { refuse := fun _ => some "full" }
    let p := Program.gauge
    let m₁ := (p.declare.run host {}).2
    (∃ n, FailsIn host 2 p.block.statements m₁ Program.gauge.writing
      (.host { cause := .outputRefused "full" }) n) ∧
    ∃ e m', (p.execute 1).run host {} = (.error (.runtime e), m') ∧
      e.location = some (Program.gauge.at_ 11) ∧
      e.location ≠ some Program.gauge.writing.location := by
  intro host p m₁
  have hmade : ((Program.gauge.making.execute (runBody 1)).run host m₁).1 = .ok () := by
    decide +kernel
  have hview : ((Program.gauge.writing.execute (runBody 1)).origin? host
      ((Program.gauge.making.execute (runBody 1)).run host m₁).2).map
      (fun o => (o.1, o.2.store.calls)) = some (.host { cause := .outputRefused "full" }, []) := by
    decide +kernel
  have hcalls : ((Program.gauge.making.execute (runBody 1)).run host m₁).2.store.calls = [] := by
    decide +kernel
  have hreport : ((p.execute 1).run host {}).1 = .error (.runtime
      ⟨.internal "full", some (Program.gauge.at_ 11), some 8, some [0]⟩) := by
    decide +kernel
  constructor
  · generalize hrun : (Program.gauge.making.execute (runBody 1)).run host m₁ = o
      at hmade hview hcalls
    obtain ⟨r, k⟩ := o
    obtain ⟨⟨raised, n⟩, hraised, hn⟩ := Option.map_eq_some_iff.mp hview
    obtain ⟨rfl, hsame⟩ := Prod.mk.inj hn
    cases hmade
    exact ⟨n, 1, k, .tail hrun .head, hraised, hsame.trans hcalls.symm⟩
  · exact ⟨_, _, Prod.fst_eq_iff.mp hreport, rfl, by decide⟩

end ObjectPascal
