import ObjectPascal.Proofs.Admission
import ObjectPascal.Proofs.Unwinding

/-!
A call as one step of the machine: what comes before the body of the method, the body, and what
comes after it. What a run of a call does is told here without the scripts that do it.
-/

namespace ObjectPascal

open Script

/-- Actions by which a call is found, prepared and ended. -/
def Action.attends : Action → Bool
  | .log .. | .emit _ | .render _ | .lookup _ | .receiver | .constructedClass _
  | .findConstructor .. | .findMethod .. | .newObject _ | .newFrame .. | .leave | .liveFrames
  | .result _ => true
  | _ => false

namespace Machine

/-- What happens before a body is entered: the frame is made, the call is logged, and handlers are
told of it. -/
def announce (host : Host) (n : Machine) (kind : CallKind) (m : Method) (args : List Value)
    (location : Option Location) : Except Raised Unit × Machine :=
  let texts := args.map n.store.render
  match (n.framed (m.frame args location)).logStep host (.enter kind m.qualifiedName texts)
      location with
  | (.error e, k) => (.error e, k)
  | (.ok (), k) => k.emit host (.beforeCall m.qualifiedName texts (location.map Location.line))

/-- What happens after a body: the result is taken from the frame, and handlers are told. -/
def conclude (host : Host) (n : Machine) (frame : FrameId) (m : Method)
    (location : Option Location) : Except Raised Value × Machine :=
  let v := if m.isFunction then (n.store.frame frame).result else .nil
  let event := Event.afterCall m.qualifiedName (n.store.render v) (location.map Location.line)
  match n.emit host event with
  | (.error e, k) => (.error e, k)
  | (.ok (), k) => (.ok v, k)

theorem announce_of_no_hooks {host : Host} (h : host.hooks = {}) (n : Machine) (kind : CallKind)
    (m : Method) (args : List Value) (location : Option Location) :
    n.announce host kind m args location = (.ok (), (n.framed (m.frame args location)).record host
      (.enter kind m.qualifiedName (args.map n.store.render)) location) := by
  unfold announce
  dsimp only
  rw [logStep_of_no_hooks h]
  exact emit_of_no_hooks h _ _

/-- Before a body, a step is logged on the machine with the new frame, and if that succeeds,
handlers are told. -/
theorem announce_steps {host : Host} {n k : Machine} {kind : CallKind} {m : Method}
    {args : List Value} {location : Option Location} {r : Except Raised Unit}
    (h : n.announce host kind m args location = (r, k)) :
    let texts := args.map n.store.render
    let logged := (n.framed (m.frame args location)).logStep host
      (.enter kind m.qualifiedName texts) location
    k = logged.2 ∨
      k = (logged.2.emit host
        (.beforeCall m.qualifiedName texts (location.map Location.line))).2 := by
  intro texts logged
  unfold announce at h
  dsimp only at h
  split at h
  · next hlog =>
    cases h
    exact .inl (congrArg Prod.snd hlog).symm
  · next hlog =>
    have hlogged : logged.2 = _ := congrArg Prod.snd hlog
    rw [hlogged]
    exact .inr (congrArg Prod.snd h).symm

theorem announce_calls {host : Host} {n k : Machine} {kind : CallKind} {m : Method}
    {args : List Value} {location : Option Location} {r : Except Raised Unit}
    (h : n.announce host kind m args location = (r, k)) : k.store.calls = n.store.calls := by
  have hlog (step : Step) := perform_calls host (n.framed (m.frame args location))
    (.log step location) rfl
  rcases announce_steps h with rfl | rfl
  · exact hlog _
  · exact (perform_calls host _ (.emit _) rfl).trans (hlog _)

end Machine

/-! Running a method. -/

/-- What a call does once its body is over. -/
def conclusion (m : Method) (frame : FrameId) (location : Option Location) : Script Value := do
  let result ← callResult m frame
  let text ← perform (.render result)
  perform (.emit (.afterCall m.qualifiedName text (location.map Location.line)))
  return result

section

variable {host : Host} (body : List Statement → Script Unit) (kind : CallKind)
  (receiver : ObjectId) (m : Method) (args : List Value) (location : Option Location) (n : Machine)

theorem run_callResult (frame : FrameId) :
    (callResult m frame).run host n =
      (.ok (if m.isFunction then (n.store.frame frame).result else .nil), n) := by
  unfold callResult
  split <;> rfl

theorem run_conclusion (frame : FrameId) :
    (conclusion m frame location).run host n = n.conclude host frame m location := by
  let v := if m.isFunction then (n.store.frame frame).result else .nil
  let event := Event.afterCall m.qualifiedName (n.store.render v) (location.map Location.line)
  have htext : (perform (.render v)).run host n = (.ok (n.store.render v), n) := rfl
  have hconclude : n.conclude host frame m location =
      match n.emit host event with
      | (.error e, k) => (.error e, k)
      | (.ok (), k) => (.ok v, k) := rfl
  unfold conclusion
  rw [run_bind_of_ok (run_callResult m n frame), run_bind_of_ok htext, hconclude]
  have htold : (perform (.emit event)).run host n = n.emit host event := rfl
  rw [run_bind, htold]
  rcases n.emit host event with ⟨_ | _, k⟩ <;> rfl

theorem run_runMethod :
    (runMethod body kind receiver m args location).run host n =
      match n.announce host kind m args location with
      | (.error e, k) => (.error e, k)
      | (.ok (), k) =>
        match (body (m.body.getD [])).run host (k.entered n.store.frames.size receiver) with
        | (.error e, k') => (.error (e.capture k'.store.liveFrames), k'.left)
        | (.ok (), k') => k'.left.conclude host n.store.frames.size m location := by
  let texts := args.map n.store.render
  let n₁ := n.framed (m.frame args location)
  let step := Step.enter kind m.qualifiedName texts
  let event := Event.beforeCall m.qualifiedName texts (location.map Location.line)
  have hframed : (perform (.newFrame m args location)).run host n = (.ok n.store.frames.size, n₁) :=
    rfl
  have htexts : (renderAll args).run host n₁ = (.ok texts, n₁) := (renderAll_ends host n₁ args).1
  have hlog : (perform (.log step location)).run host n₁ = n₁.logStep host step location := rfl
  have hannounce : n.announce host kind m args location =
      match n₁.logStep host step location with
      | (.error e, k) => (.error e, k)
      | (.ok (), k) => k.emit host event := rfl
  unfold runMethod
  rw [run_bind_of_ok hframed, run_bind_of_ok htexts, run_bind, hlog, hannounce]
  rcases n₁.logStep host step location with ⟨_ | _, n₂⟩
  · rfl
  have htold : (perform (.emit event)).run host n₂ = n₂.emit host event := rfl
  dsimp only
  rw [run_bind, htold]
  rcases n₂.emit host event with ⟨_ | _, k⟩
  · rfl
  dsimp only
  rw [run_bind, run_within]
  rcases (body (m.body.getD [])).run host (k.entered n.store.frames.size receiver)
    with ⟨_ | _, k'⟩
  · rfl
  · exact run_conclusion _ _ _ _

end

/-! Moments of a call. -/

/-- Scripts that find, prepare and end calls. -/
inductive Attends : {α : Type} → Script α → Prop
  | done {α : Type} (a : α) : Attends (.done a)
  | fail {α : Type} (e : Raised) : Attends (.fail e : Script α)
  | perform {a : Action} (h : a.attends = true) : Attends (.perform a)
  | andThen {α β : Type} {x : Script α} {f : α → Script β} (hx : Attends x)
      (hf : ∀ a, Attends (f a)) : Attends (.andThen x f)

namespace Attends

theorem pure {α : Type} (a : α) : Attends (Pure.pure a : Script α) :=
  .done a

theorem bind {α β : Type} {x : Script α} {f : α → Script β} (hx : Attends x)
    (hf : ∀ a, Attends (f a)) : Attends (x >>= f) :=
  .andThen hx hf

theorem renderAll (vs : List Value) : Attends (renderAll vs) := by
  induction vs with
  | nil => exact .pure _
  | cons v vs ih => exact .bind (.perform rfl) fun _ => .bind ih fun _ => .pure _

theorem callResult (m : Method) (frame : FrameId) : Attends (callResult m frame) := by
  unfold ObjectPascal.callResult
  split
  · exact .perform rfl
  · exact .pure _

theorem conclusion (m : Method) (frame : FrameId) (location : Option Location) :
    Attends (conclusion m frame location) :=
  .bind (callResult m frame) fun _ => .bind (.perform rfl) fun _ => .bind (.perform rfl) fun _ =>
    .pure _

theorem resolveObject (base : String) (location : Location) :
    Attends (resolveObject base location) := by
  unfold ObjectPascal.resolveObject
  split
  · exact .perform rfl
  · refine .bind (.perform rfl) fun v => ?_
    cases v with
    | object id => exact .pure id
    | int | nil => exact .fail _

theorem checkArity (m : Method) (args : List Value) (location : Option Location) :
    Attends (checkArity m args location) := by
  unfold ObjectPascal.checkArity
  split
  · exact .pure _
  · exact .fail _

end Attends

section

variable {α β γ : Type} {host : Host} {g : Machine × Action → Option γ}

/-- What is picked from the moments of a sequence. -/
theorem filterMap_moments_bind (g : Machine × Action → Option γ) (x : Script α)
    (f : α → Script β) (n : Machine) :
    ((x >>= f).moments host n).filterMap g = (x.moments host n).filterMap g ++
      match x.run host n with
      | (.ok a, k) => ((f a).moments host k).filterMap g
      | (.error _, _) => [] := by
  rw [moments_bind, List.filterMap_append]
  rcases x.run host n with ⟨_ | _, k⟩ <;> rfl

variable (hg : ∀ k a, a.attends = true → g (k, a) = none)

include hg

theorem Attends.filterMap_moments {x : Script α} (hx : Attends x) (n : Machine) :
    (x.moments host n).filterMap g = [] := by
  induction hx generalizing n with
  | done a => rfl
  | fail e => rfl
  | @perform a h =>
    rw [moments_perform, List.filterMap_cons, hg n a h]
    rfl
  | @andThen _ _ x f _ _ ihx ihf =>
    change ((x >>= f).moments host n).filterMap g = []
    rw [filterMap_moments_bind, ihx, List.nil_append]
    split
    · exact ihf _ _
    · rfl

/-- After a script that only prepares a call, all that is picked comes from what follows. -/
theorem Attends.filterMap_moments_bind {x : Script α} (hx : Attends x) (f : α → Script β)
    (n : Machine) :
    ((x >>= f).moments host n).filterMap g =
      match x.run host n with
      | (.ok a, k) => ((f a).moments host k).filterMap g
      | (.error _, _) => [] := by
  rw [ObjectPascal.filterMap_moments_bind, hx.filterMap_moments hg, List.nil_append]

theorem filterMap_moments_within (frame : FrameId) (receiver : ObjectId) (inside : Script Unit)
    (n : Machine) :
    ((within frame receiver inside).moments host n).filterMap g =
      (g (n, .enter frame receiver)).toList ++
        (inside.moments host (n.entered frame receiver)).filterMap g := by
  have hleave : ∀ k, g (k, .leave) = none := fun k => hg k .leave rfl
  have hlive : ∀ k, g (k, .liveFrames) = none := fun k => hg k .liveFrames rfl
  rw [moments_within]
  rcases inside.run host (n.entered frame receiver) with ⟨_ | _, k⟩ <;>
    cases he : g (n, .enter frame receiver) <;> simp [hleave, hlive, he]

/-- Of the moments of a call, those in its body are left, and the one in which it is entered. -/
theorem filterMap_moments_runMethod (body : List Statement → Script Unit) (kind : CallKind)
    (receiver : ObjectId) (m : Method) (args : List Value) (location : Option Location)
    (n : Machine) :
    ((runMethod body kind receiver m args location).moments host n).filterMap g =
      match n.announce host kind m args location with
      | (.error _, _) => []
      | (.ok (), k) =>
        (g (k, .enter n.store.frames.size receiver)).toList ++
          ((body (m.body.getD [])).moments host
            (k.entered n.store.frames.size receiver)).filterMap g := by
  let texts := args.map n.store.render
  let n₁ := n.framed (m.frame args location)
  let step := Step.enter kind m.qualifiedName texts
  let event := Event.beforeCall m.qualifiedName texts (location.map Location.line)
  have hframed : (perform (.newFrame m args location)).run host n = (.ok n.store.frames.size, n₁) :=
    rfl
  have htexts : (renderAll args).run host n₁ = (.ok texts, n₁) := (renderAll_ends host n₁ args).1
  have hlog : (perform (.log step location)).run host n₁ = n₁.logStep host step location := rfl
  have hannounce : n.announce host kind m args location =
      match n₁.logStep host step location with
      | (.error e, k) => (.error e, k)
      | (.ok (), k) => k.emit host event := rfl
  unfold runMethod
  rw [Attends.filterMap_moments_bind hg (.perform rfl), hframed]
  dsimp only
  rw [Attends.filterMap_moments_bind hg (.renderAll args), htexts]
  dsimp only
  rw [Attends.filterMap_moments_bind hg (.perform rfl), hlog, hannounce]
  rcases n₁.logStep host step location with ⟨_ | _, n₂⟩
  · rfl
  have htold : (perform (.emit event)).run host n₂ = n₂.emit host event := rfl
  dsimp only
  rw [Attends.filterMap_moments_bind hg (.perform rfl), htold]
  rcases n₂.emit host event with ⟨_ | _, k⟩
  · rfl
  dsimp only
  rw [filterMap_moments_bind, filterMap_moments_within hg]
  split
  · next k' _ =>
    have hend : ((conclusion m n.store.frames.size location).moments host k').filterMap g = [] :=
      (Attends.conclusion _ _ _).filterMap_moments hg k'
    exact (congrArg _ hend).trans (List.append_nil _)
  · exact List.append_nil _

omit hg in
/-- What does not attend to the call is done in its body. -/
theorem mem_moments_runMethod {body : List Statement → Script Unit} {kind : CallKind}
    {receiver : ObjectId} {m : Method} {args : List Value} {location : Option Location}
    {n k : Machine} (hk : n.announce host kind m args location = (.ok (), k))
    {x : Machine × Action}
    (hx : x ∈ (runMethod body kind receiver m args location).moments host n)
    (ha : x.2.attends = false) :
    x = (k, .enter n.store.frames.size receiver) ∨
      x ∈ (body (m.body.getD [])).moments host (k.entered n.store.frames.size receiver) := by
  let own (y : Machine × Action) : Bool := !y.2.attends
  have hown : ∀ k a, a.attends = true → Option.guard own (k, a) = none := by
    intro k a h
    simp [own, h]
  have hmem := List.mem_filter.mpr ⟨hx, (by simp [own, ha] : own x = true)⟩
  rw [← List.filterMap_eq_filter, filterMap_moments_runMethod hown, hk] at hmem
  rcases List.mem_append.mp hmem with hmem | hmem
  · exact .inl (List.mem_singleton.mp hmem)
  · rw [List.filterMap_eq_filter] at hmem
    exact .inr (List.mem_of_mem_filter hmem)

end

/-! Calls, from their checks to their results. -/

namespace Call

def args : Call → List Value
  | .construct _ _ args _ | .invoke _ _ args _ => args

/-- A method takes as many arguments as it has parameters. -/
def checkCount (kind : CallKind) (m : Method) (args : List Value) :
    Except Cause (CallKind × Method) :=
  if args.length = m.params.length then .ok (kind, m)
  else .error (.argumentCount m.params.length args.length m.qualifiedName)

/-- The method that a call runs, or why it comes to nothing. -/
def permit (s : Store) : Call → Except Cause (CallKind × Method)
  | .construct id member args _ =>
    match s.findConstructor id member with
    | .error c => .error c
    | .ok m => checkCount .new m args
  | .invoke receiver member args _ =>
    match s.findMethod receiver member with
    | .error c => .error c
    | .ok (m, kind) => checkCount kind m args

/-- The machine with the receiver of a call, which is made if the call makes an object. -/
def ready (n : Machine) : Call → Machine × ObjectId
  | .construct id .. => ({ n with store := (n.store.newObject id).1 }, n.store.objects.size)
  | .invoke receiver .. => (n, receiver)

/-- What a call gives if its method gives `v`. -/
def gives (receiver : ObjectId) (v : Value) : Call → Value
  | .construct .. => .object receiver
  | .invoke .. => v

variable {host : Host}

theorem run_checkArity (m : Method) (args : List Value) (location : Option Location)
    (n : Machine) :
    (checkArity m args location).run host n =
      if args.length = m.params.length then (.ok (), n)
      else (.error (.fault location
        (.argumentCount m.params.length args.length m.qualifiedName)), n) := by
  unfold checkArity
  split <;> rfl

/-- A call is checked, and nothing happens until it is admitted. -/
theorem run_script (call : Call) (body : List Statement → Script Unit) (n : Machine) :
    (call.script body).run host n =
      match call.permit n.store with
      | .error c => (.error (.fault call.location c), n)
      | .ok (kind, m) =>
        let (r, k) := (runMethod body kind (call.ready n).2 m call.args call.location).run host
          (call.ready n).1
        (r.map (call.gives (call.ready n).2), k) := by
  cases call with
  | construct id member args location =>
    have hfind : (perform (.findConstructor id member location)).run host n =
        (faultAt location (n.store.findConstructor id member), n) := rfl
    have hnew : (perform (.newObject id)).run host n =
        (.ok n.store.objects.size, { n with store := (n.store.newObject id).1 }) := rfl
    change (ObjectPascal.construct body id member args location).run host n = _
    unfold ObjectPascal.construct
    rw [run_bind, hfind]
    dsimp only [permit]
    cases n.store.findConstructor id member with
    | error c => rfl
    | ok m =>
      dsimp only [faultAt, checkCount]
      rw [run_bind, run_checkArity]
      by_cases hcount : args.length = m.params.length
      · rw [if_pos hcount, if_pos hcount]
        dsimp only
        rw [run_bind_of_ok hnew, run_bind]
        dsimp only [ready, Call.args, Call.location]
        rcases (runMethod body .new n.store.objects.size m args location).run host
          { n with store := (n.store.newObject id).1 } with ⟨_ | _, k⟩ <;> rfl
      · rw [if_neg hcount, if_neg hcount]
        rfl
  | invoke receiver member args location =>
    have hfind : (perform (.findMethod receiver member location)).run host n =
        (faultAt location (n.store.findMethod receiver member), n) := rfl
    change (ObjectPascal.invokeMethod body receiver member args location).run host n = _
    unfold ObjectPascal.invokeMethod
    rw [run_bind, hfind]
    dsimp only [permit]
    rcases n.store.findMethod receiver member with c | ⟨m, kind⟩
    · rfl
    · dsimp only [faultAt, checkCount]
      rw [run_bind, run_checkArity]
      by_cases hcount : args.length = m.params.length
      · rw [if_pos hcount, if_pos hcount]
        dsimp only [ready, Call.args, Call.location]
        rcases (runMethod body kind receiver m args location).run host n with ⟨_ | _, k⟩ <;> rfl
      · rw [if_neg hcount, if_neg hcount]
        rfl

/-- Of the moments of a call, those of running its method are left. -/
theorem filterMap_moments_script {γ : Type} {g : Machine × Action → Option γ}
    (hg : ∀ k a, a.attends = true → g (k, a) = none) (call : Call)
    (body : List Statement → Script Unit) (n : Machine) :
    ((call.script body).moments host n).filterMap g =
      match call.permit n.store with
      | .error _ => []
      | .ok (kind, m) =>
        ((runMethod body kind (call.ready n).2 m call.args call.location).moments host
          (call.ready n).1).filterMap g := by
  cases call with
  | construct id member args location =>
    have hfind : (perform (.findConstructor id member location)).run host n =
        (faultAt location (n.store.findConstructor id member), n) := rfl
    have hnew : (perform (.newObject id)).run host n =
        (.ok n.store.objects.size, { n with store := (n.store.newObject id).1 }) := rfl
    change ((ObjectPascal.construct body id member args location).moments host n).filterMap g = _
    unfold ObjectPascal.construct
    rw [Attends.filterMap_moments_bind hg (.perform rfl), hfind]
    dsimp only [permit]
    cases n.store.findConstructor id member with
    | error c => rfl
    | ok m =>
      dsimp only [faultAt, checkCount]
      rw [Attends.filterMap_moments_bind hg (.checkArity m args location), run_checkArity]
      by_cases hcount : args.length = m.params.length
      · rw [if_pos hcount, if_pos hcount]
        dsimp only
        rw [Attends.filterMap_moments_bind hg (.perform rfl), hnew]
        dsimp only [ready, Call.args, Call.location]
        rw [filterMap_moments_bind]
        split <;> exact List.append_nil _
      · rw [if_neg hcount, if_neg hcount]
  | invoke receiver member args location =>
    have hfind : (perform (.findMethod receiver member location)).run host n =
        (faultAt location (n.store.findMethod receiver member), n) := rfl
    change ((ObjectPascal.invokeMethod body receiver member args location).moments host n).filterMap
      g = _
    unfold ObjectPascal.invokeMethod
    rw [Attends.filterMap_moments_bind hg (.perform rfl), hfind]
    dsimp only [permit]
    rcases n.store.findMethod receiver member with c | ⟨m, kind⟩
    · rfl
    · dsimp only [faultAt, checkCount]
      rw [Attends.filterMap_moments_bind hg (.checkArity m args location), run_checkArity]
      by_cases hcount : args.length = m.params.length
      · rw [if_pos hcount, if_pos hcount]
        rfl
      · rw [if_neg hcount, if_neg hcount]

/-! The body that a call enters. -/

/-- The moments at which a body is entered. -/
def entry? : Machine × Action → Option (Machine × FrameId × ObjectId)
  | (k, .enter frame receiver) => some (k, frame, receiver)
  | _ => none

theorem entry?_of_attends (k : Machine) (a : Action) (h : a.attends = true) :
    entry? (k, a) = none := by
  cases a with
  | enter => cases h
  | _ => rfl

theorem mem_filterMap_entry? {moments : List (Machine × Action)} {k : Machine} {f : FrameId}
    {r : ObjectId} : (k, f, r) ∈ moments.filterMap entry? ↔ (k, Action.enter f r) ∈ moments := by
  rw [List.mem_filterMap]
  constructor
  · rintro ⟨⟨k', a⟩, hmoment, hentry⟩
    cases a with
    | enter =>
      cases hentry
      exact hmoment
    | _ => cases hentry
  · exact fun h => ⟨_, h, rfl⟩

/-- A call enters a body, from the calls that are active, when it is admitted and announced; what is
entered further in is entered with more calls active. -/
theorem enters_iff (call : Call) (room : Nat) {n k : Machine} {f : FrameId} {r : ObjectId} :
    (k, Action.enter f r) ∈ (call.script (runBody room)).moments host n ∧
        k.store.calls = n.store.calls ↔
      ∃ kind m, call.permit n.store = .ok (kind, m) ∧
        (call.ready n).1.announce host kind m call.args call.location = (.ok (), k) ∧
        f = n.store.frames.size ∧ r = (call.ready n).2 := by
  have hready : (call.ready n).1.store.calls = n.store.calls ∧
      (call.ready n).1.store.frames = n.store.frames := by
    cases call <;> exact ⟨rfl, rfl⟩
  rw [← mem_filterMap_entry?, filterMap_moments_script entry?_of_attends]
  rcases call.permit n.store with c | ⟨kind, m⟩
  · exact ⟨fun h => absurd h.1 List.not_mem_nil, nofun⟩
  dsimp only
  rw [filterMap_moments_runMethod entry?_of_attends, hready.2]
  rcases hk₀ : (call.ready n).1.announce host kind m call.args call.location with ⟨_ | _, k₀⟩
  · refine ⟨fun h => absurd h.1 List.not_mem_nil, ?_⟩
    rintro ⟨_, _, ⟨⟩, hk, _⟩
    rw [hk₀] at hk
    cases hk
  have hcalls := (Machine.announce_calls hk₀).trans hready.1
  constructor
  · rintro ⟨hmem, hsame⟩
    rcases List.mem_append.mp hmem with hmem | hmem
    · cases List.mem_singleton.mp hmem
      exact ⟨kind, m, rfl, hk₀, rfl, rfl⟩
    · -- what is entered in the body is entered with the call itself active
      have hmoment := mem_filterMap_entry?.mp hmem
      have hdeeper := (balanced_of_nested (.of_evaluates (.runBody room _))).moments _ _ hmoment
      have hlength := hdeeper.length_le
      rw [hsame, ← hcalls] at hlength
      exact absurd hlength (Nat.not_succ_le_self _)
  · rintro ⟨_, _, ⟨⟩, hk, rfl, rfl⟩
    cases hk₀.symm.trans hk
    exact ⟨List.mem_append_left _ List.mem_cons_self, hcalls⟩

end Call

/-! Calls on a name. -/

namespace Store

/-- The object that a name stands for. -/
def objectOf (s : Store) (base : String) (location : Location) : Except Raised ObjectId :=
  if Key.of base = Key.self then faultAt none s.requireSelf
  else
    match s.lookup base with
    | .error c => .error (.fault none c)
    | .ok (.object id) => .ok id
    | .ok v => .error (.fault (some location) (.notAnObject base v.sort))

/-- The call that is made on a name. -/
def callOn (s : Store) (location : Location) (left member : String) (args : List Value) :
    Except Raised Call :=
  match s.constructedClass left with
  | some id => .ok (.construct id member args (some location))
  | none =>
    match s.objectOf left location with
    | .error e => .error e
    | .ok receiver => .ok (.invoke receiver member args (some location))

end Store

section

variable {host : Host} (location : Location) (left member : String) (args : List Value)
  (n : Machine)

theorem run_resolveObject :
    (resolveObject left location).run host n = (n.store.objectOf left location, n) := by
  unfold resolveObject Store.objectOf
  split
  · rfl
  · have hlookup : (perform (.lookup left)).run host n =
        (faultAt none (n.store.lookup left), n) := rfl
    rw [run_bind, hlookup]
    rcases n.store.lookup left with _ | _ | _ | _ <;> rfl

theorem run_callMember (body : List Statement → Script Unit) :
    (callMember body location left member args).run host n =
      match n.store.callOn location left member args with
      | .error e => (.error e, n)
      | .ok call => (call.script body).run host n := by
  have hclass : (perform (.constructedClass left)).run host n =
      (.ok (n.store.constructedClass left), n) := rfl
  unfold callMember Store.callOn
  rw [run_bind_of_ok hclass]
  cases n.store.constructedClass left with
  | some id => rfl
  | none =>
    dsimp only
    rw [run_bind, run_resolveObject]
    cases n.store.objectOf left location <;> rfl

theorem filterMap_moments_callMember {γ : Type} {g : Machine × Action → Option γ}
    (hg : ∀ k a, a.attends = true → g (k, a) = none) (body : List Statement → Script Unit) :
    ((callMember body location left member args).moments host n).filterMap g =
      match n.store.callOn location left member args with
      | .error _ => []
      | .ok call => ((call.script body).moments host n).filterMap g := by
  have hclass : (perform (.constructedClass left)).run host n =
      (.ok (n.store.constructedClass left), n) := rfl
  unfold callMember Store.callOn
  rw [Attends.filterMap_moments_bind hg (.perform rfl), hclass]
  dsimp only
  cases n.store.constructedClass left with
  | some id => rfl
  | none =>
    dsimp only
    rw [Attends.filterMap_moments_bind hg (.resolveObject left location), run_resolveObject]
    cases n.store.objectOf left location <;> rfl

end

end ObjectPascal
