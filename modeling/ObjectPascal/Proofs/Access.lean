import ObjectPascal.Proofs.Denial
import ObjectPascal.Proofs.Encapsulation
import ObjectPascal.Proofs.Shape

/-!
Access control over whole runs. Members of a class that are not public are used by methods of the
class alone: a selected member is checked, and a bare name leads to a field of the receiver only,
which is of the class whose method runs. Handlers act under the same rules, as part of the innermost
call.
-/

namespace ObjectPascal

open Script

/-! What a name and a selector get at. -/

namespace Store

variable {s : Store}

theorem context_of_checkAccess {id : ClassId} {member : String} {visibility : Visibility}
    (h : s.checkAccess id member visibility = .ok ()) (hv : visibility ≠ .publ) :
    s.innermost.context = some id := by
  unfold checkAccess at h
  split at h
  · next hopen =>
    have hin := (Bool.or_eq_true_iff.mp hopen).resolve_left (fun hp => hv (of_decide_eq_true hp))
    exact of_decide_eq_true hin
  · cases h

theorem ok_of_bind {α : Type} {x : Except Cause Unit} {f : Unit → Except Cause α} {a : α}
    (h : (x >>= f) = .ok a) : x = .ok () := by
  cases x with
  | error c => cases h
  | ok => rfl

theorem checkAccess_of_readField {id : ObjectId} {field : String} {v : Value}
    (h : s.readField id field = .ok v) :
    s.checkAccess (s.object id).classId field ((s.objectClass id).fieldVisibility field) = .ok () :=
  ok_of_bind h

theorem checkAccess_of_writeField {id : ObjectId} {field : String} {v : Value} {s' : Store}
    (h : s.writeField id field v = .ok s') :
    s.checkAccess (s.object id).classId field ((s.objectClass id).fieldVisibility field) = .ok () :=
  ok_of_bind h

theorem checkAccess_of_findMethod {id : ObjectId} {member : String} {r : Method × CallKind}
    (h : s.findMethod id member = .ok r) :
    s.checkAccess (s.object id).classId member ((s.objectClass id).methodVisibility member) =
      .ok () :=
  ok_of_bind h

/-- Fields are got at from within their class, unless they are public and selected. -/
structure Guarded (s : Store) : Prop where
  /-- A field that a bare name stands for, to be read or written, by whomever. -/
  bare : ∀ name id, s.owner? name = some (.object id) →
    s.innermost.context = some (s.object id).classId
  read : ∀ id field v, (s.objectClass id).fieldVisibility field ≠ .publ →
    s.readField id field = .ok v → s.innermost.context = some (s.object id).classId
  write : ∀ id field v s', (s.objectClass id).fieldVisibility field ≠ .publ →
    s.writeField id field v = .ok s' → s.innermost.context = some (s.object id).classId

theorem Regular.coherent (h : s.Regular) : s.Coherent := by
  intro a ha
  obtain ⟨id, -, hreceiver, hcontext⟩ := h.calls a ha
  rw [hreceiver, hcontext]
  rfl

theorem Regular.guarded (h : s.Regular) : s.Guarded where
  bare := by
    intro name id ho
    have hreceiver := receiver_of_owner? ho
    unfold innermost at hreceiver ⊢
    cases hcalls : s.calls with
    | nil =>
      rw [hcalls] at hreceiver
      cases hreceiver
    | cons a calls =>
      have ha := h.coherent a (hcalls ▸ List.mem_cons_self)
      rw [hcalls] at hreceiver
      change a.receiver = some id at hreceiver
      rw [hreceiver] at ha
      exact ha
  read := by
    intro id field v hv hr
    exact context_of_checkAccess (checkAccess_of_readField hr) hv
  write := by
    intro id field v s' hv hw
    exact context_of_checkAccess (checkAccess_of_writeField hw) hv

end Store

/-! What is kept and what is not seen outside of a class, with handlers about. -/

/-- The handler does not look at what is not public. -/
def Handler.Blind (h : Handler) : Prop :=
  ∀ count occasion (m : Machine) C, h.react count occasion (m.conceal C) = h.react count occasion m

theorem Probe.handler_blind (p : Probe) (id : Nat) : (p.handler id).Blind := by
  intro count occasion m C
  cases occasion <;> rfl

namespace Machine

variable {C : ClassId} {host : Host} {m : Machine}

theorem assignAll_conceal {s : Store} (hs : s.Outside C) (as : List (String × Value)) :
    assignAll as (s.conceal C) = ((assignAll as s).1, (assignAll as s).2.conceal C) := by
  induction as generalizing s with
  | nil => rfl
  | cons a as ih =>
    obtain ⟨name, v⟩ := a
    unfold assignAll
    rw [hs.assign]
    cases h : s.assign name v with
    | error c => rfl
    | ok s' => exact ih (hs.of_keepsSecrets (hs.keepsSecrets_assign h) (Store.assign_calls h))

theorem notify_conceal {h : Handler} (hb : h.Blind) (hm : m.store.Outside C)
    (occasion : Occasion) :
    notify h occasion (m.conceal C) =
      ((notify h occasion m).1, (notify h occasion m).2.conceal C) := by
  have hreaction : reaction h occasion (m.conceal C) = reaction h occasion m :=
    hb _ occasion { m with notified := bump h.id m.notified } C
  have hstore : (m.conceal C).store = m.store.conceal C := rfl
  rw [notify_eq, notify_eq, hreaction, hstore]
  dsimp only
  rw [assignAll_conceal hm]
  rcases assignAll (reaction h occasion m).assignments m.store with ⟨_ | _, store⟩ <;> rfl

/-- Assigning from outside of a class keeps it outside, and the secrets of the class as they are. -/
theorem discreet_assignKeeps (s : Store) :
    Store.AssignKeeps (fun s' => s'.Outside C ∧ s.KeepsSecrets C s') fun _ => True := by
  rintro s₁ s₂ name v ⟨hout, hkept⟩ - h
  have hnew := hout.keepsSecrets_assign h
  exact ⟨hout.of_keepsSecrets hnew (Store.assign_calls h), hkept.trans hnew⟩

theorem discreet_handlers (s : Store) {hooks : Registry Handler} :
    hooks.All (Handler.Assigns (fun s' => s'.Outside C ∧ s.KeepsSecrets C s') fun _ => True) :=
  ⟨fun _ _ _ _ _ _ _ _ _ _ => trivial, fun _ _ _ _ _ _ _ _ => trivial⟩

theorem notifyAll_conceal {hs : List Handler} (hb : ∀ h ∈ hs, h.Blind) (hm : m.store.Outside C)
    (occasion : Occasion) :
    notifyAll hs occasion (m.conceal C) =
      ((notifyAll hs occasion m).1, (notifyAll hs occasion m).2.conceal C) := by
  induction hs generalizing m with
  | nil => rfl
  | cons h hs ih =>
    obtain ⟨hfirst, hrest⟩ := List.forall_mem_cons.mp hb
    have hnext : (notify h occasion m).2.store.Outside C := by
      rw [notify_store]
      exact (assignAll_keeps (discreet_assignKeeps m.store) ⟨hm, .refl C m.store⟩
        fun _ _ => trivial).1.1
    unfold notifyAll
    rw [notify_conceal hfirst hm]
    rcases hn : notify h occasion m with ⟨r, m'⟩
    rw [hn] at hnext
    cases r with
    | error f => rfl
    | ok => exact ih hrest hnext

theorem emit_conceal (hb : host.hooks.All Handler.Blind) (hm : m.store.Outside C) (event : Event) :
    (m.conceal C).emit host event = ((m.emit host event).1, (m.emit host event).2.conceal C) := by
  have hlog : (m.conceal C).log = m.log := rfl
  unfold emit
  rw [hlog, notifyAll_conceal (hb.handlers event.name) hm]

theorem logStep_conceal (hb : host.hooks.All Handler.Blind) (hm : m.store.Outside C) (step : Step)
    (location : Option Location) :
    (m.conceal C).logStep host step location =
      ((m.logStep host step location).1, (m.logStep host step location).2.conceal C) := by
  have hnext : (m.conceal C).nextStep step location = m.nextStep step location := rfl
  have hrecord : (m.conceal C).record host step location =
      (m.record host step location).conceal C := by
    simp [record, conceal]
  have hout : (m.record host step location).store.Outside C := hm
  unfold logStep
  rw [hnext, hrecord]
  dsimp only
  rw [notifyAll_conceal (hb.dueHandlers _) hout]

/-- Every object is of a class that there is. -/
def Classed (m : Machine) : Prop :=
  ∀ o ∈ m.store.objects, o.classId < m.store.classes.size

/-- Nothing is hidden by a class that is not there yet. -/
theorem conceal_defineNew (hm : m.Classed) (c : Class) :
    (m.store.conceal C).defineNew c = (m.store.defineNew c).map (Store.conceal C) := by
  have hobjects : ∀ o ∈ m.store.objects,
      o.conceal C (m.store.classOf C).hides =
        o.conceal C ((m.store.classes.push c).getD C default).hides := by
    intro o ho
    by_cases hc : o.classId = C
    · rw [getD_push_of_lt c (hc ▸ hm o ho)]
      rfl
    · rw [Object.conceal_of_ne hc, Object.conceal_of_ne hc]
  have hcatalog : (m.store.conceal C).catalog = m.store.catalog := rfl
  rw [Store.defineNew_eq, Store.defineNew_eq, hcatalog]
  split
  · rfl
  · change Except.ok _ = Except.ok _
    unfold Store.conceal
    rw [Array.map_congr_left hobjects]
    rfl

/-- What a class hides does not depend on its methods. -/
theorem conceal_attachMethod (s : Store) (className : String) (method : String → Method) :
    (s.conceal C).attachMethod className method =
      (s.attachMethod className method).map fun r => (r.1.conceal C, r.2) := by
  have hupdate (id : ClassId) (m : Method) :
      (s.conceal C).updateClass id (·.attachMethod m) =
        (s.updateClass id (·.attachMethod m)).conceal C := by
    have hattach (c : Class) : (c.attachMethod m).fields = c.fields := by
      unfold Class.attachMethod
      rw [Class.bind_fields]
    have hfields : ((s.updateClass id (·.attachMethod m)).classOf C).fields =
        (s.classOf C).fields :=
      getD_of_map_eq (f := Class.fields) (map_modify_of_eq fun c _ => hattach c) C
    unfold Store.conceal Class.hides
    rw [hfields]
    rfl
  have hget : (s.conceal C).getClass className = s.getClass className := rfl
  unfold Store.attachMethod
  rw [hget]
  cases s.getClass className with
  | error c => rfl
  | ok id => exact congrArg (fun t => Except.ok (t, _)) (hupdate id _)

/-- From outside the class, an action does the same whether or not its secrets are blotted out, if
no handler looks at them. -/
theorem perform_conceal_of_blind (hb : host.hooks.All Handler.Blind) (hm : m.store.Outside C)
    (hclassed : m.Classed) (a : Action) :
    (m.conceal C).perform host a = ((m.perform host a).1, (m.perform host a).2.conceal C) := by
  cases he : a.evaluates with
  | true =>
    have hquiet := perform_conceal { host with hooks := {} } rfl hm he
    cases a with
    | log step location => exact logStep_conceal hb hm step location
    | emit event => exact emit_conceal hb hm event
    | _ => exact hquiet
  | false =>
    cases a with
    | newObject id =>
      change ((Except.ok ((m.store.conceal C).newObject id).2 : Except Raised ObjectId),
        { m.conceal C with store := ((m.store.conceal C).newObject id).1 }) = _
      rw [Store.conceal_newObject]
      rfl
    | enter frame receiver =>
      exact congrArg (fun n => ((Except.ok () : Except Raised Unit), n))
        (conceal_entered frame receiver).symm
    | leave => rfl
    | defineClass decl location =>
      change (m.conceal C).update (some location) ((m.store.conceal C).defineNew decl) = _
      rw [conceal_defineNew hclassed]
      exact conceal_update _ _
    | attachMethod impl =>
      have hstore : (m.conceal C).store = m.store.conceal C := rfl
      dsimp only [perform]
      rw [hstore, conceal_attachMethod]
      cases m.store.attachMethod impl.className impl.method <;> rfl
    | declareGlobal name v => rfl
    | lastStep => rfl
    | _ => cases he

/-- Of two machines that differ in what a class hides only, the one's objects are of classes that
there are if the other's are. -/
theorem Classed.of_conceal {m' : Machine} (h : m.Classed) (hs : m'.conceal C = m.conceal C) :
    m'.Classed := by
  have hids : m'.store.objects.map Object.classId = m.store.objects.map Object.classId := by
    have hconcealed := congrArg (fun n => n.store.objects.map Object.classId) hs
    simpa [conceal, Store.conceal, Function.comp_def] using hconcealed
  have hclasses : m'.store.classes = m.store.classes := congrArg (fun n => n.store.classes) hs
  intro o ho
  have hid : o.classId ∈ m.store.objects.map Object.classId :=
    hids ▸ Array.mem_map_of_mem ho
  obtain ⟨o', ho', hsame⟩ := Array.mem_map.mp hid
  rw [hclasses, ← hsame]
  exact h o' ho'

/-- Changes that leave the objects there were as they are keep all secrets. -/
theorem SecretsKept.of_objects {n : Machine}
    (h : ∀ id < m.store.objects.size, n.store.object id = m.store.object id) :
    m.SecretsKept C n := by
  intro id hid _ name _
  rw [h id hid]

theorem passing_secretsKept (hm : m.store.Outside C) (a : Action) :
    ∀ s ∈ m.passing host a, m.SecretsKept C { m with store := s } := by
  intro s hs
  exact secretsKept (passing_keeps (discreet_assignKeeps m.store) (discreet_handlers m.store)
    ⟨hm, .refl C m.store⟩ a s hs).2

/-- From outside the class, an action leaves its secrets as they are, whatever handlers do. -/
theorem perform_secretsKept (hm : m.store.Outside C) (a : Action) :
    m.SecretsKept C (m.perform host a).2 := by
  cases he : a.evaluates with
  | true =>
    let quiet : Host := { host with hooks := {} }
    have hhooks : quiet.hooks = {} := rfl
    have hquiet := perform_keepsSecrets hhooks hm he
    refine secretsKept ?_
    cases a with
    | log step location =>
      exact (logStep_keeps (discreet_assignKeeps m.store) (discreet_handlers m.store)
        ⟨hm, .refl C m.store⟩ step location).2
    | emit event =>
      exact (emit_keeps (discreet_assignKeeps m.store) (discreet_handlers m.store)
        ⟨hm, .refl C m.store⟩ event).2
    | _ => exact hquiet
  | false =>
    cases a with
    | newObject id =>
      refine .of_objects fun i hi => ?_
      exact getD_push_of_lt _ hi
    | defineClass decl location =>
      refine .of_objects fun i _ => ?_
      refine update_store (P := fun s => s.object i = m.store.object i) rfl fun s hs => ?_
      obtain ⟨-, rfl⟩ := Store.defineNew_ok hs
      rfl
    | attachMethod impl =>
      refine .of_objects fun i _ => ?_
      dsimp only [perform]
      split
      · next hs =>
        obtain ⟨id, -, -, rfl⟩ := Store.attachMethod_ok hs
        rfl
      · rfl
    | enter | leave | declareGlobal | lastStep => exact .of_objects fun _ _ => rfl
    | _ => cases he

end Machine

/-! Calls of methods. -/

namespace Script

variable {α β : Type} {host : Host} {receiver : ObjectId}

/-- The script leaves the calls as they are, and the calls that it starts itself, not from within
another, are on one receiver. -/
structure CallsOnly (host : Host) (receiver : ObjectId) (x : Script α) : Prop where
  run : ∀ m, (x.run host m).2.store.calls = m.store.calls
  enters : ∀ m k frame r, (k, Action.enter frame r) ∈ x.moments host m →
    k.store.calls = m.store.calls ∧ r = receiver ∨ m.store.depth < k.store.depth

namespace CallsOnly

theorem pure (a : α) : CallsOnly host receiver (Pure.pure a : Script α) :=
  ⟨fun _ => rfl, fun _ _ _ _ h => nomatch h⟩

theorem fail (e : Raised) : CallsOnly host receiver (Script.fail e : Script α) :=
  ⟨fun _ => rfl, fun _ _ _ _ h => nomatch h⟩

theorem perform {a : Action} (ha : a.keepsCalls = true) :
    CallsOnly host receiver (Script.perform a) := by
  refine ⟨fun m => Machine.perform_calls host m a ha, ?_⟩
  intro m k frame r h
  cases List.mem_singleton.mp h
  cases ha

theorem bind {x : Script α} {f : α → Script β} (hx : CallsOnly host receiver x)
    (hf : ∀ a, CallsOnly host receiver (f a)) : CallsOnly host receiver (x >>= f) := by
  refine ⟨fun m => ?_, fun m k frame r h => ?_⟩
  · have hcalls := hx.run m
    obtain ⟨a, m', hr, hb⟩ | ⟨e, m', hr, hb⟩ := run_bind_cases host x f m
    all_goals rw [hr] at hcalls
    all_goals rw [hb]
    · exact ((hf a).run m').trans hcalls
    · exact hcalls
  · rcases mem_moments_bind.mp h with h | ⟨a, m', hr, h⟩
    · exact hx.enters m k frame r h
    · have hcalls := hx.run m
      rw [hr] at hcalls
      have hnext := (hf a).enters m' k frame r h
      unfold Store.depth at hnext ⊢
      rwa [hcalls] at hnext

/-- What happens inside of a call happens deeper. -/
theorem within {frame : FrameId} {inside : Script Unit} (hx : Balanced host inside) :
    CallsOnly host receiver (within frame receiver inside) := by
  refine ⟨(Balanced.within hx).run, fun m k frame' r h => ?_⟩
  have hdeeper (h : (m.entered frame receiver).store.calls <:+ k.store.calls) :
      m.store.depth < k.store.depth := h.length_le
  rw [moments_within] at h
  rcases List.mem_append.mp h with h | h
  · rcases List.mem_cons.mp h with h | h
    · cases h
      exact .inl ⟨rfl, rfl⟩
    · exact .inr (hdeeper (hx.moments _ _ h))
  · -- what is left to do after the body starts no call
    split at h
    · cases List.mem_singleton.mp h
    · rcases List.mem_cons.mp h with h | h
      · cases h
      · cases List.mem_singleton.mp h

/-- Silent stretches start no call. -/
theorem of_silent {places : List Location} {x : Script α} (hx : Silent places x) :
    CallsOnly host receiver x := by
  induction hx with
  | done a => exact .pure a
  | fail => exact .fail _
  | @perform a h =>
    refine .perform ?_
    cases a <;> first | rfl | cases h
  | andThen _ _ ihx ihf => exact .bind ihx ihf

theorem runMethod {body : List Statement → Script Unit} (hb : ∀ ss, Evaluates (body ss))
    (kind : CallKind) (m : Method) (args : List Value) (location : Option Location) :
    CallsOnly host receiver (runMethod body kind receiver m args location) := by
  have hrender : CallsOnly host receiver (renderAll args) :=
    of_silent (Silent.renderAll args : Silent [] _)
  have hresult (frame : FrameId) : CallsOnly host receiver (callResult m frame) :=
    of_silent (Silent.callResult m frame : Silent [] _)
  have hbody : Balanced host (body (m.body.getD [])) := balanced_of_nested (.of_evaluates (hb _))
  refine .bind (.perform rfl) fun frame => ?_
  refine .bind hrender fun _ => ?_
  refine .bind (.perform rfl) fun _ => ?_
  refine .bind (.perform rfl) fun _ => ?_
  refine .bind (within hbody) fun _ => ?_
  refine .bind (hresult frame) fun _ => ?_
  exact .bind (.perform rfl) fun _ => .bind (.perform rfl) fun _ => .pure _

end CallsOnly

/-- An invocation that gets as far as to start its call was allowed to. -/
theorem invokeMethod_enters {body : List Statement → Script Unit} (hb : ∀ ss, Evaluates (body ss))
    {member : String} {args : List Value} {location : Option Location} {m k : Machine}
    {frame : FrameId} {r : ObjectId}
    (h : (k, Action.enter frame r) ∈
      (invokeMethod body receiver member args location).moments host m)
    (hd : k.store.depth = m.store.depth) :
    r = receiver ∧ k.store.calls = m.store.calls ∧
      ((m.store.objectClass receiver).methodVisibility member ≠ .publ →
        m.store.innermost.context = some (m.store.object receiver).classId) := by
  rcases mem_moments_bind.mp h with h | ⟨⟨method, kind⟩, m', hr, h⟩
  · cases List.mem_singleton.mp h
  · have hfound : m.store.findMethod receiver member = .ok (method, kind) := by
      have hresult : faultAt location (m.store.findMethod receiver member) = .ok (method, kind) :=
        congrArg Prod.fst hr
      exact faultAt_ok hresult
    have hm' : m = m' := congrArg Prod.snd hr
    have hplace : ∀ l, location = some l → l ∈ location.toList := fun _ => Option.mem_toList.mpr
    have hcalls : CallsOnly host receiver
        (checkArity method args location >>= fun _ =>
          runMethod body kind receiver method args location) :=
      .bind (.of_silent (.checkArity hplace method args)) fun _ => .runMethod hb _ _ _ _
    rw [← hm'] at h
    rcases hcalls.enters m k frame r h with ⟨hkept, hreceiver⟩ | hdeeper
    · have hallowed := Store.checkAccess_of_findMethod hfound
      exact ⟨hreceiver, hkept, Store.context_of_checkAccess hallowed⟩
    · exact absurd hd (Nat.ne_of_gt hdeeper)

end Script

/-! Denials. -/

/-- The handler raises no fault with that cause itself. -/
def Handler.Spares (c : Cause) (h : Handler) : Prop :=
  h.Raises fun e => e.cause ≠ c

/-- The member that an action selects, with its visibility; one that is not declared counts as
public. -/
def Action.selected? (s : Store) : Action → Option (ObjectId × String × Visibility)
  | .readField id field _ | .writeField id field _ _ =>
    some (id, field, (s.objectClass id).fieldVisibility field)
  | .findMethod id member _ => some (id, member, (s.objectClass id).methodVisibility member)
  | _ => none

namespace Store

variable {s : Store} {c : Cause}

theorem setField_error {id : ObjectId} {name : String} {v : Value}
    (h : s.setField id name v = .error c) : c.isDenial = false := by
  unfold setField at h
  split at h
  · cases h
  · cases h
    rfl

/-- A bare name is never denied. -/
theorem assign_error {name : String} {v : Value} (h : s.assign name v = .error c) :
    c.isDenial = false := by
  unfold assign at h
  split at h
  · cases h
    rfl
  · cases h
  · exact setField_error h

theorem assignName_error {name : String} {v : Value} (h : s.assignName name v = .error c) :
    c.isDenial = false := by
  unfold assignName at h
  dsimp only at h
  split at h
  · cases h
  · exact assign_error h

theorem lookup_error {name : String} (h : s.lookup name = .error c) : c.isDenial = false := by
  unfold lookup at h
  split at h
  · cases h
  · cases h
    rfl

theorem requireSelf_error (h : s.requireSelf = .error c) : c.isDenial = false := by
  unfold requireSelf at h
  split at h
  · cases h
  · cases h
    rfl

theorem findConstructor_error {id : ClassId} {member : String}
    (h : s.findConstructor id member = .error c) : c.isDenial = false := by
  unfold findConstructor at h
  dsimp only at h
  split at h
  · split at h
    · split at h
      · cases h
      · cases h
        rfl
    · cases h
      rfl
  · cases h
    rfl

theorem defineNew_error {decl : Class} (h : s.defineNew decl = .error c) :
    c.isDenial = false := by
  rw [defineNew_eq] at h
  split at h
  · cases h
    rfl
  · cases h

theorem attachMethod_error {className : String} {method : String → Method}
    (h : s.attachMethod className method = .error c) : c.isDenial = false := by
  unfold attachMethod getClass at h
  split at h
  · cases h
  · cases h
    rfl

/-- Whoever is denied a member selects one of an object that is not public, from outside the
object's class. -/
structure Denies (s : Store) (id : ObjectId) (visibility : Visibility) (className : String) :
    Prop where
  visibility : visibility ≠ .publ
  className : className = (s.objectClass id).name
  context : s.innermost.context ≠ some (s.object id).classId

/-- Of a check and what follows it only the check denies anything. -/
theorem denies_of_bind {α : Type} {id : ObjectId} {field : String} {visibility v : Visibility}
    {className member : String} {f : Unit → Except Cause α}
    (hf : ∀ c, f () = .error c → c.isDenial = false)
    (h : (s.checkAccess (s.object id).classId field visibility >>= f) =
      .error (.accessDenied v className member)) :
    (field, visibility) = (member, v) ∧ s.Denies id v className := by
  unfold checkAccess at h
  split at h
  · cases hf _ h
  · next hclosed =>
    cases h
    refine ⟨rfl, ?_, rfl, ?_⟩
    · exact fun hv => hclosed (by simp [hv])
    · exact fun hc => hclosed (by simp [inContextOf, hc])

end Store

namespace Machine

variable {host : Host} {m : Machine} {c : Cause}

theorem assignAll_error {as : List (String × Value)} {s : Store}
    (h : (assignAll as s).1 = .error c) : c.isDenial = false := by
  induction as generalizing s with
  | nil => cases h
  | cons a as ih =>
    obtain ⟨name, v⟩ := a
    unfold assignAll at h
    split at h
    · next hs =>
      cases h
      exact Store.assign_error hs
    · exact ih h

theorem notifyAll_spares {hs : List Handler} (hh : ∀ h ∈ hs, h.Spares c)
    (hc : c.isDenial = true) {occasion : Occasion} {e : RuntimeError}
    (he : (notifyAll hs occasion m).1 = .error (.fault e)) : e.cause ≠ c := by
  refine notifyAll_raises ?_ hh he
  rintro as s _ hassign rfl
  rw [assignAll_error hassign] at hc
  cases hc

theorem judge_error {observer : String} {location : Option Location} {r : Except Failure Unit}
    {e : RuntimeError} (hc : e.cause.isDenial = true)
    (h : judge observer location r = .error (.runtime e)) : r = .error (.fault e) := by
  unfold judge at h
  split at h
  · cases h
  · cases h
    rfl
  · cases h
    cases hc

/-- The fault of the program that an action ends in. -/
def fault? (host : Host) (m : Machine) (a : Action) : Option RuntimeError :=
  match (m.perform host a).1 with
  | .error (.runtime e) => some e
  | _ => none

theorem fault?_eq_some {a : Action} {e : RuntimeError} :
    m.fault? host a = some e ↔ (m.perform host a).1 = .error (.runtime e) := by
  unfold fault?
  rcases (m.perform host a).1 with (_ | _ | _) | _ <;> simp

/-- Only selecting a member that is not public, from outside the class of its object, is denied. -/
theorem perform_denied {a : Action} {e : RuntimeError} {visibility : Visibility}
    {className member : String} (hh : host.hooks.All (Handler.Spares e.cause))
    (hf : m.fault? host a = some e)
    (hc : e.cause = .accessDenied visibility className member) :
    ∃ id, a.selected? m.store = some (id, member, visibility) ∧
      m.store.Denies id visibility className := by
  have he := fault?_eq_some.mp hf
  have hdenial : e.cause.isDenial = true := by
    rw [hc]
    rfl
  have hno {P : Prop} (h : e.cause.isDenial = false) : P := by
    rw [h] at hdenial
    cases hdenial
  have hfault {α : Type} {location : Option Location} {r : Except Cause α}
      (h : faultAt location r = .error (.runtime e)) : r = .error e.cause := by
    cases r with
    | ok => cases h
    | error c =>
      cases h
      rfl
  have hupdate {location : Option Location} {r : Except Cause Store}
      (h : (m.update location r).1 = .error (.runtime e)) : r = .error e.cause := by
    cases r with
    | ok => cases h
    | error c =>
      cases h
      rfl
  have hselected {α : Type} {id : ObjectId} {field : String} {v : Visibility}
      {f : Unit → Except Cause α} (hf : ∀ c, f () = .error c → c.isDenial = false)
      (h : (m.store.checkAccess (m.store.object id).classId field v >>= f) = .error e.cause) :
      ∃ id', some (id, field, v) = some (id', member, visibility) ∧
        m.store.Denies id' visibility className := by
    rw [hc] at h
    obtain ⟨hsame, hdenies⟩ := Store.denies_of_bind hf h
    exact ⟨id, congrArg (fun x => some (id, x)) hsame, hdenies⟩
  cases a with
  | log step location =>
    exact absurd rfl (notifyAll_spares (hh.dueHandlers _) hdenial (judge_error hdenial he))
  | emit event =>
    exact absurd rfl (notifyAll_spares (hh.handlers _) hdenial (judge_error hdenial he))
  | lookup name => exact hno (Store.lookup_error (hfault he))
  | receiver => exact hno (Store.requireSelf_error (hfault he))
  | readField id field location =>
    refine hselected (fun c hget => ?_) (hfault he)
    unfold Store.getField at hget
    split at hget
    · cases hget
    · cases hget
      rfl
  | writeField id field v location =>
    exact hselected (fun _ => Store.setField_error) (hupdate he)
  | assign name v => exact hno (Store.assignName_error (hupdate he))
  | findConstructor id member location => exact hno (Store.findConstructor_error (hfault he))
  | findMethod id member location =>
    refine hselected (fun c hfind => ?_) (hfault he)
    split at hfind
    · split at hfind
      · cases hfind
      · cases hfind
        rfl
    · cases hfind
      rfl
  | defineClass decl location => exact hno (Store.defineNew_error (hupdate he))
  | attachMethod impl =>
    dsimp only [perform] at he
    split at he
    · cases he
    · next hattach =>
      cases he
      exact hno (Store.attachMethod_error hattach)
  | write line =>
    change (m.write host line).1 = _ at he
    unfold write at he
    split at he <;> cases he
  | nextWord =>
    change m.nextWord.1 = _ at he
    unfold nextWord at he
    split at he <;> cases he
  | _ => cases he

end Machine

/-! Runs of programs. -/

/-- A run that ends in a denial has come to an action that was denied. -/
theorem Program.denied_by_action {host : Host} {m : Machine} {p : Program} {depth : Nat}
    {e : RuntimeError} (he : ((p.execute depth).run host m).1 = .error (.runtime e))
    (hd : e.cause.isDenial = true) :
    ∃ x ∈ (p.execute depth).moments host m, ∃ e', x.1.fault? host x.2 = some e' ∧
      e'.cause = e.cause := by
  let S (c : Cause) : Prop :=
    ∃ x ∈ (p.execute depth).moments host m, ∃ e', x.1.fault? host x.2 = some e' ∧ e'.cause = c
  have hmoments : ∀ x ∈ (p.execute depth).moments host m,
      (denials S).Accepts ((denials S).gives x.2) (x.1.perform host x.2).1 := by
    intro x hx
    cases hr : (x.1.perform host x.2).1 with
    | ok r => trivial
    | error raised =>
      intro c hc
      obtain ⟨e', rfl, hcause⟩ := Raised.eq_runtime_of_denied? hc
      exact ⟨x, hx, e', Machine.fault?_eq_some.mpr hr, hcause⟩
  have hrun := (Grants.programExecute depth p : Grants S _).accepts hmoments
  rw [he] at hrun
  exact hrun e.cause (if_pos hd)

/-- While an action is carried out, what the instances of a class hide stays as it is, and makes no
difference unless to a handler that looks at it. -/
structure Machine.Seals (host : Host) (C : ClassId) (m : Machine) (a : Action) : Prop where
  passing : ∀ s ∈ m.passing host a, m.SecretsKept C { m with store := s }
  final : m.SecretsKept C (m.perform host a).2
  unseen : host.hooks.All Handler.Blind → ∀ m' : Machine, m'.conceal C = m.conceal C →
    (m'.perform host a).1 = (m.perform host a).1 ∧
      (m'.perform host a).2.conceal C = (m.perform host a).2.conceal C

theorem Store.Regular.classed {m : Machine} (h : m.store.Regular) : m.Classed := by
  intro o ho
  obtain ⟨i, hi, rfl⟩ := Array.getElem_of_mem ho
  have hobject : m.store.object i = m.store.objects[i] := by
    unfold Store.object
    rw [Array.getD_eq_getD_getElem?, Array.getElem?_eq_getElem hi]
    rfl
  rw [← hobject]
  exact (h.objects i hi).1

theorem Store.Regular.seals {host : Host} {C : ClassId} {m : Machine} (h : m.store.Regular)
    (hc : m.store.innermost.context ≠ some C) (a : Action) : m.Seals host C a := by
  have hout : m.store.Outside C := h.coherent.outside hc
  refine ⟨Machine.passing_secretsKept hout a, Machine.perform_secretsKept hout a, ?_⟩
  intro hb m' hs
  have hconceal := Machine.perform_conceal_of_blind hb hout h.classed a
  have hconceal' := Machine.perform_conceal_of_blind hb
    (hout.of_conceal (congrArg Machine.store hs)) (h.classed.of_conceal hs) a
  rw [hs, hconceal] at hconceal'
  obtain ⟨hresult, hfinal⟩ := Prod.mk.inj hconceal'
  exact ⟨hresult.symm, hfinal.symm⟩

/-- Access control in every run of a program, with handlers that only observe, fail, and assign what
there is. At every moment, between the assignments of handlers too, a bare name stands for a field
only within the class of its object, and a selected field that is not public is read or written only
there. From anywhere else no action whatever changes or shows what is not public. An invocation that
starts its call of a method that is not public is asked for within the class. And nothing but
selecting a member that is not public, from without, is ever denied, and a run ends in a denial only
where that was done, unless a handler says so. -/
theorem access_controlled (host : Host) (hh : host.hooks.All Handler.Honest)
    (replies : List Reply) (p : Program) (depth : Nat) :
    let m : Machine := { input := { replies } }
    (∀ s ∈ (p.execute depth).stores host m, s.Guarded) ∧
    (∀ x ∈ (p.execute depth).moments host m, ∀ C, x.1.store.innermost.context ≠ some C →
      x.1.Seals host C x.2) ∧
    (∀ room receiver member args location (n k : Machine) frame r,
      (k, Action.enter frame r) ∈
        (invokeMethod (runBody room) receiver member args location).moments host n →
      k.store.depth = n.store.depth →
      r = receiver ∧ k.store.calls = n.store.calls ∧
        ((n.store.objectClass receiver).methodVisibility member ≠ .publ →
          k.store.innermost.context = some (n.store.object receiver).classId)) ∧
    (∀ x ∈ (p.execute depth).moments host m, ∀ e visibility className member,
      host.hooks.All (Handler.Spares e.cause) → x.1.fault? host x.2 = some e →
      e.cause = .accessDenied visibility className member →
      ∃ id, x.2.selected? x.1.store = some (id, member, visibility) ∧
        x.1.store.Denies id visibility className) ∧
    ∀ e visibility className member, host.hooks.All (Handler.Spares e.cause) →
      ((p.execute depth).run host m).1 = .error (.runtime e) →
      e.cause = .accessDenied visibility className member →
      ∃ x ∈ (p.execute depth).moments host m, ∃ id,
        x.2.selected? x.1.store = some (id, member, visibility) ∧
        x.1.store.Denies id visibility className := by
  intro m
  have hregular : ∀ s ∈ (p.execute depth).stores host m, s.Regular :=
    fun s hs => (p.stores_sound hh depth Store.sound_initial s hs).toRegular
  refine ⟨fun s hs => (hregular s hs).guarded, ?_, ?_, ?_, ?_⟩
  · intro x hx C hc
    exact (hregular _ (mem_stores.mpr (.inl ⟨x, hx, .inl rfl⟩))).seals hc x.2
  · intro room receiver member args location n k frame r hk hd
    obtain ⟨hreceiver, hcalls, hcontext⟩ := invokeMethod_enters (Evaluates.runBody room) hk hd
    refine ⟨hreceiver, hcalls, ?_⟩
    rw [Store.innermost_of_calls hcalls]
    exact hcontext
  · intro x hx e visibility className member hspares he hc
    exact Machine.perform_denied hspares he hc
  · intro e visibility className member hspares he hc
    obtain ⟨x, hx, e', he', hsame⟩ := Program.denied_by_action he (by rw [hc]; rfl)
    rw [← hsame] at hspares hc
    exact ⟨x, hx, Machine.perform_denied hspares he' hc⟩

/-- A program that makes an object with a private field and reads the field from outside. -/
def Program.vault : Program where
  location := default
  name := none
  classes := some ⟨default,
    [⟨default, "TVault",
      [.marked default .priv [.field ⟨default, ["Code"], "Integer"⟩],
        .marked default .publ [.method ⟨default, .constructor, "Create", [], none⟩]]⟩]⟩
  vars := some ⟨default, [⟨default, ["v"], "TVault"⟩]⟩
  methods := some ⟨default,
    [⟨default, .constructor, "TVault", "Create", [], none,
      ⟨default, [.procedureCall default "writeln" [.ref ⟨default, "Code", []⟩]]⟩⟩]⟩
  block := ⟨default,
    [.assignment default ⟨default, "v", []⟩ (.call default "TVault" "Create" []),
      .procedureCall default "writeln" [.ref ⟨default, "v", ["Code"]⟩]]⟩

/-- A handler that is called before statements and changes the field at the one of the
constructor. -/
def vaultHooks : Registry Handler where
  subscriptions := [(.beforeStatement,
    [{ handler := Probe.handler { label := "vault", assign := some (2, "code", 7) } 0 }])]

/-- When the handler assigns, its name stands for the field, for it does so in the constructor; the
main block sees nothing of the field, and when it selects it, it is denied. -/
theorem access_controlled_vault :
    let host : Host := { hooks := vaultHooks }
    let x := Program.vault.execute 1
    host.hooks.All Handler.Honest ∧
    (∃ s ∈ x.stores host {}, s.owner? "code" = some (.object 0) ∧
      s.innermost.context = some (s.object 0).classId) ∧
    (∀ y ∈ x.moments host {}, y.1.store.innermost.context ≠ some 0 →
      ∀ m' : Machine, m'.conceal 0 = y.1.conceal 0 →
        (m'.perform host y.2).1 = (y.1.perform host y.2).1) ∧
    ∃ y ∈ x.moments host {}, ∃ id, y.2.selected? y.1.store = some (id, "Code", .priv) ∧
      y.1.store.Denies id .priv "TVault" := by
  intro host x
  have hfound : (x.stores host {}).any (fun s => s.owner? "code" = some (.object 0)) = true := by
    decide +kernel
  have hfault : (x.moments host {}).any (fun y => (y.1.fault? host y.2).map RuntimeError.cause =
      some (.accessDenied .priv "TVault" "Code")) = true := by
    decide +kernel
  have hhonest : host.hooks.All Handler.Honest := .single (Probe.handler_honest _ _)
  have hblind : host.hooks.All Handler.Blind := .single (Probe.handler_blind _ _)
  obtain ⟨hguarded, hsealed, -, hdenied, -⟩ := access_controlled host hhonest [] Program.vault 1
  obtain ⟨s, hs, howner⟩ := List.any_eq_true.mp hfound
  have howner' := of_decide_eq_true howner
  obtain ⟨y, hy, hraised⟩ := List.any_eq_true.mp hfault
  obtain ⟨e, he, hcause⟩ := Option.map_eq_some_iff.mp (of_decide_eq_true hraised)
  refine ⟨hhonest, ⟨s, hs, howner', (hguarded s hs).bare _ _ howner'⟩, ?_, y, hy, ?_⟩
  · intro z hz hc m' hs
    exact ((hsealed z hz 0 hc).unseen hblind m' hs).1
  · exact hdenied y hy e _ _ _ (.single fun _ _ _ _ => nofun) he hcause

end ObjectPascal
