import Mathlib.Data.Nat.Basic
import ObjectPascal.Proofs.Extension
import ObjectPascal.Proofs.Regime
import ObjectPascal.Proofs.Wellformed
import ObjectPascal.Probe

/-!
The shape of the store in every run: objects have the fields of their classes, classes are known by
their names, and every call has a receiver.
-/

namespace ObjectPascal

open Script

/-! Values that refer to something. -/

/-- An object among the first `n`, or no object at all. -/
def Value.Within (n : Nat) : Value → Prop
  | .object id => id < n
  | _ => True

theorem Value.Within.mono {n n' : Nat} (hn : n ≤ n') {v : Value} (h : v.Within n) :
    v.Within n' := by
  cases v with
  | object id => exact Nat.lt_of_lt_of_le h hn
  | int => trivial
  | nil => trivial

theorem Table.All.mono {α : Type} {P Q : α → Prop} {t : Table α} (h : t.All P)
    (hpq : ∀ a, P a → Q a) : t.All Q :=
  fun e he => hpq e.2 (h e he)

theorem Table.keys_map {α β : Type} (f : α → β) (t : Table α) : (t.map f).keys = t.keys := by
  unfold Table.map keys
  rw [List.map_map]
  rfl

/-- Every value of a frame has `P`. -/
structure Frame.Holds (P : Value → Prop) (f : Frame) : Prop where
  slots : f.slots.All fun slot => P slot.value
  result : P f.result

namespace Frame.Holds

variable {P Q : Value → Prop} {f : Frame}

theorem mono (h : f.Holds P) (hpq : ∀ v, P v → Q v) : f.Holds Q :=
  ⟨h.slots.mono fun _ hs => hpq _ hs, hpq _ h.result⟩

theorem declare (h : f.Holds P) (name : String) {v : Value} (hv : P v) :
    (f.declare name v).Holds P :=
  ⟨h.slots.insert _ hv, h.result⟩

theorem declareAll (h : f.Holds P) {bindings : List (String × Value)}
    (hb : ∀ b ∈ bindings, P b.2) : (f.declareAll bindings).Holds P := by
  induction bindings generalizing f with
  | nil => exact h
  | cons b bs ih =>
    obtain ⟨hfirst, hrest⟩ := List.forall_mem_cons.mp hb
    exact ih (h.declare b.1 hfirst) hrest

theorem set (h : f.Holds P) (name : String) {v : Value} (hv : P v) : (f.set name v).Holds P :=
  ⟨h.slots.insert _ hv, h.result⟩

theorem recordResult (h : f.Holds P) {v : Value} (hv : P v) : (f.recordResult v).Holds P :=
  ⟨h.slots, hv⟩

theorem get? (h : f.Holds P) {name : String} {v : Value} (hv : f.get? name = some v) : P v := by
  obtain ⟨slot, hslot, rfl⟩ := Option.map_eq_some_iff.mp hv
  exact h.slots.find? hslot

end Frame.Holds

theorem Method.frame_holds {P : Value → Prop} (m : Method) {args : List Value}
    (ha : ∀ v ∈ args, P v) (location : Option Location) (h0 : P (.int 0)) :
    (m.frame args location).Holds P := by
  apply Frame.Holds.declareAll ⟨Table.all_empty, h0⟩
  intro b hb
  exact ha b.2 (List.of_mem_zip hb).2

namespace Store

/-- Every value refers to an object that there is. -/
structure Closed (s : Store) : Prop where
  frames : ∀ f ∈ s.frames, f.Holds (Value.Within s.objects.size)
  fields : ∀ o ∈ s.objects, o.fields.All (Value.Within s.objects.size)

/-- Objects, classes and calls fit together. -/
structure Regular (s : Store) : Prop where
  objects : ∀ id < s.objects.size, (s.object id).classId < s.classes.size ∧
    (s.object id).fields.keys = (s.objectClass id).fields.keys
  catalog : ∀ k id, s.catalog.find? k = some id → id < s.classes.size
  classes : ∀ id < s.classes.size, s.catalog.find? (Key.of (s.classOf id).name) = some id
  calls : ∀ a ∈ s.calls, ∃ id < s.objects.size,
    a.receiver = some id ∧ a.context = some (s.object id).classId

structure Sound (s : Store) : Prop extends Closed s, Regular s

theorem sound_initial : Sound {} where
  frames := by
    intro f hf
    rw [List.mem_singleton.mp (Array.mem_def.mp hf)]
    exact ⟨Table.all_empty, trivial⟩
  fields := nofun
  objects := nofun
  catalog := nofun
  classes := nofun
  calls := nofun

variable {s s' : Store}

namespace Closed

theorem frame (h : s.Closed) (id : FrameId) : (s.frame id).Holds (Value.Within s.objects.size) :=
  getD_of_forall h.frames ⟨Table.all_empty, trivial⟩ id

theorem object (h : s.Closed) (id : ObjectId) :
    (s.object id).fields.All (Value.Within s.objects.size) :=
  getD_of_forall h.fields Table.all_empty id

theorem lookup (h : s.Closed) {name : String} {v : Value} (hv : s.lookup name = .ok v) :
    v.Within s.objects.size := by
  unfold Store.lookup lookup? at hv
  split at hv
  · next hfound =>
    cases hv
    split at hfound
    · cases hfound
    · exact (h.frame _).get? hfound
    · exact (h.object _).find? hfound
  · cases hv

theorem getField (h : s.Closed) {id : ObjectId} {name : String} {v : Value}
    (hv : s.getField id name = .ok v) : v.Within s.objects.size := by
  unfold Store.getField at hv
  split at hv
  · next hfound =>
    cases hv
    exact (h.object id).find? hfound
  · cases hv

theorem readField (h : s.Closed) {id : ObjectId} {field : String} {v : Value}
    (hv : s.readField id field = .ok v) : v.Within s.objects.size :=
  h.getField (getField_of_readField hv)

theorem updateFrame (h : s.Closed) (id : FrameId) {g : Frame → Frame}
    (hg : ∀ f, f.Holds (Value.Within s.objects.size) → (g f).Holds (Value.Within s.objects.size)) :
    (s.updateFrame id g).Closed :=
  ⟨forall_mem_modify h.frames id hg, h.fields⟩

theorem setField (h : s.Closed) {id : ObjectId} {name : String} {v : Value}
    (hv : v.Within s.objects.size) (hs : s.setField id name v = .ok s') : s'.Closed := by
  unfold Store.setField at hs
  split at hs
  · cases hs
    have hsize : (s.objects.modify id fun o =>
        { o with fields := o.fields.insert (Key.of name) v }).size = s.objects.size :=
      Array.size_modify
    refine ⟨?_, ?_⟩
    · dsimp only
      rw [hsize]
      exact h.frames
    · dsimp only
      rw [hsize]
      exact forall_mem_modify h.fields id fun o ho => ho.insert _ hv
  · cases hs

theorem assign (h : s.Closed) {name : String} {v : Value} (hv : v.Within s.objects.size)
    (hs : s.assign name v = .ok s') : s'.Closed := by
  unfold Store.assign at hs
  split at hs
  · cases hs
  · cases hs
    exact h.updateFrame _ fun f hf => hf.set name hv
  · exact h.setField hv hs

theorem assignName (h : s.Closed) {name : String} {v : Value} (hv : v.Within s.objects.size)
    (hs : s.assignName name v = .ok s') : s'.Closed := by
  unfold Store.assignName at hs
  dsimp only at hs
  split at hs
  · cases hs
    exact h.updateFrame _ fun f hf => hf.recordResult hv
  · exact h.assign hv hs

theorem writeField (h : s.Closed) {id : ObjectId} {field : String} {v : Value}
    (hv : v.Within s.objects.size) (hs : s.writeField id field v = .ok s') : s'.Closed :=
  h.setField hv (setField_of_writeField hs)

theorem newObject (h : s.Closed) (id : ClassId) : (s.newObject id).1.Closed := by
  have hsize : (s.newObject id).1.objects.size = s.objects.size + 1 := Array.size_push ..
  have hmono : ∀ v : Value, v.Within s.objects.size → v.Within (s.objects.size + 1) :=
    fun v hv => hv.mono (Nat.le_succ _)
  refine ⟨?_, ?_⟩
  · intro f hf
    rw [hsize]
    exact (h.frames f hf).mono hmono
  · rw [hsize]
    apply forall_mem_push
    · intro o ho
      exact (h.fields o ho).mono hmono
    · exact Table.all_map fun _ => trivial

theorem newFrame (h : s.Closed) {f : Frame} (hf : f.Holds (Value.Within s.objects.size)) :
    (s.newFrame f).1.Closed :=
  ⟨forall_mem_push h.frames hf, h.fields⟩

end Closed

namespace Regular

/-- Other values make no difference. -/
theorem rewrites (h : s.Regular) (hr : s.Rewrites s') : s'.Regular := by
  have hsize : s'.objects.size = s.objects.size := by
    have hmapped := congrArg Array.size hr.objects
    rw [Array.size_map, Array.size_map] at hmapped
    exact hmapped
  have hclass : ∀ id, s'.classOf id = s.classOf id := by
    intro id
    unfold Store.classOf
    rw [hr.classes]
  have houtline : ∀ id, (s'.object id).outline = (s.object id).outline :=
    getD_of_map_eq hr.objects
  have hid : ∀ id, (s'.object id).classId = (s.object id).classId := by
    intro id
    have h := congrArg Object.classId (houtline id)
    exact h
  have hkeys : ∀ id, (s'.object id).fields.keys = (s.object id).fields.keys := by
    intro id
    have h := congrArg (fun o => o.fields.keys) (houtline id)
    unfold Object.outline at h
    rwa [Table.keys_map, Table.keys_map] at h
  refine ⟨?_, ?_, ?_, ?_⟩
  · intro id hlt
    rw [hsize] at hlt
    unfold objectClass
    rw [hid, hkeys, hclass, hr.classes]
    exact h.objects id hlt
  · rw [hr.classes, hr.catalog]
    exact h.catalog
  · intro id hlt
    rw [hr.classes] at hlt
    rw [hr.catalog, hclass]
    exact h.classes id hlt
  · intro a ha
    rw [hr.calls] at ha
    obtain ⟨id, hlt, hreceiver, hcontext⟩ := h.calls a ha
    refine ⟨id, ?_, hreceiver, ?_⟩
    · rw [hsize]
      exact hlt
    · rw [hid]
      exact hcontext

theorem newObject (h : s.Regular) {id : ClassId} (hid : id < s.classes.size) :
    (s.newObject id).1.Regular := by
  have hsize : (s.newObject id).1.objects.size = s.objects.size + 1 := Array.size_push ..
  have hold : ∀ i < s.objects.size, (s.newObject id).1.object i = s.object i :=
    fun i hi => getD_push_of_lt _ hi
  have hnew : (s.newObject id).1.object s.objects.size =
      ⟨id, (s.classOf id).fields.map fun _ => .int 0⟩ := getD_push_size _ _
  refine ⟨?_, h.catalog, h.classes, ?_⟩
  · intro i hi
    rw [hsize] at hi
    unfold objectClass
    rcases Nat.lt_succ_iff_lt_or_eq.mp hi with hlt | rfl
    · rw [hold i hlt]
      exact h.objects i hlt
    · rw [hnew]
      exact ⟨hid, Table.keys_map _ _⟩
  · intro a ha
    obtain ⟨i, hlt, hreceiver, hcontext⟩ := h.calls a ha
    refine ⟨i, ?_, hreceiver, ?_⟩
    · rw [hsize]
      exact Nat.lt_succ_of_lt hlt
    · rw [hold i hlt]
      exact hcontext

theorem enter (h : s.Regular) (frame : FrameId) {receiver : ObjectId}
    (hr : receiver < s.objects.size) :
    (s.enter ⟨frame, some (s.object receiver).classId, some receiver⟩).Regular := by
  refine ⟨h.objects, h.catalog, h.classes, ?_⟩
  exact List.forall_mem_cons.mpr ⟨⟨receiver, hr, rfl, rfl⟩, h.calls⟩

theorem leave (h : s.Regular) : s.leave.Regular :=
  ⟨h.objects, h.catalog, h.classes, fun a ha => h.calls a (List.mem_of_mem_tail ha)⟩

theorem defineNew (h : s.Regular) {c : Class} (hs : s.defineNew c = .ok s') : s'.Regular := by
  obtain ⟨hfree, rfl⟩ := defineNew_ok hs
  have hold : ∀ id < s.classes.size, (s.classes.push c).getD id default = s.classOf id :=
    fun id hid => getD_push_of_lt c hid
  refine ⟨?_, ?_, ?_, h.calls⟩
  · intro id hid
    obtain ⟨hclass, hkeys⟩ := h.objects id hid
    refine ⟨?_, ?_⟩
    · change _ < (s.classes.push c).size
      rw [Array.size_push]
      exact Nat.lt_succ_of_lt hclass
    · change _ = ((s.classes.push c).getD (s.object id).classId default).fields.keys
      rw [hold _ hclass]
      exact hkeys
  · intro k id hk
    change id < (s.classes.push c).size
    rw [Array.size_push]
    by_cases hkey : k = Key.of c.name
    · rw [hkey, Table.find?_insert_self] at hk
      cases hk
      exact Nat.lt_succ_self _
    · rw [Table.find?_insert_of_ne _ _ hkey] at hk
      exact Nat.lt_succ_of_lt (h.catalog k id hk)
  · intro id hid
    change id < (s.classes.push c).size at hid
    rw [Array.size_push] at hid
    change (s.catalog.insert _ _).find? (Key.of ((s.classes.push c).getD id default).name) = _
    rcases Nat.lt_succ_iff_lt_or_eq.mp hid with hlt | rfl
    · have hfound := h.classes id hlt
      rw [hold id hlt, Table.find?_insert_of_ne]
      · exact hfound
      · intro hkey
        rw [hkey] at hfound
        unfold Table.contains at hfree
        rw [hfound] at hfree
        cases hfree
    · rw [getD_push_size, Table.find?_insert_self]

/-- Attaching a method changes neither the name nor the fields of a class. -/
theorem updateClass (h : s.Regular) (id : ClassId) {g : Class → Class}
    (hg : ∀ c, ((g c).name, (g c).fields) = (c.name, c.fields)) : (s.updateClass id g).Regular := by
  have hsize : (s.updateClass id g).classes.size = s.classes.size := Array.size_modify
  have hsame : ∀ i, (((s.updateClass id g).classOf i).name, ((s.updateClass id g).classOf i).fields)
      = ((s.classOf i).name, (s.classOf i).fields) := by
    apply getD_of_map_eq (f := fun c : Class => (c.name, c.fields))
    exact map_modify_of_eq fun c _ => hg c
  refine ⟨?_, ?_, ?_, h.calls⟩
  · intro i hi
    obtain ⟨hclass, hkeys⟩ := h.objects i hi
    rw [hsize]
    refine ⟨hclass, ?_⟩
    have hfields := (Prod.mk.inj (hsame (s.object i).classId)).2
    exact hkeys.trans (congrArg Table.keys hfields.symm)
  · rw [hsize]
    exact h.catalog
  · intro i hi
    rw [hsize] at hi
    rw [(Prod.mk.inj (hsame i)).1]
    exact h.classes i hi

theorem requireSelf (h : s.Regular) {id : ObjectId} (hs : s.requireSelf = .ok id) :
    id < s.objects.size := by
  unfold Store.requireSelf innermost at hs
  cases hc : s.calls with
  | nil =>
    rw [hc] at hs
    cases hs
  | cons a calls =>
    have ha : a ∈ s.calls := by
      rw [hc]
      exact List.mem_cons_self
    obtain ⟨i, hlt, hreceiver, -⟩ := h.calls a ha
    have hhead : ((a :: calls).headD ⟨globalFrame, none, none⟩).receiver = some i := hreceiver
    rw [hc, hhead] at hs
    cases hs
    exact hlt

theorem constructedClass (h : s.Regular) {left : String} {id : ClassId}
    (hs : s.constructedClass left = some id) : id < s.classes.size := by
  unfold Store.constructedClass at hs
  split at hs
  · cases hs
  · split at hs
    · cases hs
    · next found hfound =>
      have hlt := h.catalog _ _ hfound
      split at hs
      · cases hs
        exact hlt
      · split at hs
        · cases hs
        · cases hs
          exact hlt

end Regular

namespace Sound

theorem assign (h : s.Sound) {name : String} {v : Value} (hv : v.Within s.objects.size)
    (hs : s.assign name v = .ok s') : s'.Sound :=
  ⟨h.toClosed.assign hv hs, h.toRegular.rewrites (.assign hs)⟩

theorem declareGlobal (h : s.Sound) (name : String) {v : Value} (hv : v.Within s.objects.size) :
    (s.declareGlobal name v).Sound where
  toClosed := h.toClosed.updateFrame _ fun _ hf => hf.declare name hv
  toRegular := ⟨h.objects, h.catalog, h.classes, h.calls⟩

theorem defineNew (h : s.Sound) {c : Class} (hs : s.defineNew c = .ok s') : s'.Sound where
  toClosed := by
    obtain ⟨-, rfl⟩ := defineNew_ok hs
    exact ⟨h.frames, h.fields⟩
  toRegular := h.toRegular.defineNew hs

theorem attachMethod (h : s.Sound) {className : String} {method : String → Method} {m : Method}
    (hs : s.attachMethod className method = .ok (s', m)) : s'.Sound := by
  obtain ⟨id, -, -, rfl⟩ := attachMethod_ok hs
  refine ⟨⟨h.frames, h.fields⟩, h.toRegular.updateClass id ?_⟩
  intro c
  unfold Class.attachMethod
  rw [Class.bind_name, Class.bind_fields]

end Sound

end Store

/-! Handlers and actions. -/

/-- Of objects, the handler assigns only such as there are. -/
def Handler.Honest (h : Handler) : Prop :=
  ∀ count occasion (m : Machine), ∀ a ∈ (h.react count occasion m).assignments,
    a.2.Within m.store.objects.size

/-- The sizes of a store. -/
def Store.extent (s : Store) : Nat × Nat :=
  (s.classes.size, s.objects.size)

/-- Values and classes that there are, in a store of some extent. -/
def bounded : Regime (Nat × Nat) where
  values w v := v.Within w.2
  classes w id := id < w.1
  methods _ _ := True
  declared _ := True
  impls _ := True
  exhausts := True
  values_int _ _ := trivial
  values_nil _ := trivial
  values_mono hw hv := hv.mono hw.2
  classes_mono hw hid := Nat.lt_of_lt_of_le hid hw.1

namespace Machine

variable {host : Host} {m : Machine}

theorem sound_assignKeeps (n : Nat) :
    Store.AssignKeeps (fun s => s.Sound ∧ s.objects.size = n) (Value.Within n) := by
  intro s s' name v hs hv h
  obtain ⟨hsound, rfl⟩ := hs
  refine ⟨hsound.assign hv h, ?_⟩
  have hmapped := congrArg Array.size (Store.Rewrites.assign h).objects
  rw [Array.size_map, Array.size_map] at hmapped
  exact hmapped

theorem honest_assigns (n : Nat) {hooks : Registry Handler} (h : hooks.All Handler.Honest) :
    hooks.All (Handler.Assigns (fun s => s.Sound ∧ s.objects.size = n) (Value.Within n)) := by
  refine h.mono ?_
  intro handler hh count occasion m hm a ha
  have hvalue := hh count occasion m a ha
  rwa [hm.2] at hvalue

theorem passing_sound (hh : host.hooks.All Handler.Honest) (hm : m.store.Sound) (a : Action) :
    ∀ s ∈ m.passing host a, s.Sound := by
  intro s hs
  exact (passing_keeps (sound_assignKeeps m.store.objects.size) (honest_assigns _ hh) ⟨hm, rfl⟩ a
    s hs).1

theorem perform_sound (hh : host.hooks.All Handler.Honest) (hm : m.store.Sound) {a : Action}
    (ha : bounded.Allows m.store.extent a) : (m.perform host a).2.store.Sound := by
  cases a with
  | log step location =>
    exact (logStep_keeps (sound_assignKeeps m.store.objects.size) (honest_assigns _ hh) ⟨hm, rfl⟩
      step location).1
  | emit event =>
    exact (emit_keeps (sound_assignKeeps m.store.objects.size) (honest_assigns _ hh) ⟨hm, rfl⟩
      event).1
  | writeField id field v location =>
    refine update_store hm ?_
    intro s hs
    exact ⟨hm.toClosed.writeField ha.2 hs, hm.toRegular.rewrites (.writeField hs)⟩
  | assign name v =>
    refine update_store hm ?_
    intro s hs
    exact ⟨hm.toClosed.assignName ha hs, hm.toRegular.rewrites (.assignName hs)⟩
  | newObject id => exact ⟨hm.toClosed.newObject id, hm.toRegular.newObject ha⟩
  | newFrame method args location =>
    have hframe := method.frame_holds ha.2 location trivial
    exact ⟨hm.toClosed.newFrame hframe, ⟨hm.objects, hm.catalog, hm.classes, hm.calls⟩⟩
  | enter frame receiver => exact ⟨⟨hm.frames, hm.fields⟩, hm.toRegular.enter frame ha⟩
  | leave => exact ha.elim
  | write line =>
    change (m.write host line).2.store.Sound
    rw [write_store]
    exact hm
  | nextWord =>
    change m.nextWord.2.store.Sound
    rw [nextWord_store]
    exact hm
  | defineClass c location => exact update_store hm fun s hs => hm.defineNew hs
  | attachMethod impl =>
    dsimp only [perform]
    split
    · next hs => exact hm.attachMethod hs
    · exact hm
  | declareGlobal name v => exact hm.declareGlobal name ha
  | _ => exact hm

/-- Nothing that there is goes away. -/
theorem perform_extent (a : Action) : m.store.extent ≤ (m.perform host a).2.store.extent := by
  cases hd : a.declares with
  | false =>
    have hext : m.store.Extends (m.perform host a).2.store := perform_extends hd
    refine ⟨?_, ?_⟩
    · change _ ≤ (m.perform host a).2.store.classes.size
      rw [hext.classes]
      exact le_refl _
    · have hlength := hext.objects.length_le
      rw [Array.length_toList, Array.length_toList, Array.size_map, Array.size_map] at hlength
      exact hlength
  | true =>
    cases a with
    | defineClass c location =>
      refine update_store (P := fun s => m.store.extent ≤ s.extent) (le_refl _) ?_
      intro s hs
      obtain ⟨-, rfl⟩ := Store.defineNew_ok hs
      refine ⟨?_, le_refl _⟩
      change m.store.classes.size ≤ (m.store.classes.push c).size
      rw [Array.size_push]
      exact Nat.le_succ _
    | attachMethod impl =>
      dsimp only [perform]
      split
      · next hs =>
        obtain ⟨id, -, -, rfl⟩ := Store.attachMethod_ok hs
        refine ⟨?_, le_refl _⟩
        exact Nat.le_of_eq Array.size_modify.symm
      · exact le_refl _
    | declareGlobal name v => exact le_refl _
    | _ => cases hd

theorem perform_gives (hm : m.store.Sound) {a : Action} {r : a.Result}
    (hr : (m.perform host a).1 = .ok r) : bounded.Gives (m.perform host a).2.store.extent a r := by
  cases a with
  | lookup name => exact hm.toClosed.lookup (faultAt_ok hr)
  | receiver => exact hm.toRegular.requireSelf (faultAt_ok hr)
  | readField id field location => exact hm.toClosed.readField (faultAt_ok hr)
  | constructedClass left =>
    cases hr
    intro id hid
    exact hm.toRegular.constructedClass hid
  | newObject id =>
    cases hr
    change m.store.objects.size < (m.store.newObject id).1.objects.size
    unfold Store.newObject
    rw [Array.size_push]
    exact Nat.lt_succ_self _
  | result frame =>
    cases hr
    exact (hm.toClosed.frame frame).result
  | _ => trivial

end Machine

theorem bounded_kept {host : Host} (hh : host.hooks.All Handler.Honest) :
    bounded.Kept host fun w m => w = m.store.extent ∧ m.store.Sound where
  perform := by
    intro w m a hm ha
    obtain ⟨rfl, hsound⟩ := hm
    refine ⟨_, Machine.perform_extent a, ⟨rfl, Machine.perform_sound hh hsound ha⟩, ?_⟩
    intro r hr
    exact Machine.perform_gives hsound hr
  leave := by
    intro w m hm
    obtain ⟨rfl, hsound⟩ := hm
    exact ⟨rfl, ⟨⟨hsound.frames, hsound.fields⟩, hsound.toRegular.leave⟩⟩

/-- By the regime, every store that a program passes through is sound. -/
theorem Program.stores_sound {host : Host} (hh : host.hooks.All Handler.Honest) (p : Program)
    (depth : Nat) {m : Machine} (hm : m.store.Sound) :
    ∀ s ∈ (p.execute depth).stores host m, s.Sound := by
  have hp : bounded.likeness.Programs p p :=
    Regime.programs (fun _ _ _ _ => trivial) fun _ _ => trivial
  have hself := Regime.couples_self hp trivial depth m.store.extent
  obtain ⟨hmoments, w, -, hend⟩ := (bounded_kept hh).moments hself ⟨rfl, hm⟩
  intro s hs
  rcases mem_stores.mp hs with ⟨x, hx, rfl | hpass⟩ | rfl
  · obtain ⟨w', -, hsound⟩ := hmoments x hx
    exact hsound
  · obtain ⟨w', -, hsound⟩ := hmoments x hx
    exact Machine.passing_sound hh hsound x.2 s hpass
  · exact hend

/-- The shape of a store. -/
structure Store.Shaped (s : Store) : Prop where
  /-- An object has the fields of its class. -/
  fields : ∀ id < s.objects.size, (s.object id).fields.keys = (s.objectClass id).fields.keys
  /-- The class of an object is known by its name. -/
  named : ∀ id < s.objects.size, (s.object id).classId < s.classes.size ∧
    s.findClass? (s.objectClass id).name = some (s.object id).classId
  /-- The program itself has no receiver, and is not a method of a class. -/
  program : s.depth = 0 → s.innermost = ⟨globalFrame, none, none⟩
  /-- A call has a receiver, and is of a method of the receiver's class. -/
  calls : ∀ a ∈ s.calls, ∃ id < s.objects.size,
    a.receiver = some id ∧ a.context = some (s.object id).classId
  /-- Only the program itself has no receiver. -/
  receiver : (∃ cause, s.requireSelf = .error cause) ↔ s.depth = 0

theorem Store.Regular.shaped {s : Store} (h : s.Regular) : s.Shaped where
  fields id hid := (h.objects id hid).2
  named id hid := ⟨(h.objects id hid).1, h.classes _ (h.objects id hid).1⟩
  program hd := by
    unfold innermost
    rw [List.eq_nil_of_length_eq_zero hd]
    rfl
  calls := h.calls
  receiver := by
    unfold Store.requireSelf innermost depth
    cases hc : s.calls with
    | nil => exact ⟨fun _ => rfl, fun _ => ⟨.noSelf, rfl⟩⟩
    | cons a calls =>
      have ha : a ∈ s.calls := by
        rw [hc]
        exact List.mem_cons_self
      obtain ⟨id, -, hreceiver, -⟩ := h.calls a ha
      have hhead : ((a :: calls).headD ⟨globalFrame, none, none⟩).receiver = some id := hreceiver
      rw [hhead]
      refine ⟨?_, nofun⟩
      intro herror
      obtain ⟨cause, hcause⟩ := herror
      cases hcause

/-- In every run of a program, with handlers that only observe, fail, and assign what there is, the
store keeps its shape at every moment; and executing statements changes neither classes nor the
names and classes of anything that is there when they start. -/
theorem shape_kept (host : Host) (hh : host.hooks.All Handler.Honest) (replies : List Reply) :
    (∀ (p : Program) (depth : Nat),
      ∀ s ∈ (p.execute depth).stores host { input := { replies } }, s.Shaped) ∧
    ∀ (depth : Nat) (ss : List Statement) (m : Machine),
      ∀ s ∈ (executeAll (runBody depth) ss).stores host m, m.store.Extends s := by
  refine ⟨?_, ?_⟩
  · intro p depth s hs
    have hsound := p.stores_sound hh depth Store.sound_initial s hs
    exact hsound.toRegular.shaped
  · intro depth ss m
    have hx : Evaluates (executeAll (runBody depth) ss) := .executeAll (.runBody depth) ss
    exact hx.extends

theorem Probe.handler_honest (p : Probe) (id : Nat) : (p.handler id).Honest := by
  intro count occasion m a ha
  obtain ⟨_, n, -, hn⟩ := Probe.of_mem_assignments ha
  rw [hn]
  trivial

/-- A handler that changes a variable when it is first called and fails the next time. -/
def Probe.meddler : Probe where
  label := "meddler"
  assign := some (1, "x", 5)
  fail := some (2, .host "enough")

def meddlers : Registry Handler where
  subscriptions := [(.beforeStatement, [{ handler := Probe.meddler.handler 0 }])]

theorem shape_kept_meddlers :
    meddlers.All Handler.Honest ∧
      ∀ (p : Program) (depth : Nat),
        ∀ s ∈ (p.execute depth).stores { hooks := meddlers } {}, s.Shaped := by
  have hh : meddlers.All Handler.Honest := .single (Probe.meddler.handler_honest 0)
  exact ⟨hh, (shape_kept { hooks := meddlers } hh []).1⟩

end ObjectPascal
