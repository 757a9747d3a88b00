import ObjectPascal.Action
import ObjectPascal.Proofs.Plain

/-!
Well-formed stores: every number is one of the Integer type, method bodies are plain, and a class
that has a constructor has a method for it. The operations of the store keep this.
-/

namespace ObjectPascal

/-! Tables and arrays. -/

namespace Table

variable {α β : Type} {P : α → Prop}

/-- Every entry is so. -/
def All (P : α → Prop) (t : Table α) : Prop :=
  ∀ e ∈ t.entries, P e.2

theorem all_empty : All P {} :=
  nofun

theorem All.find? {t : Table α} (h : t.All P) {k : Key} {a : α} (hf : t.find? k = some a) :
    P a := by
  obtain ⟨es⟩ := t
  simp only [Table.find?] at hf
  induction es with
  | nil => cases hf
  | cons e es ih =>
    rw [findIn] at hf
    split at hf
    · cases hf
      exact h e List.mem_cons_self
    · exact ih (fun e' he => h e' (List.mem_cons_of_mem _ he)) hf

theorem All.insert {t : Table α} (h : t.All P) (k : Key) {a : α} (ha : P a) :
    (t.insert k a).All P := by
  obtain ⟨es⟩ := t
  simp only [All, Table.insert] at h ⊢
  induction es with
  | nil =>
    intro e he
    rw [List.mem_singleton.mp he]
    exact ha
  | cons e es ih =>
    have hes := ih fun e' he => h e' (List.mem_cons_of_mem _ he)
    rw [insertIn]
    split
    · exact List.forall_mem_cons.mpr ⟨ha, fun e' he => h e' (List.mem_cons_of_mem _ he)⟩
    · exact List.forall_mem_cons.mpr ⟨h e List.mem_cons_self, hes⟩

theorem all_map {t : Table β} {f : β → α} (h : ∀ b, P (f b)) : (t.map f).All P := by
  intro e he
  obtain ⟨e', -, rfl⟩ := List.mem_map.mp he
  exact h e'.2

/-- A name that is in a table stays in it. -/
theorem contains_insert {t : Table α} {k : Key} (k' : Key) (a : α) (h : t.contains k) :
    (t.insert k' a).contains k := by
  by_cases hk : k = k'
  · rw [hk, contains, find?_insert_self]
    rfl
  · rwa [contains, find?_insert_of_ne t a hk]

end Table

section

variable {α : Type} {P : α → Prop} {xs : Array α}

theorem getD_of_forall [Inhabited α] (h : ∀ a ∈ xs, P a) (hd : P default) (i : Nat) :
    P (xs.getD i default) := by
  rw [Array.getD_eq_getD_getElem?]
  cases hx : xs[i]? with
  | none => exact hd
  | some a => exact h a (Array.mem_of_getElem? hx)

theorem forall_mem_push (h : ∀ a ∈ xs, P a) {a : α} (ha : P a) : ∀ b ∈ xs.push a, P b := by
  intro b hb
  rcases Array.mem_push.mp hb with hb | rfl
  · exact h b hb
  · exact ha

theorem forall_mem_modify (h : ∀ a ∈ xs, P a) (i : Nat) {f : α → α} (hf : ∀ a, P a → P (f a)) :
    ∀ b ∈ xs.modify i f, P b := by
  intro b hb
  obtain ⟨j, hj, rfl⟩ := Array.getElem_of_mem hb
  rw [Array.getElem_modify]
  split
  · exact hf _ (h _ (Array.getElem_mem _))
  · exact h _ (Array.getElem_mem _)

end

/-! Values, frames, objects and classes. -/

/-- A number is one of the Integer type. -/
def Value.Fits : Value → Prop
  | .int n => Word.InRange n
  | _ => True

theorem Value.fits_zero : (Value.int 0).Fits := by
  change Word.InRange 0
  decide

structure Frame.Wellformed (f : Frame) : Prop where
  slots : f.slots.All fun slot => slot.value.Fits
  result : f.result.Fits

def Object.Wellformed (o : Object) : Prop :=
  o.fields.All Value.Fits

/-- The body, if there is one, is plain. -/
def Method.Plain (m : Method) : Prop :=
  ∀ ss, m.body = some ss → Every Statement.Plain ss

structure Class.Wellformed (c : Class) : Prop where
  methods : c.methods.All fun e => e.method.Plain
  bound : ∀ k, c.constructorKey = some k → c.methods.contains k

namespace Frame.Wellformed

variable {f : Frame}

theorem of_name (name : String) (location : Option Location) (resultName : Option String) :
    Frame.Wellformed { name, callLocation := location, resultName } :=
  ⟨Table.all_empty, Value.fits_zero⟩

theorem declare (h : f.Wellformed) (name : String) {v : Value} (hv : v.Fits) :
    (f.declare name v).Wellformed :=
  ⟨h.slots.insert _ hv, h.result⟩

theorem declareAll (h : f.Wellformed) {bindings : List (String × Value)}
    (hb : ∀ b ∈ bindings, b.2.Fits) : (f.declareAll bindings).Wellformed := by
  induction bindings generalizing f with
  | nil => exact h
  | cons b bindings ih =>
    have hfirst := h.declare b.1 (hb b List.mem_cons_self)
    exact ih hfirst fun b' hb' => hb b' (List.mem_cons_of_mem _ hb')

theorem set (h : f.Wellformed) (name : String) {v : Value} (hv : v.Fits) :
    (f.set name v).Wellformed :=
  ⟨h.slots.insert _ hv, h.result⟩

theorem recordResult (h : f.Wellformed) {v : Value} (hv : v.Fits) :
    (f.recordResult v).Wellformed :=
  ⟨h.slots, hv⟩

theorem get? (h : f.Wellformed) {name : String} {v : Value} (hv : f.get? name = some v) :
    v.Fits := by
  obtain ⟨slot, hs, rfl⟩ := Option.map_eq_some_iff.mp hv
  exact h.slots.find? hs

end Frame.Wellformed

namespace Class.Wellformed

variable {c : Class}

theorem of_name (name : String) : Class.Wellformed { name } :=
  ⟨Table.all_empty, nofun⟩

theorem addField (h : c.Wellformed) (name : String) (visibility : Visibility) :
    (c.addField name visibility).Wellformed :=
  ⟨h.methods, h.bound⟩

theorem addFields (h : c.Wellformed) (names : List String) (visibility : Visibility) :
    (names.foldl (fun c name => c.addField name visibility) c).Wellformed := by
  induction names generalizing c with
  | nil => exact h
  | cons name names ih => exact ih (h.addField name visibility)

/-- Putting in a method and binding it, if it is a constructor, by the name it was put in under. -/
theorem insert_bind (h : c.Wellformed) {m : Method} (hm : m.Plain)
    (visibility : Option Visibility) :
    (Class.bind { c with methods := c.methods.insert m.key ⟨m, visibility⟩ } m).Wellformed := by
  have hmethods : (c.methods.insert m.key ⟨m, visibility⟩).All fun e => e.method.Plain :=
    h.methods.insert _ hm
  have hkept : ∀ k, c.constructorKey = some k →
      (c.methods.insert m.key ⟨m, visibility⟩).contains k :=
    fun k hk => Table.contains_insert _ _ (h.bound k hk)
  unfold Class.bind
  cases m.kind with
  | constructor =>
    refine ⟨hmethods, ?_⟩
    intro k hk
    cases hk
    simp [Table.contains]
  | destructor => exact ⟨hmethods, hkept⟩
  | procedure => exact ⟨hmethods, hkept⟩
  | function => exact ⟨hmethods, hkept⟩

theorem declareMethod (h : c.Wellformed) (name : String) (kind : MethodKind)
    (params : List String) (visibility : Visibility) :
    (c.declareMethod name kind params visibility).Wellformed := by
  unfold Class.declareMethod
  dsimp only
  split
  · exact h
  · exact h.insert_bind (m := ⟨c.name, name, kind, kind = .function, params, none⟩) nofun _

theorem attachMethod (h : c.Wellformed) {m : Method} (hm : m.Plain) :
    (c.attachMethod m).Wellformed :=
  h.insert_bind hm _

theorem addMember (h : c.Wellformed) (visibility : Visibility) {m : Member} (hm : m.Plain) :
    ∃ c', c.addMember visibility m = .ok c' ∧ c'.Wellformed := by
  cases m with
  | field group => exact ⟨_, rfl, h.addFields group.names visibility⟩
  | method header => exact ⟨_, rfl, h.declareMethod _ _ _ _⟩
  | bare => exact hm.elim

theorem addMembers (h : c.Wellformed) (visibility : Visibility) {ms : List Member}
    (hms : Every Member.Plain ms) :
    ∃ c', Class.addMembers visibility ms c = .ok c' ∧ c'.Wellformed := by
  induction ms generalizing c with
  | nil => exact ⟨c, rfl, h⟩
  | cons m ms ih =>
    obtain ⟨c₁, he, hw⟩ := h.addMember visibility (hms m List.mem_cons_self)
    rw [Class.addMembers, he]
    exact ih hw fun m' hm' => hms m' (List.mem_cons_of_mem _ hm')

theorem addItems (h : c.Wellformed) (visibility : Visibility) {items : List ClassItem}
    (hi : Every ClassItem.Plain items) :
    ∃ c', Class.addItems visibility items c = .ok c' ∧ c'.Wellformed := by
  induction items generalizing c visibility with
  | nil => exact ⟨c, rfl, h⟩
  | cons item items ih =>
    have hfirst := hi item List.mem_cons_self
    have hrest : Every ClassItem.Plain items := fun i hi' => hi i (List.mem_cons_of_mem _ hi')
    cases item with
    | member m =>
      obtain ⟨c₁, he, hw⟩ := h.addMember visibility hfirst
      rw [Class.addItems, he]
      exact ih hw visibility hrest
    | marked loc v ms =>
      obtain ⟨c₁, he, hw⟩ := h.addMembers v hfirst
      rw [Class.addItems, he]
      exact ih hw v hrest

/-- A plain declaration describes a class, which is well formed. -/
theorem ofDecl {d : ClassDecl} (h : d.Plain) : ∃ c, Class.ofDecl d = .ok c ∧ c.Wellformed :=
  (of_name d.name).addItems .publ h

theorem findMethod? (h : c.Wellformed) {name : String} {m : Method}
    (hm : c.findMethod? name = some m) : m.Plain := by
  obtain ⟨e, he, rfl⟩ := Option.map_eq_some_iff.mp hm
  exact h.methods.find? he

theorem constructor? (h : c.Wellformed) {m : Method} (hm : c.constructor? = some m) :
    m.Plain := by
  obtain ⟨e, he, rfl⟩ := Option.map_eq_some_iff.mp hm
  obtain ⟨k, -, hf⟩ := Option.bind_eq_some_iff.mp he
  exact h.methods.find? hf

/-- A class whose constructor has a name has a method of that name. -/
theorem constructor?_isSome (h : c.Wellformed) {name : String} (hn : c.isConstructor name) :
    c.constructor?.isSome := by
  have hk : c.constructorKey = some (Key.of name) := by simpa [Class.isConstructor] using hn
  have hc := h.bound _ hk
  simpa [Class.constructor?, hk, Table.contains] using hc

end Class.Wellformed

/-! Faults. -/

/-- Kinds of faults that a program can be blamed for. -/
def Cause.isProper : Cause → Bool
  | .unsupportedStatement | .unsupportedExpression | .unsupportedMember | .unknownOperator _
  | .internal _ | .observerFailed .. | .announced .. => false
  | _ => true

/-- A result with `Q`, or a fault that a program can be blamed for. -/
def Expects {α : Type} (r : Except Cause α) (Q : α → Prop) : Prop :=
  match r with
  | .ok a => Q a
  | .error c => c.isProper = true

theorem Expects.bind {α β : Type} {r : Except Cause α} {f : α → Except Cause β} {Q : α → Prop}
    {Q' : β → Prop} (hr : Expects r Q) (hf : ∀ a, Q a → Expects (f a) Q') :
    Expects (r >>= f) Q' := by
  cases r with
  | ok a => exact hf a hr
  | error c => exact hr

/-! Stores. -/

structure Store.Wellformed (s : Store) : Prop where
  classes : ∀ c ∈ s.classes, c.Wellformed
  objects : ∀ o ∈ s.objects, o.Wellformed
  frames : ∀ f ∈ s.frames, f.Wellformed

/-- A method that has a body, a plain one. -/
structure Method.Runnable (m : Method) : Prop where
  implemented : m.implemented = true
  plain : m.Plain

namespace Store.Wellformed

variable {s : Store}

theorem initial : Store.Wellformed {} := by
  refine ⟨by simp, by simp, ?_⟩
  intro f hf
  rw [Array.mem_singleton.mp hf]
  exact .of_name _ none none

theorem classOf (h : s.Wellformed) (id : ClassId) : (s.classOf id).Wellformed :=
  getD_of_forall h.classes ⟨Table.all_empty, nofun⟩ id

theorem object (h : s.Wellformed) (id : ObjectId) : (s.object id).Wellformed :=
  getD_of_forall h.objects Table.all_empty id

theorem frame (h : s.Wellformed) (id : FrameId) : (s.frame id).Wellformed :=
  getD_of_forall h.frames (.of_name _ none none) id

/-! What is read is well formed. -/

theorem lookup (h : s.Wellformed) (name : String) : Expects (s.lookup name) Value.Fits := by
  unfold Store.lookup
  split
  · next v hv =>
    unfold Store.lookup? at hv
    split at hv
    · cases hv
    · exact (h.frame _).get? hv
    · exact (h.object _).find? hv
  · rfl

theorem requireSelf (s : Store) : Expects s.requireSelf fun _ => True := by
  unfold Store.requireSelf
  split
  · trivial
  · rfl

theorem checkAccess (s : Store) (id : ClassId) (member : String) (visibility : Visibility) :
    Expects (s.checkAccess id member visibility) fun _ => True := by
  unfold Store.checkAccess
  split
  · trivial
  · rfl

theorem readField (h : s.Wellformed) (id : ObjectId) (field : String) :
    Expects (s.readField id field) Value.Fits := by
  refine (checkAccess s _ _ _).bind fun _ _ => ?_
  unfold Store.getField
  split
  · next v hv => exact (h.object id).find? hv
  · rfl

theorem findConstructor (h : s.Wellformed) (id : ClassId) (member : String) :
    Expects (s.findConstructor id member) Method.Runnable := by
  unfold Store.findConstructor
  dsimp only
  split
  · split
    · next m hm =>
      split
      · next hi => exact ⟨hi, (h.classOf id).constructor? hm⟩
      · rfl
    · rfl
  · rfl

theorem findMethod (h : s.Wellformed) (id : ObjectId) (member : String) :
    Expects (s.findMethod id member) fun r => r.1.Runnable := by
  refine (checkAccess s _ _ _).bind fun _ _ => ?_
  split
  · next m hm =>
    split
    · next hi => exact ⟨hi, (h.classOf _).findMethod? hm⟩
    · rfl
  · rfl

/-! What is changed stays well formed. -/

theorem updateFrame (h : s.Wellformed) (id : FrameId) {f : Frame → Frame}
    (hf : ∀ g, g.Wellformed → (f g).Wellformed) : (s.updateFrame id f).Wellformed :=
  ⟨h.classes, h.objects, forall_mem_modify h.frames id hf⟩

theorem setField (h : s.Wellformed) (id : ObjectId) (name : String) {v : Value} (hv : v.Fits) :
    Expects (s.setField id name v) Store.Wellformed := by
  have hset : ∀ o : Object, o.Wellformed →
      Object.Wellformed { o with fields := o.fields.insert (Key.of name) v } :=
    fun o ho => Table.All.insert ho _ hv
  unfold Store.setField
  split
  · exact ⟨h.classes, forall_mem_modify h.objects id hset, h.frames⟩
  · rfl

theorem writeField (h : s.Wellformed) (id : ObjectId) (field : String) {v : Value}
    (hv : v.Fits) : Expects (s.writeField id field v) Store.Wellformed :=
  (checkAccess s _ _ _).bind fun _ _ => h.setField id field hv

theorem assign (h : s.Wellformed) (name : String) {v : Value} (hv : v.Fits) :
    Expects (s.assign name v) Store.Wellformed := by
  unfold Store.assign
  split
  · rfl
  · exact h.updateFrame _ fun f hf => hf.set name hv
  · exact h.setField _ name hv

theorem assignName (h : s.Wellformed) (name : String) {v : Value} (hv : v.Fits) :
    Expects (s.assignName name v) Store.Wellformed := by
  unfold Store.assignName
  dsimp only
  split
  · exact h.updateFrame _ fun f hf => hf.recordResult hv
  · exact h.assign name hv

theorem declareGlobal (h : s.Wellformed) (name : String) {v : Value} (hv : v.Fits) :
    (s.declareGlobal name v).Wellformed :=
  h.updateFrame _ fun _ hf => hf.declare name hv

theorem defineNew (h : s.Wellformed) {c : Class} (hc : c.Wellformed) :
    Expects (s.defineNew c) Store.Wellformed := by
  unfold Store.defineNew Store.define
  dsimp only
  split
  · rfl
  · exact ⟨forall_mem_push h.classes hc, h.objects, h.frames⟩

theorem attachMethod (h : s.Wellformed) (className : String) {method : String → Method}
    (hm : ∀ name, (method name).Plain) :
    Expects (s.attachMethod className method) fun r => r.1.Wellformed := by
  unfold Store.attachMethod Store.getClass
  split
  · exact ⟨forall_mem_modify h.classes _ fun c hc => hc.attachMethod (hm _), h.objects, h.frames⟩
  · rfl

theorem newObject (h : s.Wellformed) (id : ClassId) : (s.newObject id).1.Wellformed := by
  have ho : Object.Wellformed ⟨id, (s.classOf id).fields.map fun _ => .int 0⟩ :=
    Table.all_map fun _ => Value.fits_zero
  exact ⟨h.classes, forall_mem_push h.objects ho, h.frames⟩

theorem newFrame (h : s.Wellformed) {f : Frame} (hf : f.Wellformed) :
    (s.newFrame f).1.Wellformed :=
  ⟨h.classes, h.objects, forall_mem_push h.frames hf⟩

end Store.Wellformed

/-- The frame of a call is well formed if the arguments are. -/
theorem Method.frame_wellformed (m : Method) {args : List Value} (h : Every Value.Fits args)
    (location : Option Location) : (m.frame args location).Wellformed := by
  apply (Frame.Wellformed.of_name _ _ _).declareAll
  intro b hb
  exact h b.2 (List.of_mem_zip hb).2

end ObjectPascal
