import ObjectPascal.Proofs.Extension
import ObjectPascal.Proofs.Lockstep
import ObjectPascal.Proofs.Wellformed

/-!
Stores that differ in spelling. Two stores that name the same things, each in its own letter case,
are changed in the same way by the same requests, as long as classes share no name with anything
else.
-/

namespace ObjectPascal

/-! Tables and arrays side by side. -/

theorem isSome_eq_of_rel {α β : Type} {r : α → β → Prop} {o : Option α} {o' : Option β}
    (h : Option.Rel r o o') : o'.isSome = o.isSome := by
  cases h <;> rfl

namespace Table

variable {α β γ : Type} {r : Key → α → β → Prop} {t : Table α} {t' : Table β}

/-- The same keys in the same order, each with data that are related. -/
def Rel (r : Key → α → β → Prop) (t : Table α) (t' : Table β) : Prop :=
  List.Forall₂ (fun e e' => e'.1 = e.1 ∧ r e.1 e.2 e'.2) t.entries t'.entries

theorem Rel.empty : Rel r {} {} :=
  .nil

theorem Rel.find? (h : t.Rel r t') (k : Key) : Option.Rel (r k) (t.find? k) (t'.find? k) := by
  obtain ⟨es⟩ := t
  obtain ⟨es'⟩ := t'
  dsimp only [Rel] at h
  unfold Table.find?
  induction h with
  | nil => exact .none
  | @cons e e' es es' he _ ih =>
    obtain ⟨k₁, a⟩ := e
    obtain ⟨k₂, a'⟩ := e'
    obtain ⟨hkey, hdata⟩ := he
    obtain rfl : k₂ = k₁ := hkey
    unfold findIn
    split
    · next hk =>
      rw [← hk]
      exact .some hdata
    · exact ih

theorem Rel.contains (h : t.Rel r t') (k : Key) : t'.contains k = t.contains k := by
  exact isSome_eq_of_rel (h.find? k)

theorem Rel.insert (h : t.Rel r t') {k : Key} {a : α} {a' : β} (ha : r k a a') :
    (t.insert k a).Rel r (t'.insert k a') := by
  obtain ⟨es⟩ := t
  obtain ⟨es'⟩ := t'
  dsimp only [Rel] at h ⊢
  unfold Table.insert
  induction h with
  | nil => exact .cons ⟨rfl, ha⟩ .nil
  | @cons e e' es es' he htail ih =>
    obtain ⟨k₁, b⟩ := e
    obtain ⟨k₂, b'⟩ := e'
    obtain ⟨hkey, hdata⟩ := he
    obtain rfl : k₂ = k₁ := hkey
    unfold insertIn
    split
    · next hk =>
      refine .cons ⟨rfl, ?_⟩ htail
      change r k₂ a a'
      rw [hk]
      exact ha
    · exact .cons ⟨rfl, hdata⟩ ih

theorem Rel.map_eq (h : t.Rel r t') {f : α → γ} {g : β → γ}
    (hfg : ∀ k a a', r k a a' → g a' = f a) : t'.map g = t.map f := by
  obtain ⟨es⟩ := t
  obtain ⟨es'⟩ := t'
  dsimp only [Rel] at h
  unfold Table.map
  congr 1
  induction h with
  | nil => rfl
  | @cons e e' es es' he _ ih =>
    have hhead : (e'.1, g e'.2) = (e.1, f e.2) := by rw [he.1, hfg _ _ _ he.2]
    exact List.cons_eq_cons.mpr ⟨hhead, ih⟩

/-- A name that is in both tables is related to itself by what it stands for. -/
theorem Rel.of_contains (h : t.Rel r t') {k : Key} (hk : t.contains k) : ∃ a a', r k a a' := by
  have hrel := h.find? k
  unfold Table.contains at hk
  generalize t.find? k = found at hrel hk
  generalize t'.find? k = found' at hrel
  cases hrel with
  | some hdata => exact ⟨_, _, hdata⟩
  | none => cases hk

end Table

section

variable {α β : Type} {r : α → β → Prop} {xs : Array α} {ys : Array β}

theorem forall₂_getElem? {l : List α} {l' : List β} (h : List.Forall₂ r l l') (i : Nat) :
    Option.Rel r l[i]? l'[i]? := by
  induction h generalizing i with
  | nil => exact .none
  | cons hfirst _ ih =>
    cases i with
    | zero => exact .some hfirst
    | succ i => exact ih i

theorem forall₂_getD [Inhabited α] [Inhabited β] (h : List.Forall₂ r xs.toList ys.toList)
    (hd : r default default) (i : Nat) : r (xs.getD i default) (ys.getD i default) := by
  rw [Array.getD_eq_getD_getElem?, Array.getD_eq_getD_getElem?, ← Array.getElem?_toList,
    ← Array.getElem?_toList]
  have hi := forall₂_getElem? h i
  generalize xs.toList[i]? = x at hi
  generalize ys.toList[i]? = y at hi
  cases hi with
  | none => exact hd
  | some hr => exact hr

theorem forall₂_push (h : List.Forall₂ r xs.toList ys.toList) {a : α} {b : β} (hab : r a b) :
    List.Forall₂ r (xs.push a).toList (ys.push b).toList := by
  rw [Array.toList_push, Array.toList_push]
  exact List.rel_append h (.cons hab .nil)

theorem forall₂_modify (h : List.Forall₂ r xs.toList ys.toList) (i : Nat) {f : α → α} {g : β → β}
    (hfg : ∀ a b, r a b → r (f a) (g b)) :
    List.Forall₂ r (xs.modify i f).toList (ys.modify i g).toList := by
  rw [Array.toList_modify, Array.toList_modify]
  generalize xs.toList = l at h
  generalize ys.toList = l' at h
  induction h generalizing i with
  | nil =>
    cases i <;> exact .nil
  | cons hfirst htail ih =>
    cases i with
    | zero => exact .cons (hfg _ _ hfirst) htail
    | succ i => exact .cons hfirst (ih i)

end

/-! Names, classes and frames. -/

/-- Names count as the same whatever their letter case; places do not count. -/
def Reading.caseless : Reading where
  names name name' := Key.of name' = Key.of name
  places _ _ := True

theorem Key.of_append (a b : String) : Key.of (a ++ b) = ⟨(Key.of a).text ++ (Key.of b).text⟩ := by
  unfold Key.of
  rw [String.toList_append, List.map_append, String.ofList_append]

theorem Key.of_append_congr {a a' b b' : String} (ha : Key.of a' = Key.of a)
    (hb : Key.of b' = Key.of b) : Key.of (a' ++ b') = Key.of (a ++ b) := by
  rw [Key.of_append, Key.of_append, ha, hb]

/-- Open to everyone, or to the methods of the class only. -/
def Visibility.Alike (v v' : Visibility) : Prop :=
  v' = .publ ↔ v = .publ

section

variable (K : List Key)

/-- The same name, and not one of `K`. -/
def Named (name name' : String) : Prop :=
  Key.of name' = Key.of name ∧ Key.of name ∉ K

structure Method.Alike (m m' : Method) : Prop where
  className : Key.of m'.className = Key.of m.className
  name : Key.of m'.name = Key.of m.name
  kind : m'.kind = m.kind
  isFunction : m'.isFunction = m.isFunction
  params : List.Forall₂ (Named K) m.params m'.params
  body : Option.Rel (List.Forall₂ (Statement.Alike .caseless)) m.body m'.body

structure MethodEntry.Alike (e e' : MethodEntry) : Prop where
  method : e.method.Alike K e'.method
  visibility : Option.Rel Visibility.Alike e.visibility e'.visibility

/-- The same members in the same order; no field has a name of `K`. -/
structure Class.Alike (c c' : Class) : Prop where
  name : Key.of c'.name = Key.of c.name
  fields : c.fields.Rel (fun k e e' => k ∉ K ∧ e.visibility.Alike e'.visibility) c'.fields
  methods : c.methods.Rel (fun _ => MethodEntry.Alike K) c'.methods
  constructorKey : c'.constructorKey = c.constructorKey
  destructorKey : c'.destructorKey = c.destructorKey

/-- The same variables in the same order with the same values; none has a name of `K`. -/
structure Frame.Alike (f f' : Frame) : Prop where
  slots : f.slots.Rel (fun k slot slot' => k ∉ K ∧ slot'.value = slot.value) f'.slots
  resultName : Option.Rel Reading.caseless.names f.resultName f'.resultName
  result : f'.result = f.result

/-- Stores that differ in spelling. Classes have their names in `K`, and nothing else has. -/
structure Store.Alike (s s' : Store) : Prop where
  classes : List.Forall₂ (Class.Alike K) s.classes.toList s'.classes.toList
  catalog : s'.catalog = s.catalog
  reserved : ∀ k id, s.catalog.find? k = some id → k ∈ K
  objects : s'.objects = s.objects
  fields : ∀ o ∈ s.objects, ∀ k, o.fields.contains k → k ∉ K
  frames : List.Forall₂ (Frame.Alike K) s.frames.toList s'.frames.toList
  calls : s'.calls = s.calls

end

variable {K : List Key}

namespace Method.Alike

variable {m m' : Method}

theorem key (h : m.Alike K m') : m'.key = m.key :=
  h.name

theorem qualifiedName (h : m.Alike K m') :
    Key.of m'.qualifiedName = Key.of m.qualifiedName :=
  Key.of_append_congr (Key.of_append_congr h.className rfl) h.name

theorem implemented (h : m.Alike K m') : m'.implemented = m.implemented :=
  isSome_eq_of_rel h.body

end Method.Alike

namespace Class.Alike

variable {c c' : Class} {name name' : String}

theorem fieldVisibility (h : c.Alike K c') (hn : Key.of name' = Key.of name) :
    (c.fieldVisibility name).Alike (c'.fieldVisibility name') := by
  unfold Class.fieldVisibility
  rw [hn]
  have hfound := h.fields.find? (Key.of name)
  generalize c.fields.find? (Key.of name) = found at hfound
  generalize c'.fields.find? (Key.of name) = found' at hfound
  cases hfound with
  | none => exact Iff.rfl
  | some hentry => exact hentry.2

theorem methodVisibility (h : c.Alike K c') (hn : Key.of name' = Key.of name) :
    (c.methodVisibility name).Alike (c'.methodVisibility name') := by
  unfold Class.methodVisibility
  rw [hn]
  have hfound := h.methods.find? (Key.of name)
  generalize c.methods.find? (Key.of name) = found at hfound
  generalize c'.methods.find? (Key.of name) = found' at hfound
  cases hfound with
  | none => exact Iff.rfl
  | @some e e' hentry =>
    have hvisibility := hentry.visibility
    change ((e.visibility).getD .publ).Alike ((e'.visibility).getD .publ)
    generalize e.visibility = v at hvisibility
    generalize e'.visibility = v' at hvisibility
    cases hvisibility with
    | none => exact Iff.rfl
    | some hv => exact hv

theorem method_rel {o : Option MethodEntry} {o' : Option MethodEntry}
    (h : Option.Rel (MethodEntry.Alike K) o o') :
    Option.Rel (Method.Alike K) (o.map MethodEntry.method) (o'.map MethodEntry.method) := by
  cases h with
  | none => exact .none
  | some hentry => exact .some hentry.method

theorem findMethod? (h : c.Alike K c') (hn : Key.of name' = Key.of name) :
    Option.Rel (Method.Alike K) (c.findMethod? name) (c'.findMethod? name') := by
  unfold Class.findMethod?
  rw [hn]
  exact method_rel (h.methods.find? _)

theorem constructor? (h : c.Alike K c') :
    Option.Rel (Method.Alike K) c.constructor? c'.constructor? := by
  unfold Class.constructor?
  rw [h.constructorKey]
  cases c.constructorKey with
  | none => exact .none
  | some k => exact method_rel (h.methods.find? k)

theorem isConstructor (h : c.Alike K c') (hn : Key.of name' = Key.of name) :
    c'.isConstructor name' = c.isConstructor name := by
  unfold Class.isConstructor
  rw [h.constructorKey, hn]

theorem isDestructor (h : c.Alike K c') (hn : Key.of name' = Key.of name) :
    c'.isDestructor name' = c.isDestructor name := by
  unfold Class.isDestructor
  rw [h.destructorKey, hn]

theorem addField (h : c.Alike K c') (hn : Named K name name') {v v' : Visibility}
    (hv : v.Alike v') : (c.addField name v).Alike K (c'.addField name' v') := by
  unfold Class.addField
  rw [hn.1]
  exact { h with fields := h.fields.insert ⟨hn.2, hv⟩ }

theorem bind (h : c.Alike K c') {m m' : Method} (hm : m.Alike K m') :
    (c.bind m).Alike K (c'.bind m') := by
  unfold Class.bind
  rw [hm.kind, hm.key]
  cases m.kind with
  | constructor => exact { h with constructorKey := rfl }
  | destructor => exact { h with destructorKey := rfl }
  | procedure => exact h
  | function => exact h

theorem insert (h : c.Alike K c') {m m' : Method} (hm : m.Alike K m') {v v' : Option Visibility}
    (hv : Option.Rel Visibility.Alike v v') (k : Key) :
    Class.Alike K { c with methods := c.methods.insert k ⟨m, v⟩ }
      { c' with methods := c'.methods.insert k ⟨m', v'⟩ } where
  name := h.name
  fields := h.fields
  methods := h.methods.insert ⟨hm, hv⟩
  constructorKey := h.constructorKey
  destructorKey := h.destructorKey

theorem declareMethod (h : c.Alike K c') (hn : Key.of name' = Key.of name) (kind : MethodKind)
    {params params' : List String} (hp : List.Forall₂ (Named K) params params')
    {v v' : Visibility} (hv : v.Alike v') :
    (c.declareMethod name kind params v).Alike K (c'.declareMethod name' kind params' v') := by
  unfold Class.declareMethod
  dsimp only
  rw [hn, h.methods.contains]
  split
  · exact h
  · have hm : Method.Alike K ⟨c.name, name, kind, kind = .function, params, none⟩
        ⟨c'.name, name', kind, kind = .function, params', none⟩ :=
      ⟨h.name, hn, rfl, rfl, hp, .none⟩
    exact (h.insert hm (.some hv) _).bind hm

theorem attachMethod (h : c.Alike K c') {m m' : Method} (hm : m.Alike K m') :
    (c.attachMethod m).Alike K (c'.attachMethod m') := by
  have hvisibility : Option.Rel Visibility.Alike
      ((c.methods.find? m.key).bind MethodEntry.visibility)
      ((c'.methods.find? m.key).bind MethodEntry.visibility) := by
    have hfound := h.methods.find? m.key
    generalize c.methods.find? m.key = found at hfound
    generalize c'.methods.find? m.key = found' at hfound
    cases hfound with
    | none => exact .none
    | some hentry => exact hentry.visibility
  unfold Class.attachMethod
  rw [hm.key]
  exact (h.insert hm hvisibility _).bind hm

end Class.Alike

namespace Frame.Alike

variable {f f' : Frame} {name name' : String}

theorem has (h : f.Alike K f') (hn : Key.of name' = Key.of name) : f'.has name' = f.has name := by
  unfold Frame.has
  rw [hn]
  exact h.slots.contains _

theorem get? (h : f.Alike K f') (hn : Key.of name' = Key.of name) :
    f'.get? name' = f.get? name := by
  unfold Frame.get?
  rw [hn]
  have hfound := h.slots.find? (Key.of name)
  generalize f.slots.find? (Key.of name) = found at hfound
  generalize f'.slots.find? (Key.of name) = found' at hfound
  cases hfound with
  | none => rfl
  | some hslot => exact congrArg some hslot.2

theorem free (h : f.Alike K f') (hhas : f.has name) : Key.of name ∉ K := by
  obtain ⟨_, _, hfree, -⟩ := h.slots.of_contains hhas
  exact hfree

theorem isResult (h : f.Alike K f') (hn : Key.of name' = Key.of name) :
    f'.isResult name' = f.isResult name := by
  have hown := h.resultName
  unfold Frame.isResult
  generalize f.resultName = own at hown
  generalize f'.resultName = own' at hown
  cases hown with
  | none => simp only [Option.any_none]
  | @some a a' hsame =>
    have hsame' : Key.of a' = Key.of a := hsame
    simp only [Option.any_some, hsame', hn]

theorem declare (h : f.Alike K f') (hn : Named K name name') (v : Value) :
    (f.declare name v).Alike K (f'.declare name' v) := by
  unfold Frame.declare
  rw [hn.1]
  exact { h with slots := h.slots.insert ⟨hn.2, rfl⟩ }

theorem declareAll (h : f.Alike K f') {names names' : List String}
    (hn : List.Forall₂ (Named K) names names') (vs : List Value) :
    (f.declareAll (names.zip vs)).Alike K (f'.declareAll (names'.zip vs)) := by
  induction hn generalizing f f' vs with
  | nil => exact h
  | cons hfirst _ ih =>
    cases vs with
    | nil => exact h
    | cons v vs => exact ih (h.declare hfirst v) vs

theorem set (h : f.Alike K f') (hn : Named K name name') (v : Value) :
    (f.set name v).Alike K (f'.set name' v) := by
  unfold Frame.set
  rw [hn.1]
  exact { h with slots := h.slots.insert ⟨hn.2, rfl⟩ }

theorem recordResult (h : f.Alike K f') (v : Value) :
    (f.recordResult v).Alike K (f'.recordResult v) :=
  ⟨h.slots, h.resultName, rfl⟩

end Frame.Alike

theorem Method.Alike.frame {m m' : Method} (h : m.Alike K m') (args : List Value)
    (location location' : Option Location) :
    (m.frame args location).Alike K (m'.frame args location') := by
  unfold Method.frame
  apply Frame.Alike.declareAll _ h.params
  refine ⟨.empty, ?_, rfl⟩
  dsimp only
  rw [h.isFunction]
  split
  · exact .some h.name
  · exact .none

/-! Stores. -/

/-- Results with `Q`, or faults of one kind under one rule. -/
def Tallies {α β : Type} (Q : α → β → Prop) : Except Cause α → Except Cause β → Prop
  | .ok a, .ok b => Q a b
  | .error c, .error c' => c'.kind = c.kind ∧ c'.rule = c.rule
  | _, _ => False

theorem Tallies.bind {α β α' β' : Type} {Q : α → β → Prop} {Q' : α' → β' → Prop}
    {r : Except Cause α} {r' : Except Cause β} {f : α → Except Cause α'} {g : β → Except Cause β'}
    (h : Tallies Q r r') (hf : ∀ a b, Q a b → Tallies Q' (f a) (g b)) :
    Tallies Q' (r >>= f) (r' >>= g) := by
  cases r with
  | ok a =>
    cases r' with
    | ok b => exact hf a b h
    | error c' => exact h.elim
  | error c =>
    cases r' with
    | ok b => exact h.elim
    | error c' => exact h

theorem Table.find?_map {α β : Type} (f : α → β) (t : Table α) (k : Key) :
    (t.map f).find? k = (t.find? k).map f := by
  obtain ⟨es⟩ := t
  unfold find? Table.map
  induction es with
  | nil => rfl
  | cons e es ih =>
    obtain ⟨k₁, a⟩ := e
    change (if k₁ = k then some (f a) else findIn k (es.map _)) =
      (if k₁ = k then some a else findIn k es).map f
    split
    · rfl
    · exact ih

theorem Table.contains_insert_iff {α : Type} (t : Table α) (k k' : Key) (a : α) :
    (t.insert k a).contains k' ↔ k' = k ∨ t.contains k' := by
  unfold contains
  by_cases hk : k' = k
  · rw [hk, find?_insert_self]
    exact ⟨fun _ => .inl rfl, fun _ => rfl⟩
  · rw [find?_insert_of_ne t a hk]
    exact ⟨.inr, fun h => h.resolve_left hk⟩

/-- A name is found only in receivers that have it as a field. -/
theorem Store.hasField_of_owner? {s : Store} {name : String} {id : ObjectId}
    (h : s.owner? name = some (.object id)) : s.hasField id name := by
  unfold owner? at h
  dsimp only at h
  split at h
  · cases h
  · split at h
    · next found hfound =>
      cases h
      exact (Option.filter_eq_some_iff.mp hfound).2
    · obtain ⟨found, -, hid⟩ := Option.map_eq_some_iff.mp h
      cases hid

namespace Store.Alike

variable {s s' : Store} {name name' : String}

theorem frame (h : s.Alike K s') (id : FrameId) : (s.frame id).Alike K (s'.frame id) :=
  forall₂_getD h.frames ⟨.empty, .none, rfl⟩ id

theorem classOf (h : s.Alike K s') (id : ClassId) : (s.classOf id).Alike K (s'.classOf id) :=
  forall₂_getD h.classes ⟨rfl, .empty, .empty, rfl, rfl⟩ id

theorem object (h : s.Alike K s') (id : ObjectId) : s'.object id = s.object id := by
  unfold Store.object
  rw [h.objects]

theorem objectClass (h : s.Alike K s') (id : ObjectId) :
    (s.objectClass id).Alike K (s'.objectClass id) := by
  unfold Store.objectClass
  rw [h.object]
  exact h.classOf _

theorem innermost (h : s.Alike K s') : s'.innermost = s.innermost := by
  unfold Store.innermost
  rw [h.calls]

theorem outerFrames (h : s.Alike K s') : s'.outerFrames = s.outerFrames := by
  unfold Store.outerFrames
  rw [h.calls]

theorem liveFrames (h : s.Alike K s') : s'.liveFrames = s.liveFrames := by
  unfold Store.liveFrames
  rw [h.calls]

theorem findClass? (h : s.Alike K s') (hn : Key.of name' = Key.of name) :
    s'.findClass? name' = s.findClass? name := by
  unfold Store.findClass?
  rw [h.catalog, hn]

/-! Looking names up. -/

theorem hasField (h : s.Alike K s') (hn : Key.of name' = Key.of name) (id : ObjectId) :
    s'.hasField id name' = s.hasField id name := by
  unfold Store.hasField
  rw [h.object, hn]

theorem frameWith? (h : s.Alike K s') (hn : Key.of name' = Key.of name) (ids : List FrameId) :
    s'.frameWith? name' ids = s.frameWith? name ids := by
  induction ids with
  | nil => rfl
  | cons id ids ih =>
    unfold Store.frameWith?
    rw [(h.frame id).has hn, ih]

theorem owner? (h : s.Alike K s') (hn : Key.of name' = Key.of name) :
    s'.owner? name' = s.owner? name := by
  have hfields : (fun id => s'.hasField id name') = fun id => s.hasField id name :=
    funext fun id => h.hasField hn id
  unfold Store.owner?
  dsimp only
  rw [h.innermost, (h.frame _).has hn, hfields, h.outerFrames, h.frameWith? hn]

theorem lookup? (h : s.Alike K s') (hn : Key.of name' = Key.of name) :
    s'.lookup? name' = s.lookup? name := by
  unfold Store.lookup?
  rw [h.owner? hn]
  cases s.owner? name with
  | none => rfl
  | some owner =>
    cases owner with
    | frame id => exact (h.frame id).get? hn
    | object id =>
      dsimp only
      rw [h.object, hn]

theorem free_of_hasField (h : s.Alike K s') {id : ObjectId} (hf : s.hasField id name) :
    Key.of name ∉ K :=
  getD_of_forall (P := fun o : Object => ∀ k, o.fields.contains k → k ∉ K) h.fields nofun id _ hf

/-- What is found as a variable has no name of a class. -/
theorem free_of_owner? (h : s.Alike K s') {owner : Owner} (ho : s.owner? name = some owner) :
    Key.of name ∉ K := by
  cases owner with
  | frame id => exact (h.frame id).free (has_of_owner? ho)
  | object id => exact h.free_of_hasField (hasField_of_owner? ho)

theorem lookup?_reserved (h : s.Alike K s') (hk : Key.of name ∈ K) : s.lookup? name = none := by
  unfold Store.lookup?
  cases ho : s.owner? name with
  | none => rfl
  | some owner => exact absurd hk (h.free_of_owner? ho)

theorem lookup (h : s.Alike K s') (hn : Key.of name' = Key.of name) :
    Tallies (fun v v' => v' = v) (s.lookup name) (s'.lookup name') := by
  unfold Store.lookup
  rw [h.lookup? hn]
  cases s.lookup? name with
  | none => exact ⟨rfl, rfl⟩
  | some v => exact rfl

theorem requireSelf (h : s.Alike K s') : s'.requireSelf = s.requireSelf := by
  unfold Store.requireSelf
  rw [h.innermost]

/-- The name of a class stands for the class however it is written, since no variable has it. -/
theorem constructedClass (h : s.Alike K s') (hn : Key.of name' = Key.of name) :
    s'.constructedClass name' = s.constructedClass name := by
  unfold Store.constructedClass
  rw [hn, h.findClass? hn, h.lookup? hn]
  split
  · rfl
  · cases hc : s.findClass? name with
    | none => rfl
    | some id =>
      have hreserved : Key.of name ∈ K := h.reserved _ _ hc
      dsimp only
      rw [h.lookup?_reserved hreserved]
      have hboth : ∀ spelling : String, (if spelling = name then some id
          else if (none : Option Value).isSome then none else some id) = some id := by
        intro spelling
        split <;> rfl
      split
      · exact (hboth _).symm
      · exact (hboth _).symm

/-! Members. -/

theorem inContextOf (h : s.Alike K s') (id : ClassId) :
    s'.inContextOf id = s.inContextOf id := by
  unfold Store.inContextOf
  rw [h.innermost]

theorem checkAccess (h : s.Alike K s') (id : ClassId) (member member' : String)
    {v v' : Visibility} (hv : v.Alike v') :
    Tallies (fun _ _ => True) (s.checkAccess id member v) (s'.checkAccess id member' v') := by
  have hopen : decide (v' = Visibility.publ) = decide (v = Visibility.publ) :=
    decide_eq_decide.mpr hv
  unfold Store.checkAccess
  rw [h.inContextOf, hopen]
  split
  · trivial
  · exact ⟨rfl, rfl⟩

theorem getField (h : s.Alike K s') (hn : Key.of name' = Key.of name) (id : ObjectId) :
    Tallies (fun v v' => v' = v) (s.getField id name) (s'.getField id name') := by
  unfold Store.getField
  rw [h.object, hn]
  cases (s.object id).fields.find? (Key.of name) with
  | none => exact ⟨rfl, rfl⟩
  | some v => exact rfl

theorem readField (h : s.Alike K s') (hn : Key.of name' = Key.of name) (id : ObjectId) :
    Tallies (fun v v' => v' = v) (s.readField id name) (s'.readField id name') := by
  have hv := (h.objectClass id).fieldVisibility hn
  unfold Store.readField
  rw [h.object]
  apply (h.checkAccess _ name name' hv).bind
  intro _ _ _
  exact h.getField hn id

theorem findConstructor (h : s.Alike K s') (hn : Key.of name' = Key.of name) (id : ClassId) :
    Tallies (Method.Alike K) (s.findConstructor id name) (s'.findConstructor id name') := by
  have hbound := (h.classOf id).constructor?
  unfold Store.findConstructor
  dsimp only
  rw [(h.classOf id).isConstructor hn]
  split
  · generalize (s.classOf id).constructor? = found at hbound
    generalize (s'.classOf id).constructor? = found' at hbound
    cases hbound with
    | none => exact ⟨rfl, rfl⟩
    | some hm =>
      dsimp only
      rw [hm.implemented]
      split
      · exact hm
      · exact ⟨rfl, rfl⟩
  · exact ⟨rfl, rfl⟩

theorem findMethod (h : s.Alike K s') (hn : Key.of name' = Key.of name) (id : ObjectId) :
    Tallies (fun r r' => r.1.Alike K r'.1 ∧ r'.2 = r.2) (s.findMethod id name)
      (s'.findMethod id name') := by
  have hclass := h.objectClass id
  have hfound := hclass.findMethod? hn
  unfold Store.findMethod
  dsimp only
  rw [h.object, hclass.isDestructor hn]
  apply (h.checkAccess _ name name' (hclass.methodVisibility hn)).bind
  intro _ _ _
  generalize (s.objectClass id).findMethod? name = found at hfound
  generalize (s'.objectClass id).findMethod? name' = found' at hfound
  cases hfound with
  | none => exact ⟨rfl, rfl⟩
  | some hm =>
    dsimp only
    rw [hm.implemented]
    split
    · exact ⟨hm, rfl⟩
    · exact ⟨rfl, rfl⟩

theorem render (h : s.Alike K s') (v : Value) : Key.of (s'.render v) = Key.of (s.render v) := by
  cases v with
  | int n => rfl
  | nil => rfl
  | object id =>
    exact Key.of_append_congr (Key.of_append_congr rfl (h.objectClass id).name) rfl

/-! Changes. -/

theorem updateFrame (h : s.Alike K s') (id : FrameId) {g g' : Frame → Frame}
    (hg : ∀ f f', f.Alike K f' → (g f).Alike K (g' f')) :
    (s.updateFrame id g).Alike K (s'.updateFrame id g') :=
  { h with frames := forall₂_modify h.frames id hg }

theorem setField (h : s.Alike K s') (hn : Key.of name' = Key.of name) (id : ObjectId)
    (v : Value) :
    Tallies (Store.Alike K) (s.setField id name v) (s'.setField id name' v) := by
  unfold Store.setField
  rw [h.hasField hn, hn, h.objects]
  split
  · next hhas =>
    have hfree := h.free_of_hasField hhas
    refine { h with objects := rfl, fields := ?_ }
    dsimp only
    apply forall_mem_modify h.fields
    intro o ho k hk
    rcases (Table.contains_insert_iff _ _ _ _).mp hk with rfl | hk
    · exact hfree
    · exact ho k hk
  · exact ⟨rfl, rfl⟩

theorem writeField (h : s.Alike K s') (hn : Key.of name' = Key.of name) (id : ObjectId)
    (v : Value) :
    Tallies (Store.Alike K) (s.writeField id name v) (s'.writeField id name' v) := by
  have hv := (h.objectClass id).fieldVisibility hn
  unfold Store.writeField
  rw [h.object]
  apply (h.checkAccess _ name name' hv).bind
  intro _ _ _
  exact h.setField hn id v

theorem assign (h : s.Alike K s') (hn : Key.of name' = Key.of name) (v : Value) :
    Tallies (Store.Alike K) (s.assign name v) (s'.assign name' v) := by
  unfold Store.assign
  rw [h.owner? hn]
  cases ho : s.owner? name with
  | none => exact ⟨rfl, rfl⟩
  | some owner =>
    cases owner with
    | frame id =>
      have hname : Named K name name' := ⟨hn, h.free_of_owner? ho⟩
      exact h.updateFrame id fun f f' hf => hf.set hname v
    | object id => exact h.setField hn id v

theorem assignName (h : s.Alike K s') (hn : Key.of name' = Key.of name) (v : Value) :
    Tallies (Store.Alike K) (s.assignName name v) (s'.assignName name' v) := by
  unfold Store.assignName
  dsimp only
  rw [h.innermost, (h.frame _).isResult hn]
  split
  · exact h.updateFrame _ fun f f' hf => hf.recordResult v
  · exact h.assign hn v

theorem newObject (h : s.Alike K s') (id : ClassId) :
    (s.newObject id).1.Alike K (s'.newObject id).1 ∧ (s'.newObject id).2 = (s.newObject id).2 := by
  have hclass := h.classOf id
  have hfields : (s'.classOf id).fields.map (fun _ => Value.int 0) =
      (s.classOf id).fields.map fun _ => Value.int 0 :=
    hclass.fields.map_eq fun _ _ _ _ => rfl
  unfold Store.newObject
  rw [hfields, h.objects]
  refine ⟨{ h with objects := rfl, fields := ?_ }, rfl⟩
  apply forall_mem_push h.fields
  intro k hk
  have hkey : (s.classOf id).fields.contains k := by
    unfold Table.contains at hk ⊢
    rwa [Table.find?_map, Option.isSome_map] at hk
  obtain ⟨_, _, hfree, -⟩ := hclass.fields.of_contains hkey
  exact hfree

theorem newFrame (h : s.Alike K s') {f f' : Frame} (hf : f.Alike K f') :
    (s.newFrame f).1.Alike K (s'.newFrame f').1 ∧ (s'.newFrame f').2 = (s.newFrame f).2 := by
  refine ⟨{ h with frames := forall₂_push h.frames hf }, ?_⟩
  have hlength := h.frames.length_eq
  exact hlength.symm

theorem enter (h : s.Alike K s') (a : Activation) : (s.enter a).Alike K (s'.enter a) :=
  { h with calls := congrArg (a :: ·) h.calls }

theorem leave (h : s.Alike K s') : s.leave.Alike K s'.leave :=
  { h with calls := congrArg List.tail h.calls }

theorem declareGlobal (h : s.Alike K s') (hn : Named K name name') (v : Value) :
    (s.declareGlobal name v).Alike K (s'.declareGlobal name' v) :=
  h.updateFrame _ fun _ _ hf => hf.declare hn v

theorem defineNew (h : s.Alike K s') {c c' : Class} (hc : c.Alike K c') (hk : Key.of c.name ∈ K) :
    Tallies (Store.Alike K) (s.defineNew c) (s'.defineNew c') := by
  have hsize : s'.classes.size = s.classes.size := h.classes.length_eq.symm
  rw [defineNew_eq, defineNew_eq, hc.name, h.catalog, hsize]
  split
  · exact ⟨rfl, rfl⟩
  · refine { h with classes := forall₂_push h.classes hc, catalog := rfl, reserved := ?_ }
    intro k id hfound
    by_cases hkey : k = Key.of c.name
    · rw [hkey]
      exact hk
    · dsimp only at hfound
      rw [Table.find?_insert_of_ne _ _ hkey] at hfound
      exact h.reserved k id hfound

theorem attachMethod (h : s.Alike K s') (hn : Key.of name' = Key.of name)
    {method method' : String → Method}
    (hm : ∀ a a', Key.of a' = Key.of a → (method a).Alike K (method' a')) :
    Tallies (fun r r' => r.1.Alike K r'.1 ∧ r.2.Alike K r'.2) (s.attachMethod name method)
      (s'.attachMethod name' method') := by
  have hclass : Tallies (fun id id' => id' = id) (s.getClass name) (s'.getClass name') := by
    unfold getClass
    rw [h.findClass? hn]
    cases s.findClass? name with
    | none => exact ⟨rfl, rfl⟩
    | some id => exact rfl
  unfold Store.attachMethod
  apply hclass.bind
  intro id id' hid
  obtain rfl : id' = id := hid
  have hmethod := hm _ _ (h.classOf id').name
  have hclasses := forall₂_modify h.classes id' fun c c' hc => hc.attachMethod hmethod
  exact ⟨{ h with classes := hclasses }, hmethod⟩

end Store.Alike

end ObjectPascal
