import ObjectPascal.Proofs.Moments

/-!
What is left of a store when the values of the non-public fields of a class are blotted out, and
what code outside the class sees of it: just the same.
-/

namespace ObjectPascal

namespace Table

variable {hidden : Key → Bool}

/-- Blots out the values of hidden entries. -/
def conceal (hidden : Key → Bool) (t : Table Value) : Table Value :=
  ⟨t.entries.map fun (k, v) => (k, if hidden k then .int 0 else v)⟩

theorem find?_conceal (t : Table Value) (k : Key) :
    (t.conceal hidden).find? k = (t.find? k).map fun v => if hidden k then .int 0 else v := by
  obtain ⟨es⟩ := t
  simp only [find?, conceal]
  induction es with
  | nil => rfl
  | cons e es ih =>
    obtain ⟨k₁, v₁⟩ := e
    rw [List.map_cons, findIn, findIn]
    by_cases h : k₁ = k
    · rw [if_pos h, if_pos h, h]
      rfl
    · rw [if_neg h, if_neg h, ih]

theorem contains_conceal (t : Table Value) (k : Key) :
    (t.conceal hidden).contains k = t.contains k := by
  rw [contains, find?_conceal, Option.isSome_map]
  rfl

theorem conceal_insert (t : Table Value) {k : Key} (v : Value) (h : hidden k = false) :
    (t.insert k v).conceal hidden = (t.conceal hidden).insert k v := by
  obtain ⟨es⟩ := t
  simp only [insert, conceal, Table.mk.injEq]
  induction es with
  | nil => simp [insertIn, h]
  | cons e es ih =>
    obtain ⟨k₁, v₁⟩ := e
    rw [List.map_cons, insertIn, insertIn]
    by_cases hk : k₁ = k
    · rw [if_pos hk, if_pos hk, List.map_cons, hk]
      simp [h]
    · rw [if_neg hk, if_neg hk, List.map_cons, ih]

end Table

/-- Whether a class has a field of that name that is not public. -/
def Class.hides (c : Class) (k : Key) : Bool :=
  (c.fields.find? k).any fun e => e.visibility ≠ .publ

theorem Class.hides_iff {c : Class} {name : String} :
    c.hides (Key.of name) = true ↔ c.fieldVisibility name ≠ .publ := by
  unfold Class.hides Class.fieldVisibility
  cases c.fields.find? (Key.of name) with
  | none => simp
  | some e => simp

/-- Blots out what an object of class `C` hides. -/
def Object.conceal (C : ClassId) (hidden : Key → Bool) (o : Object) : Object :=
  if o.classId = C then { o with fields := o.fields.conceal hidden } else o

namespace Object

variable {C : ClassId} {hidden : Key → Bool} {o : Object}

@[simp]
theorem conceal_classId : (o.conceal C hidden).classId = o.classId := by
  unfold conceal
  split <;> rfl

theorem conceal_of_ne (h : o.classId ≠ C) : o.conceal C hidden = o :=
  if_neg h

theorem conceal_default : (default : Object).conceal C hidden = default := by
  unfold conceal
  split <;> rfl

theorem contains_conceal (k : Key) :
    (o.conceal C hidden).fields.contains k = o.fields.contains k := by
  unfold conceal
  split
  · exact Table.contains_conceal _ _
  · rfl

/-- A field that is not hidden, or an object that hides nothing, shows its value. -/
theorem find?_conceal {k : Key} (h : o.classId ≠ C ∨ hidden k = false) :
    (o.conceal C hidden).fields.find? k = o.fields.find? k := by
  unfold conceal
  split
  · next hc =>
    have hk := h.resolve_left (not_not_intro hc)
    rw [Table.find?_conceal, hk]
    simp
  · rfl

theorem conceal_insert {k : Key} (v : Value) (h : o.classId ≠ C ∨ hidden k = false) :
    Object.conceal C hidden { o with fields := o.fields.insert k v } =
      { o.conceal C hidden with fields := (o.conceal C hidden).fields.insert k v } := by
  unfold conceal
  by_cases hc : o.classId = C
  · have hk := h.resolve_left (not_not_intro hc)
    rw [if_pos hc, if_pos hc, Table.conceal_insert _ v hk]
  · rw [if_neg hc, if_neg hc]

end Object

namespace Store

/-- Blots out the values of the non-public fields of the instances of class `C`. -/
def conceal (C : ClassId) (s : Store) : Store :=
  { s with objects := s.objects.map (Object.conceal C (s.classOf C).hides) }

variable {C : ClassId} {s : Store}

@[simp]
theorem conceal_classOf (id : ClassId) : (s.conceal C).classOf id = s.classOf id :=
  rfl

@[simp]
theorem conceal_frame (id : FrameId) : (s.conceal C).frame id = s.frame id :=
  rfl

@[simp]
theorem conceal_innermost : (s.conceal C).innermost = s.innermost :=
  rfl

@[simp]
theorem conceal_object (id : ObjectId) :
    (s.conceal C).object id = (s.object id).conceal C (s.classOf C).hides := by
  unfold object conceal
  simp only [Array.getD_eq_getD_getElem?, Array.getElem?_map]
  cases s.objects[id]? with
  | none => exact Object.conceal_default.symm
  | some o => rfl

@[simp]
theorem conceal_objectClass (id : ObjectId) : (s.conceal C).objectClass id = s.objectClass id := by
  simp [objectClass]

@[simp]
theorem conceal_render (v : Value) : (s.conceal C).render v = s.render v := by
  cases v <;> simp [render, objectText]

@[simp]
theorem conceal_snapshot (id : FrameId) : (s.conceal C).snapshot id = s.snapshot id := by
  simp [snapshot]

@[simp]
theorem conceal_hasField (id : ObjectId) (name : String) :
    (s.conceal C).hasField id name = s.hasField id name := by
  simp [hasField, Object.contains_conceal]

@[simp]
theorem conceal_frameWith? (name : String) (ids : List FrameId) :
    (s.conceal C).frameWith? name ids = s.frameWith? name ids := by
  induction ids with
  | nil => rfl
  | cons id ids ih => simp [frameWith?, ih]

@[simp]
theorem conceal_owner? (name : String) : (s.conceal C).owner? name = s.owner? name := by
  simp only [owner?, conceal_innermost, conceal_frame, conceal_hasField, conceal_frameWith?]
  rfl

@[simp]
theorem conceal_checkAccess (id : ClassId) (member : String) (visibility : Visibility) :
    (s.conceal C).checkAccess id member visibility = s.checkAccess id member visibility :=
  rfl

@[simp]
theorem conceal_findMethod (id : ObjectId) (member : String) :
    (s.conceal C).findMethod id member = s.findMethod id member := by
  simp [findMethod]

/-- The innermost call is of a method of another class, on an object of another class. -/
structure Outside (C : ClassId) (s : Store) : Prop where
  context : s.innermost.context ≠ some C
  receiver : ∀ id, s.innermost.receiver = some id → (s.object id).classId ≠ C

/-- A field found under a bare name is one of the receiver. -/
theorem receiver_of_owner? {name : String} {id : ObjectId}
    (h : s.owner? name = some (.object id)) : s.innermost.receiver = some id := by
  unfold owner? at h
  dsimp only at h
  split at h
  · cases h
  · split at h
    · next id' hid =>
      cases h
      exact (Option.mem_filter_iff.mp hid).1
    · obtain ⟨_, _, hf⟩ := Option.map_eq_some_iff.mp h
      cases hf

/-- From outside, a member that may be used is public or belongs to another class. -/
theorem Outside.of_checkAccess (h : s.Outside C) {id : ObjectId} {field : String}
    (ha : s.checkAccess (s.object id).classId field ((s.objectClass id).fieldVisibility field) =
      .ok ()) :
    (s.object id).classId ≠ C ∨ (s.classOf C).hides (Key.of field) = false := by
  by_cases hc : (s.object id).classId = C
  · right
    unfold checkAccess at ha
    split at ha
    · next hv =>
      have hin : s.inContextOf (s.object id).classId = false := by
        simp [inContextOf, hc, h.context]
      have hpub : (s.objectClass id).fieldVisibility field = .publ := by
        simpa [hin] using hv
      rw [objectClass, hc] at hpub
      rw [← Bool.not_eq_true, Class.hides_iff]
      exact not_not_intro hpub
    · cases ha
  · exact .inl hc

/-! Reading from outside. -/

theorem Outside.lookup? (h : s.Outside C) (name : String) :
    (s.conceal C).lookup? name = s.lookup? name := by
  unfold Store.lookup?
  rw [conceal_owner?]
  cases ho : s.owner? name with
  | none => rfl
  | some owner =>
    cases owner with
    | frame id => rfl
    | object id =>
      have hne := h.receiver id (receiver_of_owner? ho)
      change ((s.conceal C).object id).fields.find? _ = _
      rw [conceal_object]
      exact Object.find?_conceal (.inl hne)

theorem Outside.lookup (h : s.Outside C) (name : String) :
    (s.conceal C).lookup name = s.lookup name := by
  unfold Store.lookup
  rw [h.lookup?]

theorem Outside.constructedClass (h : s.Outside C) (left : String) :
    (s.conceal C).constructedClass left = s.constructedClass left := by
  unfold Store.constructedClass
  rw [h.lookup?]
  rfl

theorem Outside.readField (h : s.Outside C) (id : ObjectId) (field : String) :
    (s.conceal C).readField id field = s.readField id field := by
  unfold Store.readField
  simp only [conceal_object, Object.conceal_classId, conceal_objectClass, conceal_checkAccess]
  cases ha : s.checkAccess (s.object id).classId field
      ((s.objectClass id).fieldVisibility field) with
  | error c => rfl
  | ok =>
    change (s.conceal C).getField id field = s.getField id field
    unfold getField
    rw [conceal_object, Object.find?_conceal (h.of_checkAccess ha), conceal_objectClass]

/-! Writing from outside. -/

/-- Changing an object in a way that blotting out does not notice. -/
theorem conceal_modify {id : ObjectId} {f : Object → Object}
    (hf : (f (s.object id)).conceal C (s.classOf C).hides =
      f ((s.object id).conceal C (s.classOf C).hides)) :
    Store.conceal C { s with objects := s.objects.modify id f } =
      { s.conceal C with objects := (s.conceal C).objects.modify id f } := by
  unfold conceal
  simp only [Store.mk.injEq, true_and, and_true]
  apply Array.ext_getElem?
  intro i
  simp only [Array.getElem?_map, Array.getElem?_modify]
  split
  · next hi =>
    subst hi
    unfold object at hf
    rw [Array.getD_eq_getD_getElem?] at hf
    cases ho : s.objects[id]? with
    | none => rfl
    | some o =>
      rw [ho] at hf
      exact congrArg some hf
  · rfl

theorem conceal_setField {id : ObjectId} {name : String} (v : Value)
    (h : (s.object id).classId ≠ C ∨ (s.classOf C).hides (Key.of name) = false) :
    (s.conceal C).setField id name v = (s.setField id name v).map (conceal C) := by
  unfold setField
  rw [conceal_hasField, conceal_objectClass]
  split
  · exact congrArg Except.ok (conceal_modify (Object.conceal_insert v h)).symm
  · rfl

theorem Outside.writeField (h : s.Outside C) (id : ObjectId) (field : String) (v : Value) :
    (s.conceal C).writeField id field v = (s.writeField id field v).map (conceal C) := by
  unfold Store.writeField
  simp only [conceal_object, Object.conceal_classId, conceal_objectClass, conceal_checkAccess]
  cases ha : s.checkAccess (s.object id).classId field
      ((s.objectClass id).fieldVisibility field) with
  | error c => rfl
  | ok => exact conceal_setField v (h.of_checkAccess ha)

theorem Outside.assign (h : s.Outside C) (name : String) (v : Value) :
    (s.conceal C).assign name v = (s.assign name v).map (conceal C) := by
  unfold Store.assign
  rw [conceal_owner?]
  cases ho : s.owner? name with
  | none => rfl
  | some owner =>
    cases owner with
    | frame id => rfl
    | object id => exact conceal_setField v (.inl (h.receiver id (receiver_of_owner? ho)))

theorem Outside.assignName (h : s.Outside C) (name : String) (v : Value) :
    (s.conceal C).assignName name v = (s.assignName name v).map (conceal C) := by
  unfold Store.assignName
  by_cases hr : (s.frame s.innermost.frame).isResult name = true
  · have hr' : ((s.conceal C).frame (s.conceal C).innermost.frame).isResult name = true := hr
    rw [if_pos hr, if_pos hr']
    rfl
  · have hr' : ¬ ((s.conceal C).frame (s.conceal C).innermost.frame).isResult name = true := hr
    rw [if_neg hr, if_neg hr']
    exact h.assign name v

/-- There is nothing to blot out in a new object. -/
theorem conceal_newObject (C : ClassId) (s : Store) (id : ClassId) :
    (s.conceal C).newObject id = ((s.newObject id).1.conceal C, (s.newObject id).2) := by
  have hnew : ∀ (hidden : Key → Bool) (fields : Table FieldEntry),
      Object.conceal C hidden ⟨id, fields.map fun _ => .int 0⟩ =
        ⟨id, fields.map fun _ => .int 0⟩ := by
    intro hidden fields
    unfold Object.conceal
    split
    · simp [Table.conceal, Table.map]
    · rfl
  simp [newObject, conceal, classOf, hnew]

/-! What code outside the class cannot change. -/

/-- The classes are the same, no object has become an instance of `C`, and the instances there were
hold what they held in their non-public fields. -/
structure KeepsSecrets (C : ClassId) (s s' : Store) : Prop where
  classes : s'.classes = s.classes
  size : s.objects.size ≤ s'.objects.size
  classId : ∀ id < s.objects.size, (s'.object id).classId = (s.object id).classId
  outside : ∀ id, (s.object id).classId ≠ C → (s'.object id).classId ≠ C
  hidden : ∀ id < s.objects.size, (s.object id).classId = C → ∀ k, (s.classOf C).hides k = true →
    (s'.object id).fields.find? k = (s.object id).fields.find? k

namespace KeepsSecrets

variable {s' s'' : Store}

theorem of_objects (hc : s'.classes = s.classes) (ho : s'.objects = s.objects) :
    KeepsSecrets C s s' := by
  have hobject : ∀ id, s'.object id = s.object id := by
    intro id
    unfold object
    rw [ho]
  refine ⟨hc, Nat.le_of_eq (congrArg Array.size ho.symm), ?_, ?_, ?_⟩
  · intro id _
    rw [hobject]
  · intro id h
    rwa [hobject]
  · intro id _ _ k _
    rw [hobject]

theorem refl (C : ClassId) (s : Store) : KeepsSecrets C s s :=
  of_objects rfl rfl

theorem trans (h : KeepsSecrets C s s') (h' : KeepsSecrets C s' s'') : KeepsSecrets C s s'' := by
  have hclass : s'.classOf C = s.classOf C := by
    unfold classOf
    rw [h.classes]
  refine ⟨h'.classes.trans h.classes, Nat.le_trans h.size h'.size, ?_, ?_, ?_⟩
  · intro id hid
    rw [h'.classId id (Nat.lt_of_lt_of_le hid h.size), h.classId id hid]
  · intro id hid
    exact h'.outside id (h.outside id hid)
  · intro id hid hc k hk
    have hc' := (h.classId id hid).trans hc
    rw [h'.hidden id (Nat.lt_of_lt_of_le hid h.size) hc' k (by rw [hclass]; exact hk)]
    exact h.hidden id hid hc k hk

end KeepsSecrets

theorem object_modify (s : Store) (id i : ObjectId) (f : Object → Object) :
    Store.object { s with objects := s.objects.modify id f } i =
      if id = i ∧ i < s.objects.size then f (s.object i) else s.object i := by
  unfold object
  simp only [Array.getD_eq_getD_getElem?, Array.getElem?_modify]
  by_cases hi : i < s.objects.size
  · by_cases hid : id = i <;> simp [hi, hid]
  · simp [hi]

/-- Changing an object, but neither its class nor what it hides. -/
theorem keepsSecrets_modify {id : ObjectId} {f : Object → Object}
    (hclass : ∀ o, (f o).classId = o.classId)
    (hf : (s.object id).classId = C → ∀ k, (s.classOf C).hides k = true →
      (f (s.object id)).fields.find? k = (s.object id).fields.find? k) :
    KeepsSecrets C s { s with objects := s.objects.modify id f } := by
  have hkept : ∀ i, (Store.object { s with objects := s.objects.modify id f } i).classId =
      (s.object i).classId := by
    intro i
    rw [object_modify]
    split
    · exact hclass _
    · rfl
  refine ⟨rfl, by simp, fun i _ => hkept i, fun i hi => by rwa [hkept], ?_⟩
  intro i _ hc k hk
  rw [object_modify]
  split
  · next hi =>
    obtain ⟨rfl, -⟩ := hi
    exact hf hc k hk
  · rfl

theorem keepsSecrets_setField {id : ObjectId} {name : String} {v : Value} {s' : Store}
    (h : (s.object id).classId ≠ C ∨ (s.classOf C).hides (Key.of name) = false)
    (hs : s.setField id name v = .ok s') : KeepsSecrets C s s' := by
  unfold setField at hs
  split at hs
  · cases hs
    apply keepsSecrets_modify
    · intro o
      rfl
    · intro hc k hk
      have hname := h.resolve_left (not_not_intro hc)
      have hne : k ≠ Key.of name := by
        rintro rfl
        rw [hname] at hk
        cases hk
      exact Table.find?_insert_of_ne _ v hne
  · cases hs

theorem Outside.keepsSecrets_writeField (h : s.Outside C) {id : ObjectId} {field : String}
    {v : Value} {s' : Store} (hs : s.writeField id field v = .ok s') : KeepsSecrets C s s' := by
  unfold Store.writeField at hs
  cases ha : s.checkAccess (s.object id).classId field
      ((s.objectClass id).fieldVisibility field) with
  | error c =>
    rw [ha] at hs
    cases hs
  | ok =>
    rw [ha] at hs
    exact keepsSecrets_setField (h.of_checkAccess ha) hs

theorem Outside.keepsSecrets_assign (h : s.Outside C) {name : String} {v : Value} {s' : Store}
    (hs : s.assign name v = .ok s') : KeepsSecrets C s s' := by
  unfold Store.assign at hs
  split at hs
  · cases hs
  · cases hs
    exact .of_objects rfl rfl
  · next id ho =>
    exact keepsSecrets_setField (.inl (h.receiver id (receiver_of_owner? ho))) hs

theorem Outside.keepsSecrets_assignName (h : s.Outside C) {name : String} {v : Value}
    {s' : Store} (hs : s.assignName name v = .ok s') : KeepsSecrets C s s' := by
  unfold Store.assignName at hs
  dsimp only at hs
  split at hs
  · cases hs
    exact .of_objects rfl rfl
  · exact h.keepsSecrets_assign hs

theorem object_newObject (s : Store) (id : ClassId) (i : ObjectId) :
    (s.newObject id).1.object i =
      if i = s.objects.size then ⟨id, (s.classOf id).fields.map fun _ => .int 0⟩
      else s.object i := by
  unfold object newObject
  simp only [Array.getD_eq_getD_getElem?, Array.getElem?_push]
  split <;> rfl

theorem newObject_classId (s : Store) (id : ClassId) :
    ((s.newObject id).1.object (s.newObject id).2).classId = id := by
  rw [object_newObject]
  exact congrArg Object.classId (if_pos rfl)

theorem keepsSecrets_newObject {id : ClassId} (h : id ≠ C) :
    KeepsSecrets C s (s.newObject id).1 := by
  refine ⟨rfl, by simp [newObject], ?_, ?_, ?_⟩
  · intro i hi
    rw [object_newObject, if_neg (Nat.ne_of_lt hi)]
  · intro i hi
    rw [object_newObject]
    split
    · exact h
    · exact hi
  · intro i hi _ k _
    rw [object_newObject, if_neg (Nat.ne_of_lt hi)]

end Store

end ObjectPascal
