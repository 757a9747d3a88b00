import ObjectPascal.Proofs.Handlers
import ObjectPascal.Proofs.Wellformed

/-!
What evaluation leaves as it is. It adds objects and frames and changes values; classes stay, and
so do the names that the frames and objects there are have.
-/

namespace ObjectPascal

/-- Putting in a datum that looks like the one in its place changes nothing in the looks. -/
theorem Table.map_insert_of_find? {α β : Type} {t : Table α} {k : Key} {a a' : α} {f : α → β}
    (h : t.find? k = some a) (hf : f a' = f a) : (t.insert k a').map f = t.map f := by
  obtain ⟨es⟩ := t
  unfold find? at h
  unfold Table.map insert
  congr 1
  induction es with
  | nil => cases h
  | cons e es ih =>
    obtain ⟨k₁, a₁⟩ := e
    unfold findIn at h
    unfold insertIn
    split at h
    · next hk =>
      cases h
      rw [if_pos hk]
      simp only [List.map_cons, hf]
    · next hk => rw [if_neg hk, List.map_cons, List.map_cons, ih h]

theorem map_modify_of_eq {α β : Type} {xs : Array α} {i : Nat} {g : α → α} {f : α → β}
    (h : ∀ a, xs[i]? = some a → f (g a) = f a) : (xs.modify i g).map f = xs.map f := by
  apply Array.ext_getElem?
  intro j
  rw [Array.getElem?_map, Array.getElem?_map, Array.getElem?_modify]
  split
  · next hij =>
    subst hij
    cases hx : xs[i]? with
    | none => rfl
    | some a => exact congrArg some (h a hx)
  · rfl

theorem getD_of_map_eq {α β : Type} [Inhabited α] {xs xs' : Array α} {f : α → β}
    (h : xs'.map f = xs.map f) (i : Nat) : f (xs'.getD i default) = f (xs.getD i default) := by
  have hi : (xs'.map f)[i]? = (xs.map f)[i]? := by rw [h]
  rw [Array.getElem?_map, Array.getElem?_map] at hi
  rw [Array.getD_eq_getD_getElem?, Array.getD_eq_getD_getElem?]
  cases hx : xs[i]? <;> cases hx' : xs'[i]? <;> simp_all

theorem getD_push_of_lt {α : Type} [Inhabited α] {xs : Array α} (a : α) {i : Nat}
    (h : i < xs.size) : (xs.push a).getD i default = xs.getD i default := by
  rw [Array.getD_eq_getD_getElem?, Array.getD_eq_getD_getElem?, Array.getElem?_push_lt h,
    Array.getElem?_eq_getElem h]

theorem getD_push_size {α : Type} [Inhabited α] (xs : Array α) (a : α) :
    (xs.push a).getD xs.size default = a := by
  rw [Array.getD_eq_getD_getElem?, Array.getElem?_push_size]
  rfl

/-- A frame without values: the names of its variables and what else it is declared with. -/
def Frame.outline (f : Frame) : Frame :=
  { f with
    slots := f.slots.map fun slot => { slot with value := .nil }
    result := .nil
    returned := false }

/-- An object without values. -/
def Object.outline (o : Object) : Object :=
  { o with fields := o.fields.map fun _ => .nil }

theorem Frame.outline_set {f : Frame} {name : String} (v : Value) (h : f.has name) :
    (f.set name v).outline = f.outline := by
  obtain ⟨slot, hslot⟩ := Option.isSome_iff_exists.mp h
  unfold Frame.set outline
  congr 1
  apply Table.map_insert_of_find? hslot
  rw [hslot]
  rfl

theorem Frame.outline_recordResult (f : Frame) (v : Value) :
    (f.recordResult v).outline = f.outline :=
  rfl

namespace Store

/-- `s'` is `s` with other values. -/
structure Rewrites (s s' : Store) : Prop where
  classes : s'.classes = s.classes
  catalog : s'.catalog = s.catalog
  frames : s'.frames.map Frame.outline = s.frames.map Frame.outline
  objects : s'.objects.map Object.outline = s.objects.map Object.outline
  calls : s'.calls = s.calls

/-- `s'` goes on from `s`: it has the same classes, and the objects and frames of `s` are its first
ones, up to their values. -/
structure Extends (s s' : Store) : Prop where
  classes : s'.classes = s.classes
  catalog : s'.catalog = s.catalog
  frames : (s.frames.map Frame.outline).toList <+: (s'.frames.map Frame.outline).toList
  objects : (s.objects.map Object.outline).toList <+: (s'.objects.map Object.outline).toList

variable {s s' : Store}

/-- The first of some frames that has a variable does have it. -/
theorem has_of_frameWith? {name : String} {ids : List FrameId} {id : FrameId}
    (h : s.frameWith? name ids = some id) : (s.frame id).has name := by
  induction ids with
  | nil => cases h
  | cons first rest ih =>
    unfold frameWith? at h
    split at h
    · next hhas =>
      cases h
      exact hhas
    · exact ih h

/-- A name is found only in frames that have it. -/
theorem has_of_owner? {name : String} {id : FrameId} (h : s.owner? name = some (.frame id)) :
    (s.frame id).has name := by
  unfold owner? at h
  dsimp only at h
  split at h
  · next hhas =>
    cases h
    exact hhas
  · split at h
    · cases h
    · obtain ⟨found, hfound, hid⟩ := Option.map_eq_some_iff.mp h
      cases hid
      exact has_of_frameWith? hfound

/-- Fields that may be used are read and written as from inside. -/
theorem getField_of_readField {id : ObjectId} {field : String} {v : Value}
    (h : s.readField id field = .ok v) : s.getField id field = .ok v := by
  unfold readField at h
  generalize s.checkAccess _ _ _ = r at h
  cases r with
  | error c => cases h
  | ok _ => exact h

theorem setField_of_writeField {id : ObjectId} {field : String} {v : Value}
    (h : s.writeField id field v = .ok s') : s.setField id field v = .ok s' := by
  unfold writeField at h
  generalize s.checkAccess _ _ _ = r at h
  cases r with
  | error c => cases h
  | ok _ => exact h

theorem frame_eq {id : FrameId} {f : Frame} (h : s.frames[id]? = some f) : s.frame id = f := by
  unfold frame
  rw [Array.getD_eq_getD_getElem?, h]
  rfl

theorem object_eq {id : ObjectId} {o : Object} (h : s.objects[id]? = some o) :
    s.object id = o := by
  unfold object
  rw [Array.getD_eq_getD_getElem?, h]
  rfl

namespace Rewrites

theorem updateFrame {id : FrameId} {g : Frame → Frame}
    (h : (g (s.frame id)).outline = (s.frame id).outline) : s.Rewrites (s.updateFrame id g) := by
  refine ⟨rfl, rfl, ?_, rfl, rfl⟩
  apply map_modify_of_eq
  intro f hf
  rw [frame_eq hf] at h
  exact h

theorem setField {id : ObjectId} {name : String} {v : Value} (h : s.setField id name v = .ok s') :
    s.Rewrites s' := by
  unfold Store.setField at h
  split at h
  · next hhas =>
    cases h
    refine ⟨rfl, rfl, rfl, ?_, rfl⟩
    dsimp only
    apply map_modify_of_eq
    intro o ho
    unfold hasField at hhas
    rw [object_eq ho] at hhas
    obtain ⟨old, hold⟩ := Option.isSome_iff_exists.mp hhas
    unfold Object.outline
    congr 1
    exact Table.map_insert_of_find? hold rfl
  · cases h

theorem assign {name : String} {v : Value} (h : s.assign name v = .ok s') : s.Rewrites s' := by
  unfold Store.assign at h
  split at h
  · cases h
  · next id ho =>
    cases h
    exact updateFrame (Frame.outline_set v (has_of_owner? ho))
  · exact setField h

theorem assignName {name : String} {v : Value} (h : s.assignName name v = .ok s') :
    s.Rewrites s' := by
  unfold Store.assignName at h
  dsimp only at h
  split at h
  · cases h
    exact updateFrame (Frame.outline_recordResult _ v)
  · exact assign h

theorem writeField {id : ObjectId} {field : String} {v : Value}
    (h : s.writeField id field v = .ok s') : s.Rewrites s' :=
  setField (setField_of_writeField h)

end Rewrites

namespace Extends

theorem refl (s : Store) : s.Extends s :=
  ⟨rfl, rfl, List.prefix_rfl, List.prefix_rfl⟩

theorem trans {s₁ s₂ s₃ : Store} (h : s₁.Extends s₂) (h' : s₂.Extends s₃) : s₁.Extends s₃ :=
  ⟨h'.classes.trans h.classes, h'.catalog.trans h.catalog, h.frames.trans h'.frames,
    h.objects.trans h'.objects⟩

theorem of_rewrites (h : s.Rewrites s') : s.Extends s' := by
  have hframes := congrArg Array.toList h.frames.symm
  have hobjects := congrArg Array.toList h.objects.symm
  exact ⟨h.classes, h.catalog, ⟨[], (List.append_nil _).trans hframes⟩,
    ⟨[], (List.append_nil _).trans hobjects⟩⟩

theorem newObject (s : Store) (id : ClassId) : s.Extends (s.newObject id).1 := by
  refine ⟨rfl, rfl, List.prefix_rfl, ?_⟩
  unfold Store.newObject
  rw [Array.map_push, Array.toList_push]
  exact List.prefix_append _ _

theorem newFrame (s : Store) (f : Frame) : s.Extends (s.newFrame f).1 := by
  refine ⟨rfl, rfl, ?_, List.prefix_rfl⟩
  unfold Store.newFrame
  rw [Array.map_push, Array.toList_push]
  exact List.prefix_append _ _

end Extends

/-! What declarations do instead. -/

theorem defineNew_eq (s : Store) (c : Class) :
    s.defineNew c =
      if s.catalog.contains (Key.of c.name) then .error (.duplicateClass c.name)
      else .ok { s with
        classes := s.classes.push c
        catalog := s.catalog.insert (Key.of c.name) s.classes.size } := by
  have hnew : ({ s with classes := s.classes.push c } : Store).classOf s.classes.size = c :=
    getD_push_size _ _
  unfold defineNew define addClass
  dsimp only
  rw [hnew]

theorem defineNew_ok {c : Class} (h : s.defineNew c = .ok s') :
    s.catalog.contains (Key.of c.name) = false ∧
      s' = { s with
        classes := s.classes.push c
        catalog := s.catalog.insert (Key.of c.name) s.classes.size } := by
  rw [defineNew_eq] at h
  split at h
  · cases h
  · next hfree =>
    cases h
    exact ⟨Bool.eq_false_iff.mpr hfree, rfl⟩

theorem attachMethod_ok {className : String} {method : String → Method} {m : Method}
    (h : s.attachMethod className method = .ok (s', m)) :
    ∃ id, s.findClass? className = some id ∧ m = method (s.classOf id).name ∧
      s' = s.updateClass id (·.attachMethod m) := by
  unfold attachMethod getClass at h
  split at h
  · next id hid =>
    cases h
    exact ⟨id, hid, rfl, rfl⟩
  · cases h

end Store

/-! What a name that is called can stand for. -/

namespace Store

variable {s : Store} {member : String} {m : Method}

/-- The constructor that is called is the method of the name it is called by. -/
theorem findConstructor_ok {id : ClassId} (h : s.findConstructor id member = .ok m) :
    m.implemented ∧
      ∃ e, (s.classOf id).methods.find? (Key.of member) = some e ∧ e.method = m := by
  unfold findConstructor at h
  dsimp only at h
  split at h
  · next hname =>
    have hkey : (s.classOf id).constructorKey = some (Key.of member) := of_decide_eq_true hname
    split at h
    · next bound hbound =>
      split at h
      · next himplemented =>
        cases h
        unfold Class.constructor? at hbound
        rw [hkey] at hbound
        exact ⟨himplemented, Option.map_eq_some_iff.mp hbound⟩
      · cases h
    · cases h
  · cases h

theorem findMethod_ok {id : ObjectId} {kind : CallKind}
    (h : s.findMethod id member = .ok (m, kind)) :
    m.implemented ∧
      ∃ e, (s.objectClass id).methods.find? (Key.of member) = some e ∧ e.method = m := by
  unfold findMethod at h
  dsimp only at h
  cases hc : s.checkAccess (s.object id).classId member
      ((s.objectClass id).methodVisibility member) with
  | error c =>
    rw [hc] at h
    cases h
  | ok _ =>
    rw [hc] at h
    dsimp only [bind, Except.bind] at h
    split at h
    · next found hfound =>
      split at h
      · next himplemented =>
        cases h
        exact ⟨himplemented, Option.map_eq_some_iff.mp hfound⟩
      · cases h
    · cases h

end Store

namespace Class

@[simp]
theorem bind_methods (c : Class) (m : Method) : (c.bind m).methods = c.methods := by
  unfold bind
  split <;> rfl

@[simp]
theorem bind_fields (c : Class) (m : Method) : (c.bind m).fields = c.fields := by
  unfold bind
  split <;> rfl

@[simp]
theorem bind_name (c : Class) (m : Method) : (c.bind m).name = c.name := by
  unfold bind
  split <;> rfl

variable {P : Class → Prop}

theorem addMember_keeps (hf : ∀ c name visibility, P c → P (c.addField name visibility))
    (hm : ∀ c name kind params visibility, P c → P (c.declareMethod name kind params visibility))
    {c c' : Class} {visibility : Visibility} {m : Member} (hc : P c)
    (h : c.addMember visibility m = .ok c') : P c' := by
  cases m with
  | field group =>
    cases h
    induction group.names generalizing c with
    | nil => exact hc
    | cons name names ih => exact ih (hf c name visibility hc)
  | method header =>
    cases h
    exact hm _ _ _ _ _ hc
  | bare location => cases h

theorem addMembers_keeps (hf : ∀ c name visibility, P c → P (c.addField name visibility))
    (hm : ∀ c name kind params visibility, P c → P (c.declareMethod name kind params visibility))
    {c c' : Class} {visibility : Visibility} {ms : List Member} (hc : P c)
    (h : addMembers visibility ms c = .ok c') : P c' := by
  induction ms generalizing c with
  | nil =>
    cases h
    exact hc
  | cons m ms ih =>
    unfold addMembers at h
    cases hadd : c.addMember visibility m with
    | error cause =>
      rw [hadd] at h
      cases h
    | ok c₁ =>
      rw [hadd] at h
      exact ih (addMember_keeps hf hm hc hadd) h

/-- What adding fields and methods to a class keeps, the class of a declaration has. -/
theorem ofDecl_keeps (hf : ∀ c name visibility, P c → P (c.addField name visibility))
    (hm : ∀ c name kind params visibility, P c → P (c.declareMethod name kind params visibility))
    {d : ClassDecl} {c : Class} (hname : P { name := d.name }) (h : ofDecl d = .ok c) : P c := by
  unfold ofDecl at h
  generalize Visibility.publ = visibility at h
  generalize ({ name := d.name } : Class) = start at hname h
  generalize d.items = items at h
  induction items generalizing visibility start with
  | nil =>
    cases h
    exact hname
  | cons item items ih =>
    cases item with
    | member m =>
      unfold addItems at h
      cases hadd : start.addMember visibility m with
      | error cause =>
        rw [hadd] at h
        cases h
      | ok c₁ =>
        rw [hadd] at h
        exact ih _ _ (addMember_keeps hf hm hname hadd) h
    | marked location visibility' ms =>
      unfold addItems at h
      cases hadd : addMembers visibility' ms start with
      | error cause =>
        rw [hadd] at h
        cases h
      | ok c₁ =>
        rw [hadd] at h
        exact ih _ _ (addMembers_keeps hf hm hname hadd) h

end Class

namespace Machine

variable {host : Host} {m : Machine}

theorem extends_assignKeeps (s : Store) : Store.AssignKeeps s.Extends fun _ => True := by
  intro s' s'' name v hs _ h
  exact hs.trans (.of_rewrites (.assign h))

theorem all_assigns (P : Store → Prop) (hooks : Registry Handler) :
    hooks.All (Handler.Assigns P fun _ => True) :=
  ⟨fun _ _ _ _ _ _ _ _ _ _ => trivial, fun _ _ _ _ _ _ _ _ => trivial⟩

theorem passing_extends (a : Action) : ∀ s ∈ m.passing host a, m.store.Extends s :=
  passing_keeps (extends_assignKeeps m.store) (all_assigns _ _) (.refl _) a

/-- What declares nothing leaves everything that is declared as it is. -/
theorem perform_extends {a : Action} (h : a.declares = false) :
    m.store.Extends (m.perform host a).2.store := by
  have hself := Store.Extends.refl m.store
  cases a with
  | log step location =>
    exact logStep_keeps (extends_assignKeeps m.store) (all_assigns _ _) hself step location
  | emit event => exact emit_keeps (extends_assignKeeps m.store) (all_assigns _ _) hself event
  | writeField id field v location =>
    exact update_store hself fun _ hs => .of_rewrites (.writeField hs)
  | assign name v => exact update_store hself fun _ hs => .of_rewrites (.assignName hs)
  | newObject id => exact .newObject m.store id
  | newFrame method args location => exact .newFrame m.store _
  | enter frame receiver => exact ⟨rfl, rfl, hself.frames, hself.objects⟩
  | leave => exact ⟨rfl, rfl, hself.frames, hself.objects⟩
  | write line =>
    change m.store.Extends (m.write host line).2.store
    rw [write_store]
    exact hself
  | nextWord =>
    change m.store.Extends m.nextWord.2.store
    rw [nextWord_store]
    exact hself
  | defineClass => cases h
  | attachMethod => cases h
  | declareGlobal => cases h
  | _ => exact hself

/-- What every class is declared with, and keeps when a method gets its body, every class has. -/
theorem perform_classes {P : Class → Prop} (hm : ∀ c ∈ m.store.classes, P c) {a : Action}
    (hdefine : ∀ c location, a = .defineClass c location → P c)
    (hattach : ∀ impl name c, a = .attachMethod impl → P c → P (c.attachMethod (impl.method name))) :
    ∀ c ∈ (m.perform host a).2.store.classes, P c := by
  cases hd : a.declares with
  | false =>
    have hext : m.store.Extends (m.perform host a).2.store := perform_extends hd
    intro c hc
    rw [hext.classes] at hc
    exact hm c hc
  | true =>
    cases a with
    | defineClass c location =>
      refine update_store (P := fun s => ∀ c ∈ s.classes, P c) hm ?_
      intro s hs
      obtain ⟨-, rfl⟩ := Store.defineNew_ok hs
      exact forall_mem_push hm (hdefine c location rfl)
    | attachMethod impl =>
      dsimp only [perform]
      split
      · next hs =>
        obtain ⟨id, -, rfl, rfl⟩ := Store.attachMethod_ok hs
        exact forall_mem_modify hm id fun c hc => hattach impl _ c rfl hc
      · exact hm
    | declareGlobal name v => exact hm
    | _ => cases hd

end Machine

namespace Script

variable {α : Type} {host : Host} {m : Machine}

/-- By induction on the script: if each of its actions goes on from the store before it, the whole
goes on from the store at its start. -/
theorem extends_of_moments {x : Script α}
    (h : ∀ p ∈ x.moments host m, p.1.store.Extends (p.1.perform host p.2).2.store) :
    (∀ p ∈ x.moments host m, m.store.Extends p.1.store) ∧
      m.store.Extends (x.run host m).2.store := by
  induction x generalizing m with
  | done a => exact ⟨List.forall_mem_nil _, .refl _⟩
  | fail e => exact ⟨List.forall_mem_nil _, .refl _⟩
  | perform a =>
    have hmember : (m, a) ∈ (perform a).moments host m := List.mem_singleton_self _
    refine ⟨?_, h _ hmember⟩
    intro p hp
    rw [List.mem_singleton.mp hp]
    exact .refl _
  | andThen x f ihx ihf =>
    change ∀ p ∈ (x >>= f).moments host m, _ at h
    have hfirst := ihx fun p hp => h p (mem_moments_bind.mpr (.inl hp))
    change (∀ p ∈ (x >>= f).moments host m, _) ∧ m.store.Extends ((x >>= f).run host m).2.store
    rcases run_bind_cases host x f m with ⟨a, m', hx, hrun⟩ | ⟨e, m', hx, hrun⟩
    · have hthen := ihf a fun p hp => h p (mem_moments_bind.mpr (.inr ⟨a, m', hx, hp⟩))
      rw [hx] at hfirst
      rw [hrun]
      refine ⟨?_, hfirst.2.trans hthen.2⟩
      intro p hp
      rcases mem_moments_bind.mp hp with hp | ⟨a', m'', hx', hp⟩
      · exact hfirst.1 p hp
      · rw [hx] at hx'
        cases hx'
        exact hfirst.2.trans (hthen.1 p hp)
    · rw [hx] at hfirst
      rw [hrun]
      refine ⟨?_, hfirst.2⟩
      intro p hp
      rcases mem_moments_bind.mp hp with hp | ⟨a', m'', hx', hp⟩
      · exact hfirst.1 p hp
      · rw [hx] at hx'
        cases hx'
  | attempt x ih => exact ih h

end Script

/-- Evaluation declares nothing. -/
theorem Evaluates.declares {α : Type} {x : Script α} (hx : Evaluates x) {host : Host}
    {m : Machine} : ∀ p ∈ x.moments host m, p.2.declares = false := by
  induction hx generalizing m with
  | done => exact List.forall_mem_nil _
  | fail => exact List.forall_mem_nil _
  | @perform a h =>
    intro p hp
    rw [List.mem_singleton.mp hp]
    cases a <;> first | rfl | cases h
  | andThen _ _ ihx ihf =>
    intro p hp
    rcases Script.mem_moments_bind.mp hp with hp | ⟨a, m', _, hp⟩
    · exact ihx p hp
    · exact ihf a p hp
  | attempt _ ih => exact ih
  | @within frame receiver inside _ ih =>
    intro p hp
    rw [Script.moments_within] at hp
    rcases List.mem_append.mp hp with hp | hp
    · rcases List.mem_cons.mp hp with rfl | hp
      · rfl
      · exact ih p hp
    · rcases hr : inside.run host (m.entered frame receiver) with ⟨r, m'⟩
      rw [hr] at hp
      cases r with
      | ok _ =>
        rw [List.mem_singleton.mp hp]
        rfl
      | error e =>
        rcases List.mem_cons.mp hp with rfl | hp
        · rfl
        · rw [List.mem_singleton.mp hp]
          rfl
  | create _ _ ihf =>
    intro p hp
    rcases Script.mem_moments_bind.mp hp with hp | ⟨a, m', _, hp⟩
    · rw [List.mem_singleton.mp hp]
      rfl
    · exact ihf a p hp

/-- Every store that evaluation passes through goes on from the one at its start. -/
theorem Evaluates.extends {α : Type} {x : Script α} (hx : Evaluates x) {host : Host}
    {m : Machine} : ∀ s ∈ x.stores host m, m.store.Extends s := by
  have hsteps : ∀ p ∈ x.moments host m, p.1.store.Extends (p.1.perform host p.2).2.store :=
    fun p hp => Machine.perform_extends (hx.declares p hp)
  obtain ⟨hmoments, hend⟩ := Script.extends_of_moments hsteps
  intro s hs
  rcases Script.mem_stores.mp hs with ⟨p, hp, rfl | hpass⟩ | rfl
  · exact hmoments p hp
  · exact (hmoments p hp).trans (Machine.passing_extends p.2 s hpass)
  · exact hend

end ObjectPascal
