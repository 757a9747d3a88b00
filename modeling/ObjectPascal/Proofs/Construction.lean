import ObjectPascal.Proofs.Invocation
import ObjectPascal.Proofs.Resolution

/-!
How an object comes to be. When the body of a constructor is entered, the object is there with its
fields at zero, and nothing but the call itself refers to it; and whatever the body does, it is
this object that the call gives.
-/

namespace ObjectPascal

open Script

/-! The frame of a call. -/

/-- The value that the last of some bindings of a key gives it. -/
def lastBinding? (k : Key) (bindings : List (String × Value)) : Option Value :=
  (bindings.reverse.find? fun b => Key.of b.1 = k).map Prod.snd

theorem lastBinding?_cons (k : Key) (b : String × Value) (bindings : List (String × Value)) :
    lastBinding? k (b :: bindings) =
      (lastBinding? k bindings).or (if Key.of b.1 = k then some b.2 else none) := by
  unfold lastBinding?
  rw [List.reverse_cons, List.find?_append, Option.map_or]
  by_cases hk : Key.of b.1 = k <;> simp [hk]

theorem Frame.value_declare (f : Frame) (name : String) (v : Value) (k : Key) :
    ((f.declare name v).slots.find? k).map Slot.value =
      if Key.of name = k then some v else (f.slots.find? k).map Slot.value := by
  unfold declare
  dsimp only
  by_cases hk : Key.of name = k
  · rw [if_pos hk, ← hk, Table.find?_insert_self]
    rfl
  · rw [if_neg hk, Table.find?_insert_of_ne _ _ (Ne.symm hk)]

/-- By induction on the bindings: a later one takes the place of an earlier one. -/
theorem Frame.value_declareAll (f : Frame) (bindings : List (String × Value)) (k : Key) :
    ((f.declareAll bindings).slots.find? k).map Slot.value =
      (lastBinding? k bindings).or ((f.slots.find? k).map Slot.value) := by
  induction bindings generalizing f with
  | nil => rfl
  | cons b bindings ih =>
    have hstep : f.declareAll (b :: bindings) = (f.declare b.1 b.2).declareAll bindings := rfl
    rw [hstep, ih, value_declare, lastBinding?_cons, Option.or_assoc]
    congr 1
    by_cases hk : Key.of b.1 = k <;> simp [hk]

/-- The variables of a new frame are the parameters; of several of one name, the last one counts. -/
theorem Method.value_frame (m : Method) (args : List Value) (location : Option Location)
    (k : Key) :
    ((m.frame args location).slots.find? k).map Slot.value =
      lastBinding? k (m.params.zip args) := by
  unfold Method.frame
  rw [Frame.value_declareAll]
  exact Option.or_none

/-! Objects that nothing refers to. -/

/-- No variable, no result and no field refers to the object. -/
structure Store.Unreferenced (s : Store) (id : ObjectId) : Prop where
  frames : ∀ f ∈ s.frames, f.Holds (· ≠ .object id)
  fields : ∀ o ∈ s.objects, o.fields.All (· ≠ .object id)

/-- Values that refer only to objects that there are do not refer to the next one. -/
theorem Value.Within.ne_next {n : Nat} {v : Value} (h : v.Within n) : v ≠ .object n := by
  rintro rfl
  exact Nat.lt_irrefl n h

theorem Store.Closed.unreferenced {s : Store} (h : s.Closed) :
    s.Unreferenced s.objects.size where
  frames f hf := (h.frames f hf).mono fun _ hv => hv.ne_next
  fields o ho := (h.fields o ho).mono fun _ hv => hv.ne_next

namespace Store.Unreferenced

variable {s : Store} {id : ObjectId}

theorem newObject (h : s.Unreferenced id) (c : ClassId) : (s.newObject c).1.Unreferenced id where
  frames := h.frames
  fields := by
    have hzero : ((s.classOf c).fields.map fun _ => Value.int 0).All (· ≠ .object id) := by
      apply Table.all_map
      exact fun _ => nofun
    exact forall_mem_push h.fields hzero

theorem newFrame (h : s.Unreferenced id) {f : Frame} (hf : f.Holds (· ≠ .object id)) :
    (s.newFrame f).1.Unreferenced id where
  frames := forall_mem_push h.frames hf
  fields := h.fields

end Store.Unreferenced

/-! Constructors. -/

/-- What the body of a constructor finds: in `k`, the call of `m` on `args` has its frame `f`, and
the new object `o`, of class `id`, is its receiver. All else is as it was in `n`. -/
structure Machine.Begins (n : Machine) (id : ClassId) (m : Method) (args : List Value)
    (f : FrameId) (o : ObjectId) (k : Machine) : Prop where
  calls : k.store.calls = ⟨f, some id, some o⟩ :: n.store.calls
  /-- Nothing refers to the object. -/
  unreferenced : k.store.Unreferenced o
  arguments : ∀ v ∈ args, v ≠ .object o
  /-- The object has the fields of its class, all at zero, and no others. -/
  classId : (k.store.object o).classId = id
  fields : ∀ key, (k.store.object o).fields.find? key =
    if (n.store.classOf id).fields.contains key then some (.int 0) else none
  /-- The variables of the frame are the parameters. -/
  parameters : ∀ key, ((k.store.frame f).slots.find? key).map Slot.value =
    lastBinding? key (m.params.zip args)
  /-- The other objects and frames are those that there were. -/
  objects : k.store.objects.size = n.store.objects.size + 1 ∧ o = n.store.objects.size ∧
    ∀ i < n.store.objects.size, k.store.object i = n.store.object i
  frames : k.store.frames.size = n.store.frames.size + 1 ∧ f = n.store.frames.size ∧
    ∀ i < n.store.frames.size, k.store.frame i = n.store.frame i
  classes : k.store.classes = n.store.classes
  catalog : k.store.catalog = n.store.catalog

/-- The machine as a constructor of an object finds it. -/
def Machine.begun (host : Host) (n : Machine) (id : ClassId) (m : Method) (args : List Value)
    (location : Option Location) : Machine :=
  ({ n with store := (n.store.newObject id).1 } : Machine).called host .new n.store.objects.size m
    args location

variable {host : Host} {n k : Machine} {id : ClassId} {m : Method} {args : List Value}
  {location : Option Location}

theorem Machine.begins_begun (hn : n.store.Closed)
    (ha : ∀ v ∈ args, v.Within n.store.objects.size) :
    n.Begins id m args n.store.frames.size n.store.objects.size
      (n.begun host id m args location) := by
  have hne : ∀ v ∈ args, v ≠ .object n.store.objects.size := fun v hv => (ha v hv).ne_next
  have hobject : (n.begun host id m args location).store.object n.store.objects.size =
      ⟨id, (n.store.classOf id).fields.map fun _ => .int 0⟩ := getD_push_size _ _
  have hframe : (n.begun host id m args location).store.frame n.store.frames.size =
      m.frame args location := getD_push_size _ _
  constructor
  · have hcalls : (n.begun host id m args location).store.calls =
        ⟨n.store.frames.size,
          some ((n.begun host id m args location).store.object n.store.objects.size).classId,
          some n.store.objects.size⟩ :: n.store.calls := rfl
    rw [hcalls, hobject]
  · have hnew := (hn.unreferenced.newObject id).newFrame
      (m.frame_holds (P := (· ≠ .object n.store.objects.size)) hne location nofun)
    exact ⟨hnew.frames, hnew.fields⟩
  · exact hne
  · rw [hobject]
  · intro key
    rw [hobject, Table.find?_map]
    unfold Table.contains
    cases (n.store.classOf id).fields.find? key <;> rfl
  · intro key
    rw [hframe]
    exact m.value_frame args location key
  · exact ⟨Array.size_push _, rfl, fun i hi => getD_push_of_lt _ hi⟩
  · exact ⟨Array.size_push _, rfl, fun i hi => getD_push_of_lt _ hi⟩
  · rfl
  · rfl

/-- The constructor that is found is the one that is bound. -/
theorem Store.constructor?_of_findConstructor {s : Store} {member : String}
    (h : s.findConstructor id member = .ok m) : (s.classOf id).constructor? = some m := by
  unfold findConstructor at h
  dsimp only at h
  split at h
  · split at h
    · next hbound =>
      split at h
      · cases h
        exact hbound
      · cases h
    · cases h
  · cases h

theorem Call.permit_construct_ok {s : Store} {member : String} {kind : CallKind}
    (h : (construct id member args location).permit s = .ok (kind, m)) :
    kind = .new ∧ s.findConstructor id member = .ok m ∧ args.length = m.params.length := by
  unfold permit at h
  dsimp only at h
  split at h
  · cases h
  · next hfind =>
    unfold checkCount at h
    split at h
    · next hcount =>
      cases h
      exact ⟨rfl, hfind, hcount⟩
    · cases h

/-- A constructor that is entered from the calls that are active is the one of the class, and it is
entered as described. -/
theorem enter_of_construct (hh : host.hooks = {}) {room : Nat} {member : String} {f : FrameId}
    {o : ObjectId}
    (hk : (k, .enter f o) ∈
      (construct (runBody room) id member args location).moments host n)
    (hcalls : k.store.calls = n.store.calls) :
    ∃ m, n.store.findConstructor id member = .ok m ∧ args.length = m.params.length ∧
      f = n.store.frames.size ∧ o = n.store.objects.size ∧
      k.entered f o = n.begun host id m args location := by
  let call := Call.construct id member args location
  obtain ⟨kind, m, hpermit, hannounce, hf, ho⟩ := (Call.enters_iff call room).mp ⟨hk, hcalls⟩
  obtain ⟨rfl, hfind, hcount⟩ := Call.permit_construct_ok hpermit
  rw [Machine.announce_of_no_hooks hh] at hannounce
  subst hf ho
  refine ⟨m, hfind, hcount, rfl, rfl, ?_⟩
  cases hannounce
  rfl

/-- What a constructor gives is the object that was made for it. -/
theorem run_construct_ok {body : List Statement → Script Unit} {member : String} {v : Value}
    {n' : Machine}
    (hr : (construct body id member args location).run host n = (.ok v, n')) :
    v = .object n.store.objects.size := by
  let call := Call.construct id member args location
  change (call.script body).run host n = _ at hr
  rw [Call.run_script] at hr
  split at hr
  · cases hr
  · next kind m _ =>
    generalize (runMethod body kind (call.ready n).2 m call.args call.location).run host
      (call.ready n).1 = r at hr
    obtain ⟨_ | _, k⟩ := r
    · cases hr
    · cases hr
      rfl

/-- Making an object, without handlers. If the body of the constructor is entered, it is entered on
a new object that nothing refers to, with its fields at zero, in a frame that has the parameters
and nothing else, and all else is as it was; and if the call completes, it gives this object,
whatever the method that was called is and does. -/
theorem construction_fresh (hh : host.hooks = {}) (room : Nat) (hn : n.store.Closed)
    (ha : ∀ v ∈ args, v.Within n.store.objects.size) {member : String} {f : FrameId} {o : ObjectId}
    (hk : (k, .enter f o) ∈
      (construct (runBody room) id member args location).moments host n)
    (hcalls : k.store.calls = n.store.calls) :
    (∃ m, (n.store.classOf id).constructor? = some m ∧ args.length = m.params.length ∧
      n.Begins id m args f o (k.entered f o)) ∧
    ∀ v n', (construct (runBody room) id member args location).run host n = (.ok v, n') →
      v = .object o := by
  obtain ⟨m, hm, hcount, rfl, rfl, hentered⟩ := enter_of_construct hh hk hcalls
  refine ⟨⟨m, ?_, hcount, ?_⟩, fun v n' hr => run_construct_ok hr⟩
  · exact Store.constructor?_of_findConstructor hm
  · rw [hentered]
    exact Machine.begins_begun hn ha

/-- A class with one field, whose constructor is implemented as a function of two parameters of one
name that assigns its own name. -/
def Class.mint : Class where
  name := "TMint"
  fields := ⟨[(Key.of "a", ⟨.publ, "a"⟩)]⟩
  methods := ⟨[(Key.of "Create", ⟨{
    className := "TMint"
    name := "Create"
    kind := .function
    isFunction := true
    params := ["v", "V"]
    body := some
      [.assignment default ⟨default, "Create", []⟩ (.literal default 7),
       .assignment default ⟨default, "a", []⟩ (.ref ⟨default, "v", []⟩)] }, some .publ⟩)]⟩
  constructorKey := some (Key.of "Create")

/-- A machine that knows the class and has one object of it. -/
def Machine.mint : Machine where
  store :=
    { classes := #[Class.mint]
      catalog := ⟨[(Key.of "TMint", 0)]⟩
      objects := #[⟨0, ⟨[(Key.of "a", .int 5)]⟩⟩] }

/-- The function is entered on a new object, with the second argument as the value of its
parameter, and for all that it assigns its own name the call gives the object. -/
theorem construction_fresh_function :
    let x := construct (runBody 1) 0 "CREATE" [.int 1, .object 0] none
    ∃ k f o, (k, Action.enter f o) ∈ x.moments {} .mint ∧
      (∃ m, Class.mint.constructor? = some m ∧ m.isFunction ∧
        Machine.mint.Begins 0 m [.int 1, .object 0] f o (k.entered f o) ∧
        (k.store.frame f).get? "V" = some (.object 0)) ∧
      ∃ n', x.run {} .mint = (.ok (.object o), n') := by
  intro x
  let awaited (y : Machine × FrameId × ObjectId) : Bool :=
    y.1.store.calls = [] ∧ (y.1.store.frame y.2.1).get? "V" = some (.object 0)
  have hfound : ((x.moments {} .mint).filterMap Call.entry?).any awaited = true := by
    decide +kernel
  have hends : (x.run {} .mint).1.toOption.isSome = true := by
    decide +kernel
  have hclosed : Machine.mint.store.Closed := by
    refine ⟨fun f hf => ?_, fun o ho e he => ?_⟩
    · rw [List.mem_singleton.mp (Array.mem_def.mp hf)]
      exact ⟨Table.all_empty, trivial⟩
    · rw [List.mem_singleton.mp (Array.mem_def.mp ho)] at he
      rw [List.mem_singleton.mp he]
      trivial
  have hhooks : ({} : Host).hooks = {} := rfl
  have hargs : ∀ v ∈ [Value.int 1, .object 0], v.Within Machine.mint.store.objects.size :=
    List.forall_mem_cons.mpr ⟨trivial, List.forall_mem_singleton.mpr Nat.one_pos⟩
  obtain ⟨⟨k, f, o⟩, hentry, hawaited⟩ := List.any_eq_true.mp hfound
  have hmoment := Call.mem_filterMap_entry?.mp hentry
  obtain ⟨hcalls, hvalue⟩ := of_decide_eq_true hawaited
  obtain ⟨⟨m, hm, -, hbegins⟩, hgives⟩ :=
    construction_fresh hhooks 1 hclosed hargs hmoment hcalls
  refine ⟨k, f, o, hmoment, ⟨m, hm, ?_, hbegins, hvalue⟩, ?_⟩
  · cases hm
    rfl
  · rcases hr : x.run {} .mint with ⟨_ | v, n'⟩
    · rw [hr] at hends
      cases hends
    · exact ⟨n', by rw [hgives v n' hr]⟩

end ObjectPascal
