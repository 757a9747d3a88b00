import ObjectPascal.Proofs.Invocation

/-!
What becomes of a call or an assignment that may not be made. All checks come before anything is
done, so that a call that does not pass them, and an assignment that fails, leave the machine as
they found it once their operands are evaluated. A call that passes them enters the body of its
method, unless a handler that is told of the call stops it.
-/

namespace ObjectPascal

open Script

/-! What may be called. -/

/-- What a name stands for in a call. -/
inductive Denotee where
  | cls (id : ClassId)
  | value (v : Value)

namespace Store

/-- The name on the left of a call stands for the receiver of the method that runs if it is `self`,
in whatever letter case. Else it stands for the class that is declared in just these letters; else
for a variable in scope; else for a class. -/
inductive Denotes (s : Store) (left : String) : Denotee → Prop
  | receiver {r : ObjectId} (hl : Key.of left = Key.self) (hr : s.innermost.receiver = some r) :
      Denotes s left (.value (.object r))
  | declared {id : ClassId} (hl : Key.of left ≠ Key.self) (hc : s.findClass? left = some id)
      (hn : (s.classOf id).name = left) : Denotes s left (.cls id)
  | inScope {v : Value} (hl : Key.of left ≠ Key.self)
      (hn : ∀ id, s.findClass? left = some id → (s.classOf id).name ≠ left)
      (hv : s.lookup left = .ok v) : Denotes s left (.value v)
  | recased {id : ClassId} (hl : Key.of left ≠ Key.self) (hc : s.findClass? left = some id)
      (hn : (s.classOf id).name ≠ left) (hv : s.lookup left = .error (.undefinedVariable left)) :
      Denotes s left (.cls id)

/-- The member of an object may be called: it is public, or a method of the object's class runs. -/
def Opens (s : Store) (r : ObjectId) (member : String) : Prop :=
  (s.objectClass r).methodVisibility member = .publ ∨
    s.innermost.context = some (s.object r).classId

/-- The call finds a method with a body: the bound constructor of a class, or a method of an object
that may be called. -/
inductive Finds (s : Store) (location : Location) (left member : String) (args : List Value) :
    Call → CallKind → Method → Prop
  | constructor {id : ClassId} {m : Method} (hd : s.Denotes left (.cls id))
      (hn : (s.classOf id).isConstructor member) (hm : (s.classOf id).constructor? = some m)
      (hi : m.implemented) :
      Finds s location left member args (.construct id member args (some location)) .new m
  | method {r : ObjectId} {m : Method} (hd : s.Denotes left (.value (.object r)))
      (ho : s.Opens r member) (hm : (s.objectClass r).findMethod? member = some m)
      (hi : m.implemented) :
      Finds s location left member args (.invoke r member args (some location))
        (if (s.objectClass r).isDestructor member then .destroy else .call) m

/-- Why a call may not be made. -/
inductive Refuses (s : Store) (location : Location) (left member : String) (args : List Value) :
    Cause → Prop
  | noSelf (hl : Key.of left = Key.self) (hr : s.innermost.receiver = none) :
      Refuses s location left member args .noSelf
  | undefined (hl : Key.of left ≠ Key.self) (hc : s.findClass? left = none)
      (hv : s.lookup left = .error (.undefinedVariable left)) :
      Refuses s location left member args (.undefinedVariable left)
  | notAnObject {v : Value} (hd : s.Denotes left (.value v)) (hv : ∀ r, v ≠ .object r) :
      Refuses s location left member args (.notAnObject left v.sort)
  | notAConstructor {id : ClassId} (hd : s.Denotes left (.cls id))
      (hn : ¬ (s.classOf id).isConstructor member) :
      Refuses s location left member args (.notAConstructor (s.classOf id).name member)
  | unfinished {id : ClassId} (hd : s.Denotes left (.cls id))
      (hn : (s.classOf id).isConstructor member)
      (hm : ∀ m, (s.classOf id).constructor? = some m → ¬ m.implemented) :
      Refuses s location left member args (.notImplemented (s.classOf id).name member)
  | accessDenied {r : ObjectId} (hd : s.Denotes left (.value (.object r)))
      (ho : ¬ s.Opens r member) :
      Refuses s location left member args (.accessDenied ((s.objectClass r).methodVisibility member)
        (s.objectClass r).name member)
  | notImplemented {r : ObjectId} (hd : s.Denotes left (.value (.object r)))
      (ho : s.Opens r member)
      (hm : ∀ m, (s.objectClass r).findMethod? member = some m → ¬ m.implemented) :
      Refuses s location left member args (.notImplemented (s.objectClass r).name member)
  | argumentCount {call : Call} {kind : CallKind} {m : Method}
      (hf : s.Finds location left member args call kind m) (hc : args.length ≠ m.params.length) :
      Refuses s location left member args
        (.argumentCount m.params.length args.length m.qualifiedName)

variable {s : Store} {location : Location} {left member : String} {args : List Value}

/-! What a name stands for. -/

theorem lookup?_eq_none_iff {name : String} :
    s.lookup? name = none ↔ s.lookup name = .error (.undefinedVariable name) := by
  unfold lookup
  cases s.lookup? name with
  | none => exact ⟨fun _ => rfl, fun _ => rfl⟩
  | some v => exact ⟨nofun, nofun⟩

theorem constructedClass_eq_some {id : ClassId} (h : s.constructedClass left = some id) :
    s.Denotes left (.cls id) := by
  unfold constructedClass at h
  split at h
  · cases h
  · next hl =>
    split at h
    · cases h
    · next found hc =>
      split at h
      · next hn =>
        cases h
        exact .declared hl hc hn
      · next hn =>
        split at h
        · cases h
        · next hv =>
          cases h
          exact .recased hl hc hn (lookup?_eq_none_iff.mp (Option.not_isSome_iff_eq_none.mp hv))

/-- A name that stands for no class is not spelled like one, and if there is a class of that name
there is a variable too. -/
theorem constructedClass_eq_none (hl : Key.of left ≠ Key.self)
    (h : s.constructedClass left = none) :
    (∀ id, s.findClass? left = some id → (s.classOf id).name ≠ left) ∧
      (s.findClass? left = none ∨ ∃ v, s.lookup left = .ok v) := by
  unfold constructedClass at h
  rw [if_neg hl] at h
  split at h
  · next hc =>
    refine ⟨fun id hid => ?_, .inl hc⟩
    rw [hc] at hid
    cases hid
  · next found hc =>
    split at h
    · cases h
    · next hn =>
      split at h
      · next hv =>
        obtain ⟨v, hv⟩ := Option.isSome_iff_exists.mp hv
        refine ⟨fun id hid => ?_, .inr ⟨v, ?_⟩⟩
        · rw [hc] at hid
          cases hid
          exact hn
        · unfold lookup
          rw [hv]
      · cases h

theorem Denotes.constructedClass {id : ClassId} (h : s.Denotes left (.cls id)) :
    s.constructedClass left = some id := by
  unfold Store.constructedClass
  cases h with
  | declared hl hc hn =>
    rw [if_neg hl, hc]
    exact if_pos hn
  | recased hl hc hn hv =>
    rw [if_neg hl, hc]
    dsimp only
    rw [if_neg hn, lookup?_eq_none_iff.mpr hv]
    rfl

theorem Denotes.constructedClass_eq_none {v : Value} (h : s.Denotes left (.value v)) :
    s.constructedClass left = none := by
  unfold Store.constructedClass
  cases h with
  | receiver hl hr => exact if_pos hl
  | inScope hl hn hv =>
    have hsome : (s.lookup? left).isSome := by
      unfold lookup at hv
      split at hv
      · next hfound => exact Option.isSome_iff_exists.mpr ⟨_, hfound⟩
      · cases hv
    rw [if_neg hl]
    split
    · rfl
    · next id hc => rw [if_neg (hn id hc), if_pos hsome]

theorem Denotes.objectOf {r : ObjectId} (h : s.Denotes left (.value (.object r))) :
    s.objectOf left location = .ok r := by
  unfold Store.objectOf
  cases h with
  | receiver hl hr =>
    unfold requireSelf
    rw [if_pos hl, hr]
    rfl
  | inScope hl hn hv => rw [if_neg hl, hv]

/-- The name on the left of a call stands for an object, or the call is refused. -/
theorem objectOf_cases (hc : s.constructedClass left = none) :
    (∃ r, s.objectOf left location = .ok r ∧ s.Denotes left (.value (.object r))) ∨
      ∃ c l, s.objectOf left location = .error (.fault l c) ∧
        s.Refuses location left member args c := by
  unfold objectOf
  by_cases hl : Key.of left = Key.self
  · rw [if_pos hl]
    unfold requireSelf
    cases hr : s.innermost.receiver with
    | none => exact .inr ⟨.noSelf, none, rfl, .noSelf hl hr⟩
    | some r => exact .inl ⟨r, rfl, .receiver hl hr⟩
  · rw [if_neg hl]
    obtain ⟨hn, hvariable⟩ := Store.constructedClass_eq_none hl hc
    cases hv : s.lookup left with
    | error c =>
      have hnone : s.findClass? left = none := by
        refine hvariable.resolve_right fun ⟨v, hfound⟩ => ?_
        rw [hv] at hfound
        cases hfound
      have hcause : c = .undefinedVariable left := by
        unfold lookup at hv
        split at hv
        · cases hv
        · cases hv
          rfl
      subst hcause
      exact .inr ⟨_, none, rfl, .undefined hl hnone hv⟩
    | ok v =>
      cases v with
      | object r => exact .inl ⟨r, rfl, .inScope hl hn hv⟩
      | int k => exact .inr ⟨_, some location, rfl, .notAnObject (.inScope hl hn hv) nofun⟩
      | nil => exact .inr ⟨_, some location, rfl, .notAnObject (.inScope hl hn hv) nofun⟩

/-! The checks. -/

instance (s : Store) (r : ObjectId) (member : String) : Decidable (s.Opens r member) :=
  inferInstanceAs (Decidable (_ ∨ _))

theorem checkAccess_eq (r : ObjectId) (member : String) :
    s.checkAccess (s.object r).classId member ((s.objectClass r).methodVisibility member) =
      if s.Opens r member then .ok ()
      else .error (.accessDenied ((s.objectClass r).methodVisibility member)
        (s.objectClass r).name member) := by
  by_cases ho : s.Opens r member
  · rw [if_pos ho]
    refine if_pos ?_
    rcases ho with hv | hc <;> simp [Store.inContextOf, *]
  · obtain ⟨hv, hc⟩ := not_or.mp ho
    rw [if_neg ho]
    refine if_neg ?_
    simp [Store.inContextOf, hv, hc]

/-- A class is asked for its constructor: it has one, or the call is refused. -/
theorem findConstructor_cases {id : ClassId} (hd : s.Denotes left (.cls id)) (args : List Value) :
    (∃ m, s.findConstructor id member = .ok m ∧
      s.Finds location left member args (.construct id member args (some location)) .new m) ∨
      ∃ c, s.findConstructor id member = .error c ∧ s.Refuses location left member args c := by
  unfold findConstructor
  dsimp only
  split
  · next hn =>
    cases hm : (s.classOf id).constructor? with
    | none => exact .inr ⟨_, rfl, .unfinished hd hn (by simp [hm])⟩
    | some m =>
      dsimp only
      split
      · next hi => exact .inl ⟨m, rfl, .constructor hd hn hm hi⟩
      · next hi =>
        refine .inr ⟨_, rfl, .unfinished hd hn fun m' h => ?_⟩
        rw [hm] at h
        cases h
        exact hi
  · next hn => exact .inr ⟨_, rfl, .notAConstructor hd hn⟩

/-- An object is asked for a method: it has one that may be called, or the call is refused. -/
theorem findMethod_cases {r : ObjectId} (hd : s.Denotes left (.value (.object r)))
    (args : List Value) :
    (∃ m kind, s.findMethod r member = .ok (m, kind) ∧
      s.Finds location left member args (.invoke r member args (some location)) kind m) ∨
      ∃ c, s.findMethod r member = .error c ∧ s.Refuses location left member args c := by
  unfold findMethod
  dsimp only
  rw [checkAccess_eq]
  by_cases ho : s.Opens r member
  · rw [if_pos ho]
    dsimp only [bind, Except.bind]
    cases hm : (s.objectClass r).findMethod? member with
    | none => exact .inr ⟨_, rfl, .notImplemented hd ho (by simp [hm])⟩
    | some m =>
      dsimp only
      split
      · next hi => exact .inl ⟨m, _, rfl, .method hd ho hm hi⟩
      · next hi =>
        refine .inr ⟨_, rfl, .notImplemented hd ho fun m' h => ?_⟩
        rw [hm] at h
        cases h
        exact hi
  · rw [if_neg ho]
    exact .inr ⟨_, rfl, .accessDenied hd ho⟩

/-- The checks of a call end in a fault. -/
def Stops (s : Store) (location : Location) (left member : String) (args : List Value)
    (l : Option Location) (c : Cause) : Prop :=
  s.callOn location left member args = .error (.fault l c) ∨
    ∃ call, s.callOn location left member args = .ok call ∧ call.location = l ∧
      call.permit s = .error c

/-- A call finds its method, or it is refused. -/
theorem finds_or_refuses (s : Store) (location : Location) (left member : String)
    (args : List Value) :
    (∃ call kind m, s.Finds location left member args call kind m) ∨
      ∃ c l, s.Refuses location left member args c ∧ s.Stops location left member args l c := by
  unfold Stops callOn
  cases hc : s.constructedClass left with
  | some id =>
    dsimp only
    rcases findConstructor_cases (constructedClass_eq_some hc) args with
      ⟨m, hm, hfinds⟩ | ⟨c, hm, hrefuses⟩
    · exact .inl ⟨_, _, m, hfinds⟩
    · refine .inr ⟨c, some location, hrefuses, .inr ⟨_, rfl, rfl, ?_⟩⟩
      simp only [Call.permit, hm]
  | none =>
    dsimp only
    rcases objectOf_cases hc with ⟨r, hr, hd⟩ | ⟨c, l, hr, hrefuses⟩
    · rw [hr]
      dsimp only
      rcases findMethod_cases hd args with ⟨m, kind, hm, hfinds⟩ | ⟨c, hm, hrefuses⟩
      · exact .inl ⟨_, kind, m, hfinds⟩
      · refine .inr ⟨c, some location, hrefuses, .inr ⟨_, rfl, rfl, ?_⟩⟩
        simp only [Call.permit, hm]
    · rw [hr]
      exact .inr ⟨c, l, hrefuses, .inl rfl⟩

/-- A call that finds its method comes to that call, and only its arguments are still to count. -/
theorem Finds.callOn {call : Call} {kind : CallKind} {m : Method}
    (h : s.Finds location left member args call kind m) :
    s.callOn location left member args = .ok call ∧ call.args = args ∧
      call.location = some location ∧ call.permit s = Call.checkCount kind m args := by
  unfold Store.callOn
  cases h with
  | @constructor id m hd hn hm hi =>
    have hfind : s.findConstructor id member = .ok m := by
      unfold findConstructor
      dsimp only
      rw [if_pos hn, hm]
      exact if_pos hi
    rw [hd.constructedClass]
    refine ⟨rfl, rfl, rfl, ?_⟩
    simp only [Call.permit, hfind]
  | @method r m hd ho hm hi =>
    have hfind : s.findMethod r member =
        .ok (m, if (s.objectClass r).isDestructor member then .destroy else .call) := by
      unfold findMethod
      dsimp only
      rw [checkAccess_eq, if_pos ho, hm]
      exact if_pos hi
    rw [hd.constructedClass_eq_none, hd.objectOf]
    refine ⟨rfl, rfl, rfl, ?_⟩
    simp only [Call.permit, hfind]

end Store

/-! Calls. -/

section

variable {host : Host} {room : Nat} {n : Machine} {location : Location} {left member : String}
  {args : List Value}

/-- What a call on a name comes to when its arguments are evaluated. It enters the body of the
method that it finds if the arguments count right and no handler that is told of the call fails. If
the checks do not pass, the machine stays as it is. -/
structure AllOrNothing (host : Host) (room : Nat) (n : Machine) (location : Location)
    (left member : String) (args : List Value) : Prop where
  entered : ∀ k f r,
    (k, Action.enter f r) ∈
          (callMember (runBody room) location left member args).moments host n ∧
        k.store.calls = n.store.calls ↔
      ∃ call kind m, n.store.Finds location left member args call kind m ∧
        args.length = m.params.length ∧
        (call.ready n).1.announce host kind m args (some location) = (.ok (), k) ∧
        f = n.store.frames.size ∧ r = (call.ready n).2
  disturbed : ∀ call kind m e k, n.store.Finds location left member args call kind m →
    args.length = m.params.length →
    (call.ready n).1.announce host kind m args (some location) = (.error e, k) →
    (callMember (runBody room) location left member args).run host n = (.error e, k)
  undisturbed : host.hooks = {} → ∀ (call : Call) kind m,
    ((call.ready n).1.announce host kind m args (some location)).1 = .ok ()
  refused : (∀ call kind m, n.store.Finds location left member args call kind m →
      args.length ≠ m.params.length) →
    ∃ c l, n.store.Refuses location left member args c ∧
      (callMember (runBody room) location left member args).run host n = (.error (.fault l c), n)

/-- A call whose checks end in a fault does nothing else. -/
theorem callMember_of_stops (host : Host) (room : Nat) {l : Option Location} {c : Cause}
    (h : n.store.Stops location left member args l c) :
    (callMember (runBody room) location left member args).run host n =
        (.error (.fault l c), n) ∧
      ((callMember (runBody room) location left member args).moments host n).filterMap
        Call.entry? = [] := by
  rw [run_callMember, filterMap_moments_callMember _ _ _ _ _ Call.entry?_of_attends]
  rcases h with h | ⟨call, h, rfl, hpermit⟩
  · rw [h]
    exact ⟨rfl, rfl⟩
  · rw [h]
    dsimp only
    rw [Call.run_script, Call.filterMap_moments_script Call.entry?_of_attends, hpermit]
    exact ⟨rfl, rfl⟩

/-- A call that finds a method that takes as many arguments runs it. -/
theorem callMember_of_finds (host : Host) (room : Nat) {call : Call} {kind : CallKind}
    {m : Method} (h : n.store.Finds location left member args call kind m)
    (hc : args.length = m.params.length) :
    (callMember (runBody room) location left member args).run host n =
        (call.script (runBody room)).run host n ∧
      ((callMember (runBody room) location left member args).moments host n).filterMap Call.entry? =
        ((call.script (runBody room)).moments host n).filterMap Call.entry? ∧
      call.permit n.store = .ok (kind, m) ∧ call.args = args ∧ call.location = some location := by
  obtain ⟨hcall, hargs, hlocation, hpermit⟩ := h.callOn
  rw [run_callMember, filterMap_moments_callMember _ _ _ _ _ Call.entry?_of_attends, hcall]
  exact ⟨rfl, rfl, hpermit.trans (if_pos hc), hargs, hlocation⟩

/-- A call that finds a method that takes another number of arguments is stopped. -/
theorem stops_of_count {call : Call} {kind : CallKind} {m : Method}
    (h : n.store.Finds location left member args call kind m)
    (hc : args.length ≠ m.params.length) :
    n.store.Stops location left member args (some location)
      (.argumentCount m.params.length args.length m.qualifiedName) := by
  obtain ⟨hcall, -, hlocation, hpermit⟩ := h.callOn
  exact .inr ⟨call, hcall, hlocation, hpermit.trans (if_neg hc)⟩

/-- A call passes its checks, or it is refused. -/
theorem passes_or_refused (n : Machine) (location : Location) (left member : String)
    (args : List Value) :
    (∃ call kind m, n.store.Finds location left member args call kind m ∧
        args.length = m.params.length) ∨
      ∃ c l, n.store.Refuses location left member args c ∧
        n.store.Stops location left member args l c := by
  rcases n.store.finds_or_refuses location left member args with ⟨call, kind, m, h⟩ | h
  · by_cases hc : args.length = m.params.length
    · exact .inl ⟨call, kind, m, h, hc⟩
    · exact .inr ⟨_, _, .argumentCount h hc, stops_of_count h hc⟩
  · exact .inr h

theorem callMember_entered {k : Machine} {f : FrameId} {r : ObjectId} :
    (k, Action.enter f r) ∈
          (callMember (runBody room) location left member args).moments host n ∧
        k.store.calls = n.store.calls ↔
      ∃ call kind m, n.store.Finds location left member args call kind m ∧
        args.length = m.params.length ∧
        (call.ready n).1.announce host kind m args (some location) = (.ok (), k) ∧
        f = n.store.frames.size ∧ r = (call.ready n).2 := by
  rw [← Call.mem_filterMap_entry?]
  constructor
  · rintro ⟨hmem, hcalls⟩
    rcases passes_or_refused n location left member args with
      ⟨call, kind, m, hfinds, hcount⟩ | ⟨c, l, -, hstops⟩
    · obtain ⟨-, hmoments, hpermit, hargs, hlocation⟩ := callMember_of_finds host room hfinds hcount
      rw [hmoments, Call.mem_filterMap_entry?] at hmem
      obtain ⟨_, _, hpermit', hentry⟩ := (Call.enters_iff call room).mp ⟨hmem, hcalls⟩
      cases hpermit.symm.trans hpermit'
      rw [hargs, hlocation] at hentry
      exact ⟨call, kind, m, hfinds, hcount, hentry⟩
    · rw [(callMember_of_stops host room hstops).2] at hmem
      cases hmem
  · rintro ⟨call, kind, m, hfinds, hcount, hentry⟩
    obtain ⟨-, hmoments, hpermit, hargs, hlocation⟩ := callMember_of_finds host room hfinds hcount
    rw [← hargs, ← hlocation] at hentry
    rw [hmoments, Call.mem_filterMap_entry?]
    exact (Call.enters_iff call room).mpr ⟨kind, m, hpermit, hentry⟩

theorem allOrNothing (host : Host) (room : Nat) (n : Machine) (location : Location)
    (left member : String) (args : List Value) :
    AllOrNothing host room n location left member args where
  entered _ _ _ := callMember_entered
  disturbed := by
    intro call kind m e k hfinds hcount hannounce
    obtain ⟨hrun, -, hpermit, hargs, hlocation⟩ := callMember_of_finds host room hfinds hcount
    rw [hrun, Call.run_script, hpermit]
    dsimp only
    rw [run_runMethod, hargs, hlocation, hannounce]
    rfl
  undisturbed := by
    intro hh call kind m
    rw [Machine.announce_of_no_hooks hh]
  refused := by
    intro hno
    rcases passes_or_refused n location left member args with
      ⟨call, kind, m, hfinds, hcount⟩ | ⟨c, l, hrefuses, hstops⟩
    · exact absurd hcount (hno call kind m hfinds)
    · exact ⟨c, l, hrefuses, (callMember_of_stops host room hstops).1⟩

end

/-! Assignments. -/

/-- An update that fails leaves the machine as it was. -/
theorem Machine.update_error {m m' : Machine} {location : Option Location} {r : Except Cause Store}
    {e : Raised} (h : m.update location r = (.error e, m')) : m' = m := by
  cases r with
  | ok s => cases h
  | error c =>
    cases h
    rfl

theorem writeDesignator_error {host : Host} {d : Designator} {v : Value} {m m' : Machine}
    {e : Raised} (h : (writeDesignator d v).run host m = (.error e, m')) : m' = m := by
  unfold writeDesignator at h
  split at h
  · exact Machine.update_error h
  · rw [run_bind, run_resolveObject] at h
    generalize m.store.objectOf d.base d.location = r at h
    cases r with
    | error e' =>
      cases h
      rfl
    | ok id => exact Machine.update_error h
  · cases h
    rfl

/-- Failed checks change nothing, whatever the handlers do. Once its arguments are evaluated, a call
enters the body of a method just if its name stands for something that has such a method, the
arguments count right, and no handler that is told of the call fails; if not for a handler, the
machine stays as it is. And an assignment that fails once its value is known leaves the machine as
the value left it. -/
theorem failed_checks_change_nothing (host : Host) (room : Nat) :
    (∀ location left member es n₀ n args,
      (evaluateAll (runBody room) es).run host n₀ = (.ok args, n) →
      AllOrNothing host room n location left member args ∧
      (evaluate (runBody room) (.call location left member es)).run host n₀ =
        (callMember (runBody room) location left member args).run host n ∧
      (evaluate (runBody room) (.call location left member es)).moments host n₀ =
        (evaluateAll (runBody room) es).moments host n₀ ++
          (callMember (runBody room) location left member args).moments host n) ∧
    ∀ location target value n₀ n v e n',
      (evaluate (runBody room) value).run host n₀ = (.ok v, n) →
      ((Statement.assignment location target value).effect (runBody room)).run host n₀ =
        (.error e, n') → n' = n := by
  refine ⟨?_, ?_⟩
  · intro location left member es n₀ n args hargs
    refine ⟨allOrNothing host room n location left member args, ?_, ?_⟩
    · unfold evaluate
      rw [run_bind_of_ok hargs]
    · unfold evaluate
      rw [moments_bind, hargs]
  · intro location target value n₀ n v e n' hv h
    unfold Statement.effect at h
    rw [run_bind_of_ok hv] at h
    exact writeDesignator_error h

/-- A program that makes an object of a class, whose constructor writes a number. -/
def Program.greeter (cls : String) : Program where
  location := default
  name := none
  classes := some ⟨default,
    [⟨default, cls, [.member (.method ⟨default, .constructor, "Create", [], none⟩)]⟩]⟩
  vars := none
  methods := some ⟨default,
    [⟨default, .constructor, cls, "Create", [], none,
      ⟨default, [.procedureCall default "writeln" [.literal default 1]]⟩⟩]⟩
  block := ⟨default, [.methodCall default cls "Create" []]⟩

/-- The machine when the declarations of a program are carried out. -/
def Program.declared (host : Host) (p : Program) : Machine :=
  ((do
    declareClasses (p.classes.elim [] Section.items)
    attachMethods (p.methods.elim [] Section.items) : Script Unit).run host {}).2

/-- Surroundings with a handler that fails when it is told of a call. -/
def Host.gagged : Host where
  hooks := { subscriptions := [(.beforeCall, [{ handler := ⟨0, fun _ _ _ => fails⟩ }])] }
where
  fails : Reaction := { failure := some (.host "boom") }

/-- A call that passes all checks need not enter a body: a handler that is told of it may fail. And
a class is not to be had by its name if the name is `self`. -/
theorem checked_call_not_entered :
    (let n := (Program.greeter "TGreeter").declared .gagged
      let x := callMember (runBody 1) default "TGreeter" "Create" []
      (∃ call kind m, n.store.Finds default "TGreeter" "Create" [] call kind m ∧ m.params = []) ∧
      (∀ k f r, (k, Action.enter f r) ∉ x.moments .gagged n) ∧
      ∃ e, (x.run .gagged n).1 = .error (.runtime e) ∧
        e.cause = .observerFailed "Hook 'before_call'" "boom") ∧
    (let n := (Program.greeter "Self").declared {}
      let x := callMember (runBody 1) default "Self" "Create" []
      (∃ id m, n.store.findClass? "Self" = some id ∧ (n.store.classOf id).name = "Self" ∧
        (n.store.classOf id).isConstructor "Create" ∧
        (n.store.classOf id).constructor? = some m ∧ m.implemented ∧ m.params = []) ∧
      (∀ k f r, (k, Action.enter f r) ∉ x.moments {} n) ∧
      x.run {} n = (.error (.fault none .noSelf), n)) := by
  refine ⟨?_, ?_⟩
  · intro n x
    have hclass : n.store.findClass? "TGreeter" = some 0 ∧
        (n.store.classOf 0).name = "TGreeter" ∧ (n.store.classOf 0).isConstructor "Create" ∧
        (n.store.classOf 0).constructor?.map (fun m => (m.implemented, m.params)) =
          some (true, []) := by
      decide +kernel
    have hmoments : ((x.moments .gagged n).filterMap Call.entry?).isEmpty = true := by
      decide +kernel
    have hfailed : (x.run .gagged n).1 =
        .error (.fault (some default) (.observerFailed "Hook 'before_call'" "boom")) := by
      decide +kernel
    obtain ⟨hfound, hname, hconstructor, hm⟩ := hclass
    obtain ⟨m, hbound, hm⟩ := Option.map_eq_some_iff.mp hm
    obtain ⟨himplemented, hparams⟩ := Prod.mk.inj hm
    have hdenotes : n.store.Denotes "TGreeter" (.cls 0) := .declared (by decide) hfound hname
    refine ⟨⟨_, _, m, .constructor hdenotes hconstructor hbound himplemented, hparams⟩, ?_, ?_⟩
    · intro k f r hk
      rw [← Call.mem_filterMap_entry?, List.isEmpty_iff.mp hmoments] at hk
      cases hk
    · exact ⟨_, hfailed, rfl⟩
  · intro n x
    have hclass : n.store.findClass? "Self" = some 0 ∧
        (n.store.classOf 0).name = "Self" ∧ (n.store.classOf 0).isConstructor "Create" ∧
        (n.store.classOf 0).constructor?.map (fun m => (m.implemented, m.params)) =
          some (true, []) := by
      decide +kernel
    have hreceiver : n.store.innermost.receiver = none := by
      decide +kernel
    obtain ⟨hfound, hname, hconstructor, hm⟩ := hclass
    obtain ⟨m, hbound, hm⟩ := Option.map_eq_some_iff.mp hm
    obtain ⟨himplemented, hparams⟩ := Prod.mk.inj hm
    have hself : Key.of "Self" = Key.self := by decide
    have hstops : n.store.Stops default "Self" "Create" [] none .noSelf := by
      left
      unfold Store.callOn Store.constructedClass Store.objectOf Store.requireSelf
      rw [if_pos hself, if_pos hself, hreceiver]
      rfl
    obtain ⟨hrun, hnone⟩ := callMember_of_stops {} 1 hstops
    refine ⟨⟨0, m, hfound, hname, hconstructor, hbound, himplemented, hparams⟩, ?_, hrun⟩
    intro k f r hk
    rw [← Call.mem_filterMap_entry?, hnone] at hk
    cases hk

end ObjectPascal
