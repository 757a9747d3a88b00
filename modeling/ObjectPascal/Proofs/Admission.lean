import ObjectPascal.Proofs.Access
import ObjectPascal.Proofs.CaseInsensitivity
import ObjectPascal.Proofs.Transcription

/-!
Who gets a method to run. The headers of a class say who may call its methods, and every body that
a run enters is entered by a call. Calls of an object's methods are checked against the headers.
Calls that make an object are not.
-/

namespace ObjectPascal

open Script

/-! What the headers of a class say. -/

/-- The member is a header of a method of that name. -/
def Member.heads (k : Key) : Member → Bool
  | .method header => Key.of header.name = k
  | _ => false

/-- The members that a class body lists, each with the visibility that it stands under. -/
def ClassItem.listed (visibility : Visibility) : List ClassItem → List (Visibility × Member)
  | [] => []
  | .member m :: items => (visibility, m) :: listed visibility items
  | .marked _ visibility ms :: items => ms.map (visibility, ·) ++ listed visibility items

/-- The visibility of the first header among some members. -/
def firstHeader? (k : Key) (members : List (Visibility × Member)) : Option Visibility :=
  (members.find? fun x => x.2.heads k).map Prod.fst

/-- The visibility of a method by its first header. Without a header it counts as public. -/
def ClassDecl.visibilityOf (d : ClassDecl) (name : String) : Visibility :=
  (firstHeader? (Key.of name) (ClassItem.listed .publ d.items)).getD .publ

theorem firstHeader?_append (k : Key) (xs ys : List (Visibility × Member)) :
    firstHeader? k (xs ++ ys) = (firstHeader? k xs).or (firstHeader? k ys) := by
  unfold firstHeader?
  rw [List.find?_append, Option.map_or]

theorem firstHeader?_cons (k : Key) (x : Visibility × Member) (xs : List (Visibility × Member)) :
    firstHeader? k (x :: xs) = (firstHeader? k [x]).or (firstHeader? k xs) :=
  firstHeader?_append k [x] xs

namespace Class

/-- The visibility recorded with the method of a name, if there is such a method. -/
def recorded? (c : Class) (k : Key) : Option (Option Visibility) :=
  (c.methods.find? k).map MethodEntry.visibility

theorem methodVisibility_eq (c : Class) (name : String) :
    c.methodVisibility name = (c.recorded? (Key.of name)).join.getD .publ := by
  unfold methodVisibility recorded?
  cases c.methods.find? (Key.of name) <;> rfl

/-- An implementation leaves the visibility as the header has it. -/
theorem methodVisibility_attachMethod (c : Class) (m : Method) (name : String) :
    (c.attachMethod m).methodVisibility name = c.methodVisibility name := by
  unfold methodVisibility attachMethod
  rw [bind_methods]
  dsimp only
  by_cases hk : Key.of name = m.key
  · rw [hk, Table.find?_insert_self]
    rfl
  · rw [Table.find?_insert_of_ne _ _ hk]

variable {c c' : Class} {visibility : Visibility}

/-- A header counts unless there is one already. -/
theorem recorded?_declareMethod (c : Class) (name : String) (kind : MethodKind)
    (params : List String) (visibility : Visibility) (k : Key) :
    (c.declareMethod name kind params visibility).recorded? k =
      (c.recorded? k).or (if Key.of name = k then some (some visibility) else none) := by
  unfold declareMethod recorded?
  dsimp only
  split
  · next hold =>
    obtain ⟨e, he⟩ := Option.isSome_iff_exists.mp hold
    by_cases hk : Key.of name = k
    · rw [← hk, he]
      rfl
    · rw [if_neg hk, Option.or_none]
  · next hnew =>
    rw [bind_methods]
    dsimp only
    by_cases hk : Key.of name = k
    · have hnone : c.methods.find? k = none := by
        rw [← hk]
        exact Option.not_isSome_iff_eq_none.mp hnew
      rw [if_pos hk, hk, Table.find?_insert_self, hnone]
      rfl
    · rw [if_neg hk, Option.or_none, Table.find?_insert_of_ne _ _ (Ne.symm hk)]

theorem recorded?_addMember {m : Member} (h : c.addMember visibility m = .ok c') (k : Key) :
    c'.recorded? k = (c.recorded? k).or ((firstHeader? k [(visibility, m)]).map some) := by
  cases m with
  | field group =>
    have hnone : firstHeader? k [(visibility, Member.field group)] = none := rfl
    rw [hnone, Option.map_none, Option.or_none]
    cases h
    induction group.names generalizing c with
    | nil => rfl
    | cons name names ih => exact ih
  | method header =>
    cases h
    rw [recorded?_declareMethod]
    congr 1
    by_cases hk : Key.of header.name = k <;> simp [firstHeader?, Member.heads, hk]
  | bare location => cases h

/-- Adds members one after another. -/
def addListed (members : List (Visibility × Member)) (c : Class) : Except Cause Class :=
  members.foldlM (fun c x => c.addMember x.1 x.2) c

theorem addMembers_eq (visibility : Visibility) (ms : List Member) (c : Class) :
    addMembers visibility ms c = addListed (ms.map (visibility, ·)) c := by
  unfold addListed
  induction ms generalizing c with
  | nil => rfl
  | cons m ms ih =>
    rw [addMembers, List.map_cons, List.foldlM_cons]
    exact bind_congr ih

/-- The items of a class body add the members that they list. -/
theorem addItems_eq (visibility : Visibility) (items : List ClassItem) (c : Class) :
    addItems visibility items c = addListed (ClassItem.listed visibility items) c := by
  unfold addListed
  induction items generalizing visibility c with
  | nil => rfl
  | cons item items ih =>
    cases item with
    | member m =>
      rw [addItems, ClassItem.listed, List.foldlM_cons]
      exact bind_congr (ih visibility)
    | marked location visibility' ms =>
      rw [addItems, ClassItem.listed, List.foldlM_append, addMembers_eq]
      exact bind_congr (ih visibility')

theorem addListed_cons {x : Visibility × Member} {xs : List (Visibility × Member)}
    (h : addListed (x :: xs) c = .ok c') :
    ∃ c₁, c.addMember x.1 x.2 = .ok c₁ ∧ addListed xs c₁ = .ok c' := by
  unfold addListed at h
  rw [List.foldlM_cons] at h
  cases hadd : c.addMember x.1 x.2 with
  | error cause =>
    rw [hadd] at h
    cases h
  | ok c₁ =>
    rw [hadd] at h
    exact ⟨c₁, rfl, h⟩

theorem recorded?_addListed {xs : List (Visibility × Member)} (h : addListed xs c = .ok c')
    (k : Key) : c'.recorded? k = (c.recorded? k).or ((firstHeader? k xs).map some) := by
  induction xs generalizing c with
  | nil =>
    cases h
    exact (Option.or_none ..).symm
  | cons x xs ih =>
    obtain ⟨c₁, hadd, hrest⟩ := addListed_cons h
    rw [ih hrest, recorded?_addMember hadd, firstHeader?_cons k x xs, Option.map_or,
      Option.or_assoc]

/-- The name of a class, and who may call its methods. -/
def heading (c : Class) : String × (String → Visibility) :=
  (c.name, c.methodVisibility)

theorem heading_attachMethod (c : Class) (m : Method) :
    (c.attachMethod m).heading = c.heading := by
  unfold heading
  rw [funext (methodVisibility_attachMethod c m)]
  exact congrArg (·, c.methodVisibility) (bind_name _ m)

end Class

/-- What a declaration says of the name of its class, and of who may call the methods. -/
def ClassDecl.heading (d : ClassDecl) : String × (String → Visibility) :=
  (d.name, d.visibilityOf)

theorem Class.heading_ofDecl {d : ClassDecl} {c : Class} (h : Class.ofDecl d = .ok c) :
    c.heading = d.heading := by
  have hvisibility : c.methodVisibility = d.visibilityOf := by
    funext member
    have hnone : ({ name := d.name } : Class).recorded? (Key.of member) = none := rfl
    unfold ofDecl at h
    rw [addItems_eq] at h
    rw [methodVisibility_eq, recorded?_addListed h, hnone, Option.none_or]
    unfold ClassDecl.visibilityOf
    cases firstHeader? (Key.of member) (ClassItem.listed .publ d.items) <;> rfl
  unfold heading ClassDecl.heading
  rw [name_of_ofDecl h, hvisibility]

/-! The classes of a run. -/

/-- In a run, nothing is known but that classes have a property when they are declared. -/
def classing (P : Class → Prop) : Regime Still where
  values _ _ := True
  classes _ _ := True
  methods _ _ := True
  declared := P
  impls _ := True
  exhausts := True
  values_int _ _ := trivial
  values_nil _ := trivial
  values_mono _ _ := trivial
  classes_mono _ _ := trivial

theorem classing_kept {P : Class → Prop} (hattach : ∀ c m, P c → P (c.attachMethod m))
    (host : Host) : (classing P).Kept host fun _ m => ∀ c ∈ m.store.classes, P c where
  perform := by
    intro w m a hm ha
    refine ⟨.still, trivial, ?_, ?_⟩
    · apply Machine.perform_classes hm
      · rintro c location rfl
        exact ha
      · rintro impl name c rfl hc
        exact hattach c _ hc
    · intro r _
      cases a with
      | constructedClass => exact fun _ _ => trivial
      | _ => trivial
  leave hm := hm

/-- What declared classes have and implementations leave alone, every class in a run has, if the
classes have it that were there from the start. -/
theorem Program.stores_classes {P : Class → Prop} {p : Program}
    (hdecl : ∀ d ∈ p.classes.elim [] Section.items, ∀ c, Class.ofDecl d = .ok c → P c)
    (hattach : ∀ c m, P c → P (c.attachMethod m)) (host : Host) (depth : Nat) {m : Machine}
    (hm : ∀ c ∈ m.store.classes, P c) :
    ∀ s ∈ (p.execute depth).stores host m, ∀ c ∈ s.classes, P c := by
  have hp : (classing P).likeness.Programs p p := Regime.programs hdecl fun _ _ => trivial
  have hself := Regime.couples_self hp trivial depth Still.still
  obtain ⟨hmoments, _, hend⟩ := (classing_kept hattach host).moments hself hm
  intro s hs
  rcases mem_stores.mp hs with ⟨x, hx, rfl | hpass⟩ | rfl
  · exact (hmoments x hx).choose_spec
  · rw [(Machine.passing_extends x.2 s hpass).classes]
    exact (hmoments x hx).choose_spec
  · exact hend

/-- The class has the heading of a class that a program declares or of one that was there before. -/
def Class.HeadedBy (p : Program) (s : Store) (c : Class) : Prop :=
  (∃ d ∈ p.classes.elim [] Section.items, c.heading = d.heading) ∨
    ∃ c' ∈ s.classes, c.heading = c'.heading

theorem Program.stores_headed (host : Host) (p : Program) (depth : Nat) (m : Machine) :
    ∀ s ∈ (p.execute depth).stores host m, ∀ c ∈ s.classes, c.HeadedBy p m.store := by
  apply Program.stores_classes
  · intro d hd c hc
    exact .inl ⟨d, hd, Class.heading_ofDecl hc⟩
  · intro c method hc
    unfold Class.HeadedBy
    rwa [Class.heading_attachMethod]
  · intro c hc
    exact .inr ⟨c, hc, rfl⟩

/-! Calls. -/

/-- A call, its arguments evaluated: of a class, to make an object, or of a method of an object. -/
inductive Call where
  | construct (id : ClassId) (member : String) (args : List Value) (location : Option Location)
  | invoke (receiver : ObjectId) (member : String) (args : List Value)
      (location : Option Location)

namespace Call

def script (body : List Statement → Script Unit) : Call → Script Value
  | .construct id member args location => ObjectPascal.construct body id member args location
  | .invoke receiver member args location => invokeMethod body receiver member args location

def member : Call → String
  | .construct _ member .. | .invoke _ member .. => member

def location : Call → Option Location
  | .construct _ _ _ location | .invoke _ _ _ location => location

def onObject : Call → Bool
  | .construct .. => false
  | .invoke .. => true

/-- The class that the method is looked for in. -/
def classId (s : Store) : Call → ClassId
  | .construct id .. => id
  | .invoke receiver .. => (s.object receiver).classId

def visibility (s : Store) (call : Call) : Visibility :=
  (s.classOf (call.classId s)).methodVisibility call.member

/-- The method is not public, and the call is not made from within its class. -/
def Trespasses (s : Store) (call : Call) : Prop :=
  call.visibility s ≠ .publ ∧ s.innermost.context ≠ some (call.classId s)

/-- Why the call is not to be had. -/
def denial (s : Store) (call : Call) : Cause :=
  .accessDenied (call.visibility s) (s.classOf (call.classId s)).name call.member

/-- The call comes to nothing: it is denied, the machine is as before, and no body is entered. -/
structure Denied (host : Host) (room : Nat) (n : Machine) (call : Call) : Prop where
  run : (call.script (runBody room)).run host n =
    (.error (.fault call.location (call.denial n.store)), n)
  enters : ∀ k frame r, (k, Action.enter frame r) ∉ (call.script (runBody room)).moments host n

/-- The call that starts at `n` enters, at `k`, the body of the method of its name in its class. The
calls that are active then, around the body, are those that were active at `n`. -/
structure Enters (host : Host) (room : Nat) (n k : Machine) (frame : FrameId) (r : ObjectId)
    (call : Call) : Prop where
  calls : k.store.calls = n.store.calls
  body : ∃ m, (n.store.classOf (call.classId n.store)).findMethod? call.member = some m ∧
    Subrun host (within frame r (runBody room (m.body.getD []))) k
      (call.script (runBody room)) n

variable {host : Host} {room : Nat} {n k : Machine}

/-- Whoever calls an object's method from where it may not be called is denied. -/
theorem denied_of_trespasses {receiver : ObjectId} {member : String} {args : List Value}
    {location : Option Location} (h : (invoke receiver member args location).Trespasses n.store) :
    (invoke receiver member args location).Denied host room n := by
  let call := invoke receiver member args location
  have hcheck : n.store.checkAccess (n.store.object receiver).classId member
      ((n.store.objectClass receiver).methodVisibility member) = .error (call.denial n.store) := by
    have hclosed : (n.store.objectClass receiver).methodVisibility member ≠ .publ := h.1
    have hout : n.store.innermost.context ≠ some (n.store.object receiver).classId := h.2
    unfold Store.checkAccess Store.inContextOf
    simp only [hclosed, hout, decide_false, Bool.or_false, Bool.false_eq_true, if_false]
    rfl
  have hfind : n.perform host (.findMethod receiver member location) =
      (.error (.fault location (call.denial n.store)), n) := by
    change (faultAt location (n.store.findMethod receiver member), n) = _
    unfold Store.findMethod
    dsimp only
    rw [hcheck]
    rfl
  constructor
  · change (invokeMethod (runBody room) receiver member args location).run host n = _
    unfold invokeMethod
    rw [run_bind, run_perform, hfind]
    rfl
  · intro k frame r hk
    rcases mem_moments_bind.mp hk with hk | ⟨found, n', hr, -⟩
    · cases List.mem_singleton.mp hk
    · rw [run_perform, hfind] at hr
      cases hr

/-- Making an object adds it to the others. -/
theorem objects_lt_of_newObject {α : Type} {id : ClassId} {f : ObjectId → Script α}
    (hf : ∀ object, Evaluates (f object)) :
    n.store.objects.size <
      ((perform (.newObject id) >>= f).run host n).2.store.objects.size := by
  let n' : Machine := { n with store := (n.store.newObject id).1 }
  have hrun : (perform (.newObject id) >>= f).run host n =
      (f n.store.objects.size).run host n' :=
    run_bind_of_ok rfl
  have hext : n'.store.Extends ((f n.store.objects.size).run host n').2.store :=
    (hf _).extends _ (mem_stores.mpr (.inr rfl))
  have hsize : n'.store.objects.size = n.store.objects.size + 1 := Array.size_push _
  have hle := hext.objects.length_le
  simp only [Array.length_toList, Array.size_map] at hle
  rw [hrun]
  omega

/-- Nobody who makes an object is denied the constructor. -/
theorem not_denied_construct (id : ClassId) (member : String) (args : List Value)
    (location : Option Location) :
    ¬ (construct id member args location).Denied host room n := by
  intro h
  have hrun : (ObjectPascal.construct (runBody room) id member args location).run host n = _ :=
    h.run
  unfold ObjectPascal.construct at hrun
  have hperform : n.perform host (.findConstructor id member location) =
      (faultAt location (n.store.findConstructor id member), n) := rfl
  rw [run_bind, run_perform, hperform] at hrun
  cases hfind : n.store.findConstructor id member with
  | error c =>
    rw [hfind] at hrun
    cases hrun
    cases Store.findConstructor_error hfind
  | ok m =>
    rw [hfind] at hrun
    dsimp only [faultAt] at hrun
    rw [run_bind] at hrun
    unfold checkArity at hrun
    by_cases harity : args.length = m.params.length
    · rw [if_pos harity, run_pure] at hrun
      have hmore : n.store.objects.size < ((perform (.newObject id) >>= fun object =>
          runMethod (runBody room) .new object m args location >>= fun _ =>
            pure (Value.object object)).run host n).2.store.objects.size :=
        objects_lt_of_newObject fun _ =>
          .bind (Evaluates.runMethod (.runBody room) _ _ _ _ _) fun _ => .pure _
      have hsame := congrArg (fun r => r.2.store.objects.size) hrun
      exact absurd hsame (Nat.ne_of_gt hmore)
    · rw [if_neg harity, run_fault] at hrun
      cases hrun

end Call

/-! Every body is entered by a call. -/

namespace Script

variable {α β : Type} {host : Host} {own : Script Unit → Prop}

/-- How a body comes to be entered at `k` when a script is run from `m`: it is one of the script's
own, entered with the same calls active as at first, or it is entered by a call. -/
inductive Entry (host : Host) (own : Script Unit → Prop) (x : Script α) (m k : Machine)
    (frame : FrameId) (r : ObjectId) : Prop
  | own {inside : Script Unit} (h : own inside) (hk : k.store.calls = m.store.calls)
      (hs : Subrun host (within frame r inside) k x m)
  | call {call : Call} {room : Nat} {n : Machine}
      (hs : Subrun host (call.script (runBody room)) n x m)
      (h : call.Enters host room n k frame r)

namespace Entry

variable {x : Script α} {f : α → Script β} {m m' k : Machine} {frame : FrameId} {r : ObjectId}

theorem first (h : Entry host own x m k frame r) : Entry host own (x >>= f) m k frame r := by
  cases h with
  | own h hk hs => exact .own h hk (.first hs)
  | call hs h => exact .call (.first hs) h

theorem next {a : α} (hr : x.run host m = (.ok a, m')) (hm : m'.store.calls = m.store.calls)
    (h : Entry host own (f a) m' k frame r) : Entry host own (x >>= f) m k frame r := by
  cases h with
  | own h hk hs => exact .own h (hk.trans hm) (.next hr hs)
  | call hs h => exact .call (.next hr hs) h

theorem attempt (h : Entry host own x m k frame r) :
    Entry host own x.attempt m k frame r := by
  cases h with
  | own h hk hs => exact .own h hk (.attempt hs)
  | call hs h => exact .call (.attempt hs) h

end Entry

/-- The script leaves the active calls as they are, and every body that it enters is one of its own
or entered by a call. -/
structure EntersBy (host : Host) (own : Script Unit → Prop) (x : Script α) : Prop where
  run : ∀ m, (x.run host m).2.store.calls = m.store.calls
  enters : ∀ m k frame r, (k, Action.enter frame r) ∈ x.moments host m →
    Entry host own x m k frame r

/-- The script has no bodies of its own. -/
abbrev EntersByCall (host : Host) (x : Script α) : Prop :=
  EntersBy host (fun _ => False) x

namespace EntersBy

theorem pure (a : α) : EntersBy host own (Pure.pure a : Script α) :=
  ⟨fun _ => rfl, fun _ _ _ _ h => nomatch h⟩

theorem fail (e : Raised) : EntersBy host own (Script.fail e : Script α) :=
  ⟨fun _ => rfl, fun _ _ _ _ h => nomatch h⟩

theorem perform {a : Action} (ha : a.keepsCalls = true) :
    EntersBy host own (Script.perform a) := by
  refine ⟨fun m => Machine.perform_calls host m a ha, fun m k frame r h => ?_⟩
  cases List.mem_singleton.mp h
  cases ha

theorem bind {x : Script α} {f : α → Script β} (hx : EntersBy host own x)
    (hf : ∀ a, EntersBy host own (f a)) : EntersBy host own (x >>= f) := by
  constructor
  · intro m
    have hcalls := hx.run m
    obtain ⟨a, m', hr, hb⟩ | ⟨e, m', hr, hb⟩ := run_bind_cases host x f m
    all_goals rw [hr] at hcalls
    all_goals rw [hb]
    · exact ((hf a).run m').trans hcalls
    · exact hcalls
  · intro m k frame r h
    rcases mem_moments_bind.mp h with h | ⟨a, m', hr, h⟩
    · exact (hx.enters m k frame r h).first
    · have hcalls := hx.run m
      rw [hr] at hcalls
      exact ((hf a).enters m' k frame r h).next hr hcalls

theorem attempt {x : Script α} (hx : EntersBy host own x) : EntersBy host own x.attempt :=
  ⟨hx.run, fun m k frame r h => (hx.enters m k frame r h).attempt⟩

theorem mapError (g : Raised → Raised) {x : Script α} (hx : EntersBy host own x) :
    EntersBy host own (x.mapError g) := by
  refine .bind (.attempt hx) fun r => ?_
  cases r with
  | ok a => exact .pure a
  | error e => exact .fail _

theorem of_silent {places : List Location} {x : Script α} (hx : Silent places x) :
    EntersBy host own x := by
  induction hx with
  | done a => exact .pure a
  | fail => exact .fail _
  | @perform a h =>
    refine .perform ?_
    cases a <;> first | rfl | cases h
  | andThen _ _ ihx ihf => exact .bind ihx ihf

theorem of_declares {x : Script α} (hx : Declares x) : EntersBy host own x := by
  induction hx with
  | done a => exact .pure a
  | fail e => exact .fail e
  | @perform a h =>
    refine .perform ?_
    cases a <;> first | rfl | cases h
  | log => exact .perform rfl
  | andThen _ _ ihx ihf => exact .bind ihx ihf

/-- Running a method enters its body, and what is entered inside of that is entered by calls. -/
theorem within {frame : FrameId} {receiver : ObjectId} {inside : Script Unit}
    (hx : EntersByCall host inside) :
    EntersBy host (· = inside) (within frame receiver inside) := by
  refine ⟨fun m => ?_, fun m k frame' r h => ?_⟩
  · rw [run_within]
    exact congrArg List.tail (hx.run (m.entered frame receiver))
  · rw [moments_within] at h
    rcases List.mem_append.mp h with h | h
    · rcases List.mem_cons.mp h with h | h
      · cases h
        exact .own rfl rfl .refl
      · cases hx.enters _ _ _ _ h with
        | own h => exact h.elim
        | call hs h => exact .call (.next rfl (.first (.attempt hs))) h
    · -- what is left to do after the body enters nothing
      split at h
      · cases List.mem_singleton.mp h
      · rcases List.mem_cons.mp h with h | h
        · cases h
        · cases List.mem_singleton.mp h

theorem runMethod {body : List Statement → Script Unit} {m : Method}
    (hb : EntersByCall host (body (m.body.getD []))) (kind : CallKind) (receiver : ObjectId)
    (args : List Value) (location : Option Location) :
    EntersBy host (· = body (m.body.getD [])) (runMethod body kind receiver m args location) := by
  have hrender : EntersBy host (· = body (m.body.getD [])) (renderAll args) :=
    of_silent (Silent.renderAll args : Silent [] _)
  have hresult (frame : FrameId) : EntersBy host (· = body (m.body.getD [])) (callResult m frame) :=
    of_silent (Silent.callResult m frame : Silent [] _)
  refine .bind (.perform rfl) fun frame => ?_
  refine .bind hrender fun _ => ?_
  refine .bind (.perform rfl) fun _ => ?_
  refine .bind (.perform rfl) fun _ => ?_
  refine .bind (.within hb) fun _ => ?_
  refine .bind (hresult frame) fun _ => ?_
  exact .bind (.perform rfl) fun _ => .bind (.perform rfl) fun _ => .pure _

/-- A call first finds its method. What it enters after that is the method's body, or entered by a
further call. -/
theorem of_call (call : Call) {room : Nat} {a : Action} {f : a.Result → Script Value}
    (hscript : call.script (runBody room) = Script.perform a >>= f) (ha : a.keepsCalls = true)
    (hfound : ∀ (n : Machine) b, (n.perform host a).1 = .ok b →
      ∃ m, (n.store.classOf (call.classId n.store)).findMethod? call.member = some m ∧
        EntersBy host (· = runBody room (m.body.getD [])) (f b))
    (hb : Balanced host (call.script (runBody room))) :
    EntersByCall host (call.script (runBody room)) := by
  refine ⟨hb.run, fun n k frame r h => ?_⟩
  rw [hscript] at h
  rcases mem_moments_bind.mp h with h | ⟨b, n', hr, h⟩
  · cases List.mem_singleton.mp h
    cases ha
  · have hcalls : n'.store.calls = n.store.calls := by
      have hkept := Machine.perform_calls host n a ha
      rw [run_perform] at hr
      rwa [hr] at hkept
    obtain ⟨m, hm, henters⟩ := hfound n b (congrArg Prod.fst hr)
    cases henters.enters n' k frame r h with
    | @own inside hown hk hs =>
      subst hown
      have hbody : Subrun host (ObjectPascal.within frame r (runBody room (m.body.getD []))) k
          (call.script (runBody room)) n := by
        rw [hscript]
        exact .next hr hs
      have henters : call.Enters host room n k frame r := ⟨hk.trans hcalls, m, hm, hbody⟩
      exact .call .refl henters
    | call hs h =>
      rw [hscript]
      exact .call (.next hr hs) h

section

variable {room : Nat} (hb : ∀ ss, EntersByCall host (runBody room ss))

include hb

theorem construct (id : ClassId) (member : String) (args : List Value)
    (location : Option Location) :
    EntersByCall host (construct (runBody room) id member args location) := by
  refine of_call (.construct id member args location) rfl rfl ?_
    (balanced_of_nested (.of_evaluates (.construct (.runBody room) _ _ _ _)))
  intro n m hm
  have hfind : n.store.findConstructor id member = .ok m := faultAt_ok hm
  obtain ⟨-, e, he, rfl⟩ := Store.findConstructor_ok hfind
  refine ⟨e.method, congrArg (Option.map MethodEntry.method) he, ?_⟩
  refine .bind (of_silent (.checkArity (fun _ => Option.mem_toList.mpr) _ args)) fun _ => ?_
  refine .bind (.perform rfl) fun object => ?_
  exact .bind (.runMethod (hb _) _ _ _ _) fun _ => .pure _

theorem invokeMethod (receiver : ObjectId) (member : String) (args : List Value)
    (location : Option Location) :
    EntersByCall host (invokeMethod (runBody room) receiver member args location) := by
  refine of_call (.invoke receiver member args location) rfl rfl ?_
    (balanced_of_nested (.of_evaluates (.invokeMethod (.runBody room) _ _ _ _)))
  rintro n ⟨m, kind⟩ hm
  have hfind : n.store.findMethod receiver member = .ok (m, kind) := faultAt_ok hm
  obtain ⟨-, e, he, rfl⟩ := Store.findMethod_ok hfind
  refine ⟨e.method, congrArg (Option.map MethodEntry.method) he, ?_⟩
  refine .bind (of_silent (.checkArity (fun _ => Option.mem_toList.mpr) _ args)) fun _ => ?_
  exact .runMethod (hb _) _ _ _ _

theorem of_orderly {places calls : List Location} {x : Script α}
    (hx : Orderly (ObjectPascal.runBody room) places calls x) : EntersByCall host x := by
  induction hx with
  | silent h => exact of_silent h
  | andThen _ _ ihx ihf => exact .bind ihx ihf
  | construct => exact construct hb _ _ _ _
  | invokeMethod => exact invokeMethod hb _ _ _ _
  | procedure _ _ h =>
    exact .bind (.perform rfl) fun _ => .bind (of_silent h) fun _ => .bind (.perform rfl) fun _ =>
      .perform rfl

theorem executeAll (ss : List Statement) :
    EntersByCall host (executeAll (ObjectPascal.runBody room) ss) := by
  induction ss with
  | nil => exact .pure _
  | cons s ss ih =>
    have hs : EntersByCall host (s.execute (ObjectPascal.runBody room)) :=
      .bind (.perform rfl) fun _ => .mapError _ (of_orderly hb (.effect s))
    exact .bind (.perform rfl) fun _ => .bind hs fun _ => .bind (.perform rfl) fun _ => ih

end

/-- By induction on how deep calls may nest. -/
theorem runBody (room : Nat) (ss : List Statement) : EntersByCall host (runBody room ss) := by
  induction room generalizing ss with
  | zero => exact .fail _
  | succ room ih => exact executeAll ih ss

theorem report (raised : Raised) : EntersByCall host (Program.report raised) := by
  cases raised with
  | runtime error =>
    exact .bind (.perform rfl) fun _ => .bind (.perform rfl) fun _ => .bind (.perform rfl) fun _ =>
      .fail _
  | host fault =>
    exact .bind (.perform rfl) fun _ => .bind (.perform rfl) fun _ => .bind (.perform rfl) fun _ =>
      .fail _
  | exhausted error =>
    exact .bind (.mapError _ (.perform rfl)) fun _ => .bind (.perform rfl) fun _ =>
      .bind (.perform rfl) fun _ => .fail _

theorem programExecute (depth : Nat) (p : Program) : EntersByCall host (p.execute depth) := by
  have heffect : EntersByCall host (p.effect depth) :=
    .bind (of_declares (.declareClasses _)) fun _ =>
      .bind (of_declares (.attachMethods _)) fun _ =>
        .bind (of_declares (.declareVars _)) fun _ => executeAll (runBody depth) _
  refine .bind (.perform rfl) fun _ => .bind (.attempt heffect) fun r => ?_
  cases r with
  | ok _ => exact .perform rfl
  | error raised => exact report raised

end EntersBy

end Script

/-! Whole programs. -/

/-- The call is made in a run of the program. -/
def Call.Arises (host : Host) (p : Program) (depth : Nat) (m : Machine) (room : Nat) (n : Machine)
    (call : Call) : Prop :=
  Subrun host (call.script (runBody room)) n (p.execute depth) m

/-- Visibility in every run of a program, whatever the handlers, the input and the output do. The
classes have the headings that their declarations give them. Every body that is entered is that of
the method of some call, and unless the method is public or its class is constructed, the call is
made from within the class. Of the calls that are made from elsewhere, of methods that are not
public, those on objects are denied before anything happens, and none that make objects are. So all
such calls are denied if and only if no objects are made by them. -/
theorem trespass_denied_iff (host : Host) (p : Program) (depth : Nat) (m : Machine) :
    (∀ s ∈ (p.execute depth).stores host m, ∀ c ∈ s.classes, c.HeadedBy p m.store) ∧
    (∀ k frame r, (k, Action.enter frame r) ∈ (p.execute depth).moments host m →
      ∃ call room n, Call.Arises host p depth m room n call ∧
        call.Enters host room n k frame r ∧
        (call.visibility n.store ≠ .publ → call.onObject →
          k.store.innermost.context = some (call.classId n.store))) ∧
    (∀ (call : Call) room n, call.Trespasses n.store →
      (call.Denied host room n ↔ call.onObject)) ∧
    ((∀ (call : Call) room n, call.Arises host p depth m room n → call.Trespasses n.store →
        call.Denied host room n) ↔
      ∀ (call : Call) room n, call.Arises host p depth m room n → call.Trespasses n.store →
        call.onObject) := by
  have hdenied (call : Call) (room : Nat) (n : Machine) (h : call.Trespasses n.store) :
      call.Denied host room n ↔ call.onObject := by
    cases call with
    | construct id member args location =>
      exact iff_of_false (Call.not_denied_construct id member args location) nofun
    | invoke receiver member args location =>
      exact iff_of_true (Call.denied_of_trespasses h) rfl
  refine ⟨p.stores_headed host depth m, ?_, hdenied, ?_⟩
  · intro k frame r hk
    cases (EntersBy.programExecute depth p).enters m k frame r hk with
    | own h => exact h.elim
    | @call call room n hs henters =>
      refine ⟨call, room, n, hs, henters, fun hv ho => ?_⟩
      rw [Store.innermost_of_calls henters.calls]
      by_contra hout
      obtain ⟨_, _, hbody⟩ := henters.body
      have hmoment : (k, Action.enter frame r) ∈ (call.script (runBody room)).moments host n :=
        hbody.mem_moments List.mem_cons_self
      exact ((hdenied call room n ⟨hv, hout⟩).mpr ho).enters k frame r hmoment
  · refine forall_congr' fun call => forall_congr' fun room => forall_congr' fun n => ?_
    exact forall_congr' fun _ => forall_congr' fun h => hdenied call room n h

/-- A program that makes an object of a class whose only constructor is private. -/
def Program.closet : Program where
  location := default
  name := none
  classes := some ⟨default,
    [⟨default, "TCloset",
      [.marked default .priv [.method ⟨default, .constructor, "Create", [], none⟩]]⟩]⟩
  vars := some ⟨default, [⟨default, ["c"], "TCloset"⟩]⟩
  methods := some ⟨default,
    [⟨default, .constructor, "TCloset", "Create", [], none,
      ⟨default, [.procedureCall default "writeln" [.literal default 1]]⟩⟩]⟩
  block := ⟨default, [.assignment default ⟨default, "c", []⟩ (.call default "TCloset" "Create" [])]⟩

/-- The constructor is private by its header, and the main block, which is within no class, makes
the object all the same: the body is entered from there, and the program ends well. -/
theorem private_constructor_entered :
    let x := Program.closet.execute 1
    (x.run {} {}).1 = .ok () ∧ (x.run {} {}).2.output = #["1"] ∧
    ∃ k frame r, (k, Action.enter frame r) ∈ x.moments {} {} ∧
      (k.store.frame frame).name = "TCloset.Create" ∧
      (k.store.objectClass r).methodVisibility "Create" = .priv ∧
      k.store.innermost.context = none := by
  intro x
  let entered (y : Machine × Action) : Bool :=
    match y with
    | (k, .enter frame r) =>
      (k.store.frame frame).name = "TCloset.Create" ∧
        (k.store.objectClass r).methodVisibility "Create" = .priv ∧
        k.store.innermost.context = none
    | _ => false
  have hrun : (x.run {} {}).1.toOption = some () ∧ (x.run {} {}).2.output = #["1"] := by
    decide +kernel
  have hfound : (x.moments {} {}).any entered = true := by
    decide +kernel
  obtain ⟨⟨k, a⟩, hmoment, hentered⟩ := List.any_eq_true.mp hfound
  refine ⟨?_, hrun.2, ?_⟩
  · cases hr : (x.run {} {}).1 with
    | ok => rfl
    | error e =>
      rw [hr] at hrun
      cases hrun.1
  · cases a with
    | enter frame r => exact ⟨k, frame, r, hmoment, of_decide_eq_true hentered⟩
    | _ => cases hentered

end ObjectPascal
