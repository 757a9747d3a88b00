import ObjectPascal.Proofs.Chronicle
import ObjectPascal.Proofs.Invocation
import ObjectPascal.Proofs.Resolution

/-!
The results that frames hold. While a function runs in the innermost frame, its own name stands for
its result, whatever else is of that name. Only an assignment to this name changes the result, and
only while the frame is the innermost: nothing that happens in any other frame makes a difference to
it.
-/

namespace ObjectPascal

open Script

/-! What changes the result of a frame. -/

namespace Frame

/-- What a frame has to give: whose result it holds, what it is, and whether it was assigned. -/
def outcome (f : Frame) : Option String × Value × Bool :=
  (f.resultName, f.result, f.returned)

/-- The name that stands for the result, in a function. -/
def own? (f : Frame) : Option Key :=
  f.resultName.map Key.of

theorem isResult_iff {f : Frame} {name : String} :
    f.isResult name = true ↔ f.own? = some (Key.of name) := by
  unfold isResult own?
  cases f.resultName <;> simp

/-- Of the values that are recorded one after another the last one counts. -/
theorem outcome_records (f : Frame) (vs : List Value) :
    (vs.foldl recordResult f).outcome =
      (f.resultName, vs.getLast?.getD f.result, f.returned || !vs.isEmpty) := by
  induction vs generalizing f with
  | nil => simp [outcome]
  | cons v vs ih =>
    rw [List.foldl_cons, ih, List.getLast?_cons]
    simp [recordResult]

theorem outcome_records_congr {f g : Frame} (h : f.outcome = g.outcome) (vs : List Value) :
    (vs.foldl recordResult f).outcome = (vs.foldl recordResult g).outcome := by
  obtain ⟨hname, hrest⟩ := Prod.mk.inj h
  obtain ⟨hresult, hreturned⟩ := Prod.mk.inj hrest
  rw [outcome_records, outcome_records, hname, hresult, hreturned]

end Frame

namespace Store

variable {s s' : Store} {name : String} {v : Value}

theorem setField_frames {id : ObjectId} (h : s.setField id name v = .ok s') :
    s'.frames = s.frames := by
  unfold setField at h
  split at h
  · cases h
    rfl
  · cases h

/-- Assigning to a variable changes no result. -/
theorem assign_outcome (h : s.assign name v = .ok s') :
    s'.frames.map Frame.outcome = s.frames.map Frame.outcome := by
  unfold assign at h
  split at h
  · cases h
  · cases h
    have hset : ∀ f : Frame, (f.set name v).outcome = f.outcome := fun _ => rfl
    exact map_modify_of_eq (g := (·.set name v)) fun f _ => hset f
  · rw [setField_frames h]

/-- Where a name stands for a result, the value is recorded there, and that is all. -/
theorem assignName_of_own (h : (s.frame s.innermost.frame).own? = some (Key.of name)) (v : Value) :
    s.assignName name v = .ok (s.updateFrame s.innermost.frame (·.recordResult v)) :=
  if_pos (Frame.isResult_iff.mpr h)

theorem assignName_outcome (h : s.assignName name v = .ok s') {f : FrameId}
    (hother : ¬(s.innermost.frame = f ∧ (s.frame f).own? = some (Key.of name))) :
    (s'.frame f).outcome = (s.frame f).outcome := by
  unfold assignName at h
  dsimp only at h
  split at h
  · next hown =>
    have hne : s.innermost.frame ≠ f := by
      rintro rfl
      exact hother ⟨rfl, Frame.isResult_iff.mp hown⟩
    cases h
    rw [frame_updateFrame, if_neg fun hf => hne hf.1]
  · exact getD_of_map_eq (assign_outcome h) f

end Store

/-- The value that an action gives a frame as its result: one that is assigned to the name that
stands for it, while the frame is the innermost. -/
def given? (f : FrameId) (own : Option Key) : Machine × Action → Option Value
  | (m, .assign name v) =>
    if m.store.innermost.frame = f ∧ own = some (Key.of name) then some v else none
  | _ => none

theorem given?_of_ne {f : FrameId} {own : Option Key} {m : Machine}
    (h : m.store.innermost.frame ≠ f) (a : Action) : given? f own (m, a) = none := by
  cases a with
  | assign => exact if_neg fun hf => h hf.1
  | _ => rfl

def Action.assigns : Action → Bool
  | .assign .. => true
  | _ => false

theorem given?_of_assigns {f : FrameId} {own : Option Key} (m : Machine) {a : Action}
    (h : a.assigns = false) : given? f own (m, a) = none := by
  cases a with
  | assign => cases h
  | _ => rfl

theorem given?_of_attends {f : FrameId} {own : Option Key} (m : Machine) (a : Action)
    (h : a.attends = true) : given? f own (m, a) = none := by
  refine given?_of_assigns m ?_
  cases a with
  | assign => cases h
  | _ => rfl

namespace Machine

variable {host : Host} {m : Machine} {f : FrameId}

theorem outcome_assignKeeps (s : Store) :
    Store.AssignKeeps (fun s' => s'.frames.map Frame.outcome = s.frames.map Frame.outcome)
      fun _ => True :=
  fun hs _ h => (Store.assign_outcome h).trans hs

/-- What handlers do while an action is carried out changes no result. -/
theorem passing_outcome (a : Action) :
    ∀ s ∈ m.passing host a, (s.frame f).outcome = (m.store.frame f).outcome := by
  intro s hs
  have hframes := passing_keeps (outcome_assignKeeps m.store) (all_assigns _ _) rfl a s hs
  exact getD_of_map_eq hframes f

/-- The result of a frame changes only as the frame is given one. -/
theorem perform_outcome (host : Host) (a : Action) (hf : f < m.store.frames.size) :
    ((m.perform host a).2.store.frame f).outcome =
      ((given? f (m.store.frame f).own? (m, a)).toList.foldl Frame.recordResult
        (m.store.frame f)).outcome := by
  have same {s : Store} (h : s.frames.map Frame.outcome = m.store.frames.map Frame.outcome) :
      (s.frame f).outcome = (m.store.frame f).outcome :=
    getD_of_map_eq h f
  have update {location : Option Location} {r : Except Cause Store}
      (h : ∀ s, r = .ok s → (s.frame f).outcome = (m.store.frame f).outcome) :
      ((m.update location r).2.store.frame f).outcome = (m.store.frame f).outcome :=
    update_store (P := fun s => (s.frame f).outcome = (m.store.frame f).outcome) rfl h
  cases a with
  | log step location =>
    exact same (logStep_keeps (outcome_assignKeeps m.store) (all_assigns _ _) rfl step location)
  | emit event =>
    exact same (emit_keeps (outcome_assignKeeps m.store) (all_assigns _ _) rfl event)
  | writeField =>
    refine update fun s hs => same ?_
    rw [Store.setField_frames (Store.setField_of_writeField hs)]
  | assign name v =>
    unfold given?
    dsimp only
    split
    · next hown =>
      obtain ⟨rfl, hname⟩ := hown
      change ((m.update none (m.store.assignName name v)).2.store.frame _).outcome = _
      rw [Store.assignName_of_own hname]
      change ((m.store.updateFrame _ (·.recordResult v)).frame _).outcome = _
      rw [Store.frame_updateFrame, if_pos ⟨rfl, hf⟩]
      rfl
    · next hother => exact update fun s hs => Store.assignName_outcome hs hother
  | newFrame => exact congrArg Frame.outcome (getD_push_of_lt _ hf)
  | write line =>
    change ((m.write host line).2.store.frame f).outcome = _
    rw [write_store]
    rfl
  | nextWord =>
    change (m.nextWord.2.store.frame f).outcome = _
    rw [nextWord_store]
    rfl
  | defineClass =>
    refine update fun s hs => ?_
    obtain ⟨-, rfl⟩ := Store.defineNew_ok hs
    rfl
  | attachMethod impl =>
    dsimp only [perform]
    split
    · next hs =>
      obtain ⟨id, -, -, rfl⟩ := Store.attachMethod_ok hs
      rfl
    · rfl
  | declareGlobal name v =>
    change ((m.store.updateFrame globalFrame (·.declare name v)).frame f).outcome = _
    rw [Store.frame_updateFrame]
    split <;> rfl
  | _ => rfl

theorem nextWord_ok {word : Option String} {k : Machine} (h : m.nextWord = (.ok word, k)) :
    m.input.nextWord.1 = .ok word := by
  unfold nextWord at h
  split at h
  · next hword =>
    cases h
    rw [hword]
  · cases h

/-- Nothing that comes before a body changes a result. -/
theorem announce_outcome {n k : Machine} {kind : CallKind} {method : Method} {args : List Value}
    {location : Option Location} {r : Except Raised Unit}
    (h : n.announce host kind method args location = (r, k)) :
    k.store.frames.map Frame.outcome =
      (n.framed (method.frame args location)).store.frames.map Frame.outcome := by
  let n₁ := n.framed (method.frame args location)
  have assigns := @outcome_assignKeeps n₁.store
  have hlog (step : Step) : (n₁.logStep host step location).2.store.frames.map Frame.outcome =
      n₁.store.frames.map Frame.outcome :=
    logStep_keeps assigns (all_assigns _ _) rfl step location
  rcases announce_steps h with rfl | rfl
  · exact hlog _
  · exact emit_keeps assigns (all_assigns _ _) (hlog _) _

theorem announce_frames {n k : Machine} {kind : CallKind} {method : Method} {args : List Value}
    {location : Option Location} {r : Except Raised Unit}
    (h : n.announce host kind method args location = (r, k)) :
    k.store.frames.size = n.store.frames.size + 1 := by
  have hsize := congrArg Array.size (announce_outcome h)
  rw [Array.size_map, Array.size_map] at hsize
  exact hsize.trans (Array.size_push _)

end Machine

/-! Over a run. -/

theorem Moment.frames_le (x : Moment) :
    x.machine.store.frames.size ≤ x.after.store.frames.size := by
  rw [x.after_frames]
  exact Nat.le_add_right _ _

namespace Path

variable {m m' : Machine} {xs : List Moment} {f : FrameId}

/-- By induction on the moments: the result at the end is the one at the start, replaced by each of
the values that are given on the way. -/
theorem outcome (h : Path m xs m') (hf : f < m.store.frames.size) :
    (m'.store.frame f).outcome =
      ((xs.filterMap fun x => given? f (m.store.frame f).own? (x.machine, x.action)).foldl
        Frame.recordResult (m.store.frame f)).outcome := by
  induction h with
  | nil => rfl
  | @cons x xs m' _ ih =>
    let own := (x.machine.store.frame f).own?
    let given := given? f own (x.machine, x.action)
    have hstep : (x.after.store.frame f).outcome =
        (given.toList.foldl Frame.recordResult (x.machine.store.frame f)).outcome :=
      Machine.perform_outcome x.host x.action hf
    have hown : (x.after.store.frame f).own? = own := by
      rw [Frame.outcome_records] at hstep
      exact congrArg (fun o => o.1.map Key.of) hstep
    have hsize := Nat.lt_of_lt_of_le hf x.frames_le
    rw [ih hsize, hown, Frame.outcome_records_congr hstep, ← List.foldl_append,
      List.filterMap_cons]
    cases hg : given? f own (x.machine, x.action) <;> simp [given, own, hg]

theorem own? (h : Path m xs m') (hf : f < m.store.frames.size) :
    (m'.store.frame f).own? = (m.store.frame f).own? := by
  have houtcome := h.outcome hf
  rw [Frame.outcome_records] at houtcome
  exact congrArg (fun o => o.1.map Key.of) houtcome

/-- While nothing is given, the result stays. -/
theorem outcome_same (h : Path m xs m') (hf : f < m.store.frames.size)
    (hnone : ∀ x ∈ xs, ∀ own, given? f own (x.machine, x.action) = none) :
    ∀ x ∈ xs, (x.machine.store.frame f).outcome = (m.store.frame f).outcome := by
  induction h with
  | nil => exact fun _ hx => nomatch hx
  | @cons x xs m' _ ih =>
    obtain ⟨hx, hxs⟩ := List.forall_mem_cons.mp hnone
    refine List.forall_mem_cons.mpr ⟨rfl, ?_⟩
    have hstep := Machine.perform_outcome x.host x.action hf
    rw [hx] at hstep
    have hsize := Nat.lt_of_lt_of_le hf x.frames_le
    exact fun y hy => (ih hsize hxs y hy).trans hstep

end Path

namespace Script

variable {α : Type} {host : Host} {m : Machine} {f : FrameId}

theorem frames_le (host : Host) (x : Script α) (m : Machine) :
    m.store.frames.size ≤ (x.run host m).2.store.frames.size := by
  rw [(x.path host m).frames.1]
  exact Nat.le_add_right _ _

theorem run_outcome (host : Host) (x : Script α) (hf : f < m.store.frames.size) :
    ((x.run host m).2.store.frame f).outcome =
      (((x.moments host m).filterMap (given? f (m.store.frame f).own?)).foldl
        Frame.recordResult (m.store.frame f)).outcome := by
  have hpath := (x.path host m).outcome hf
  unfold timeline at hpath
  rwa [List.filterMap_map] at hpath

/-- The name that stands for a result stays the same. -/
theorem run_own? (host : Host) (x : Script α) (hf : f < m.store.frames.size) :
    ((x.run host m).2.store.frame f).own? = (m.store.frame f).own? :=
  (x.path host m).own? hf

theorem moments_own? {x : Script α} {p : Machine × Action} (hp : p ∈ x.moments host m)
    (hf : f < m.store.frames.size) :
    f < p.1.store.frames.size ∧ (p.1.store.frame f).own? = (m.store.frame f).own? := by
  have hmoment : (⟨host, p.1, p.2⟩ : Moment) ∈ x.timeline host m := List.mem_map_of_mem hp
  obtain ⟨⟨past, hpast⟩, -⟩ := (x.path host m).split hmoment
  refine ⟨?_, hpast.own? hf⟩
  rw [hpast.frames.1]
  exact Nat.lt_of_lt_of_le hf (Nat.le_add_right _ _)

/-- A run in which a frame is given nothing passes through no other result of it. -/
theorem stores_outcome {x : Script α} (hf : f < m.store.frames.size)
    (hnone : ∀ own, (x.moments host m).filterMap (given? f own) = []) :
    ∀ s ∈ x.stores host m, (s.frame f).outcome = (m.store.frame f).outcome := by
  intro s hs
  rcases mem_stores.mp hs with ⟨p, hp, hs⟩ | rfl
  · have hpast : (p.1.store.frame f).outcome = (m.store.frame f).outcome := by
      refine (x.path host m).outcome_same hf ?_ ⟨host, p.1, p.2⟩ (List.mem_map_of_mem hp)
      intro y hy own
      obtain ⟨q, hq, rfl⟩ := List.mem_map.mp hy
      exact List.filterMap_eq_nil_iff.mp (hnone own) q hq
    rcases hs with rfl | hs
    · exact hpast
    · exact (Machine.passing_outcome p.2 s hs).trans hpast
  · rw [run_outcome host x hf, hnone]
    rfl

end Script

/-! Other activations. -/

/-- Scripts that give no frame a result, unless it is the innermost and they are meant to:
`spared` says whether the innermost frame is spared as well. -/
structure Spares (host : Host) (spared : Prop) {α : Type} (x : Script α) : Prop
    extends Balanced host x where
  none_given : ∀ (m : Machine) (f : FrameId) (own : Option Key), f < m.store.frames.size →
    (m.store.innermost.frame = f → spared) → (x.moments host m).filterMap (given? f own) = []

namespace Spares

variable {host : Host} {spared : Prop} {α β : Type}

theorem pure (a : α) : Spares host spared (Pure.pure a : Script α) :=
  ⟨.pure a, fun _ _ _ _ _ => rfl⟩

theorem fail (e : Raised) : Spares host spared (Script.fail e : Script α) :=
  ⟨.fail e, fun _ _ _ _ _ => rfl⟩

theorem fault (location : Option Location) (c : Cause) :
    Spares host spared (Script.fault location c : Script α) :=
  fail _

/-- An action that is no assignment. -/
theorem perform {a : Action} (hk : a.keepsCalls = true) (ha : a.assigns = false) :
    Spares host spared (Script.perform a) := by
  refine ⟨.perform hk, fun m f own _ _ => ?_⟩
  rw [moments_perform, List.filterMap_cons_none (given?_of_assigns m ha)]
  rfl

theorem bind {x : Script α} {g : α → Script β} (hx : Spares host spared x)
    (hg : ∀ a, Spares host spared (g a)) : Spares host spared (x >>= g) := by
  refine ⟨.bind hx.toBalanced fun a => (hg a).toBalanced, fun m f own hf hs => ?_⟩
  have hcalls := hx.run m
  have hsize := Nat.lt_of_lt_of_le hf (x.frames_le host m)
  rw [filterMap_moments_bind, hx.none_given m f own hf hs, List.nil_append]
  rcases hr : x.run host m with ⟨_ | a, k⟩
  · rfl
  · rw [hr] at hcalls hsize
    refine (hg a).none_given k f own hsize fun hk => hs ?_
    rw [← hk]
    unfold Store.innermost
    rw [hcalls]

theorem mapError {x : Script α} (g : Raised → Raised) (hx : Spares host spared x) :
    Spares host spared (x.mapError g) := by
  have hattempt : Spares host spared x.attempt := ⟨hx.toBalanced.attempt, hx.none_given⟩
  refine bind hattempt fun r => ?_
  cases r with
  | ok a => exact pure a
  | error e => exact fail _

/-- What attends to calls gives nothing. -/
theorem of_attends {x : Script α} (he : Evaluates x) (ha : Attends x) : Spares host spared x :=
  ⟨balanced_of_nested (.of_evaluates he),
    fun m _ _ _ _ => ha.filterMap_moments given?_of_attends m⟩

theorem renderAll (vs : List Value) : Spares host spared (renderAll vs) :=
  of_attends (.renderAll vs) (.renderAll vs)

theorem checkArity (m : Method) (args : List Value) (location : Option Location) :
    Spares host spared (checkArity m args location) :=
  of_attends (.checkArity m args location) (.checkArity m args location)

theorem resolveObject (base : String) (location : Location) :
    Spares host spared (resolveObject base location) :=
  of_attends (.of_silent (Silent.resolveObject List.mem_cons_self base : Silent [location] _))
    (.resolveObject base location)

theorem readDesignator (d : Designator) : Spares host spared (readDesignator d) := by
  unfold ObjectPascal.readDesignator
  split
  · exact .perform rfl rfl
  · exact .bind (resolveObject _ _) fun _ => .perform rfl rfl
  · exact .fault _ _

theorem expectInt (location : Location) (v : Value) :
    Spares host spared (expectInt location v) := by
  cases v with
  | int n => exact .pure n
  | object id => exact .fault _ _
  | nil => exact .fault _ _

theorem narrow (n : Int) : Spares host spared (narrow n) := by
  unfold ObjectPascal.narrow
  split
  · exact .pure _
  · exact .fail _

theorem arithmetic (location : Location) (op : Operator) (a b : Int) :
    Spares host spared (arithmetic location op a b) := by
  cases op with
  | add => exact narrow _
  | sub => exact narrow _
  | mul => exact narrow _
  | div =>
    unfold ObjectPascal.arithmetic
    cases Word.quotient? a b with
    | none => exact .fault _ _
    | some q => exact narrow q
  | other symbol => exact .fault _ _

section

variable {body : List Statement → Script Unit} (hb : ∀ ss, Evaluates (body ss))
  (hs : ∀ ss, Spares host False (body ss))

include hb hs

/-- The body of a method runs in a frame of its own, so that a call gives no frame that there is
a result. -/
theorem runMethod (kind : CallKind) (receiver : ObjectId) (m : Method) (args : List Value)
    (location : Option Location) :
    Spares host spared (runMethod body kind receiver m args location) := by
  refine ⟨balanced_of_nested (.of_evaluates (.runMethod hb kind receiver m args location)),
    fun n f own hf _ => ?_⟩
  rw [filterMap_moments_runMethod given?_of_attends]
  rcases hk : n.announce host kind m args location with ⟨_ | _, k⟩
  · rfl
  · have hsize : f < k.store.frames.size := by
      rw [Machine.announce_frames hk]
      exact Nat.lt_succ_of_lt hf
    refine (hs _).none_given _ f own hsize fun hf' => ?_
    exact absurd hf' (Nat.ne_of_gt hf)

theorem construct (id : ClassId) (member : String) (args : List Value)
    (location : Option Location) :
    Spares host spared (construct body id member args location) :=
  .bind (.perform rfl rfl) fun m => .bind (checkArity m args location) fun _ =>
    .bind (.perform rfl rfl) fun object =>
      .bind (runMethod hb hs .new object m args location) fun _ => .pure _

theorem invokeMethod (receiver : ObjectId) (member : String) (args : List Value)
    (location : Option Location) :
    Spares host spared (invokeMethod body receiver member args location) :=
  .bind (.perform rfl rfl) fun (m, kind) =>
    .bind (checkArity m args location) fun _ => runMethod hb hs kind receiver m args location

theorem callMember (location : Location) (left member : String) (args : List Value) :
    Spares host spared (callMember body location left member args) := by
  refine .bind (.perform rfl rfl) fun id => ?_
  cases id with
  | some id => exact construct hb hs id member args _
  | none =>
    exact .bind (resolveObject left location) fun receiver =>
      invokeMethod hb hs receiver member args _

omit hb hs

mutual

/-- Expressions assign nothing. -/
theorem evaluate (hb : ∀ ss, Evaluates (body ss)) (hs : ∀ ss, Spares host False (body ss)) :
    (e : Expr) → Spares host spared (evaluate body e)
  | .literal _ _ => .pure _
  | .ref d => readDesignator d
  | .parens _ e => evaluate hb hs e
  | .binary location op left right =>
    .bind (evaluate hb hs left) fun a => .bind (expectInt location a) fun _ =>
      .bind (evaluate hb hs right) fun b => .bind (expectInt location b) fun _ =>
        .bind (arithmetic location op _ _) fun _ => .pure _
  | .call location left member args =>
    .bind (evaluateAll hb hs args) fun vs => callMember hb hs location left member vs
  | .bare _ => .fault _ _

theorem evaluateAll (hb : ∀ ss, Evaluates (body ss)) (hs : ∀ ss, Spares host False (body ss)) :
    (es : List Expr) → Spares host spared (evaluateAll body es)
  | [] => .pure _
  | e :: es => .bind (evaluate hb hs e) fun _ => .bind (evaluateAll hb hs es) fun _ => .pure _

end

omit hb hs in
theorem of_silent {places : List Location} {x : Script α} (hx : Silent places x) :
    Spares host False x := by
  induction hx with
  | done a => exact .pure a
  | fail _ => exact .fail _
  | @perform a h =>
    have hk : a.keepsCalls = true := by
      cases a <;> first | rfl | cases h
    refine ⟨.perform hk, fun m f own _ hs => ?_⟩
    rw [moments_perform, List.filterMap_cons_none (given?_of_ne (fun hf => hs hf) a)]
    rfl
  | andThen _ _ ihx ihf => exact .bind ihx ihf

include hb hs

theorem of_orderly {places calls : List Location} {x : Script α}
    (hx : Orderly body places calls x) : Spares host False x := by
  induction hx with
  | silent h => exact of_silent h
  | andThen _ _ ihx ihf => exact .bind ihx ihf
  | construct => exact construct hb hs _ _ _ _
  | invokeMethod => exact invokeMethod hb hs _ _ _ _
  | procedure _ _ h =>
    exact .bind (.perform rfl rfl) fun _ => .bind (of_silent h) fun _ =>
      .bind (.perform rfl rfl) fun _ => .perform rfl rfl

theorem executeAll (ss : List Statement) : Spares host False (executeAll body ss) := by
  induction ss with
  | nil => exact .pure _
  | cons s ss ih =>
    have hstatement : Spares host False (s.execute body) :=
      .bind (.perform rfl rfl) fun _ => .mapError _ (of_orderly hb hs (.effect s))
    exact .bind (.perform rfl rfl) fun _ => .bind hstatement fun _ =>
      .bind (.perform rfl rfl) fun _ => ih

end

/-- A body gives a result to no frame but the one it runs in. -/
theorem runBody (room : Nat) (ss : List Statement) : Spares host False (runBody room ss) := by
  induction room generalizing ss with
  | zero => exact .fail _
  | succ room ih => exact executeAll (.runBody room) ih ss

theorem writeAll (lines : List String) : Spares host spared (writeAll lines) := by
  induction lines with
  | nil => exact .pure _
  | cons line lines ih => exact .bind (.perform rfl rfl) fun _ => ih

end Spares

end ObjectPascal
