import ObjectPascal.Proofs.Conduct
import ObjectPascal.Proofs.Contract

/-!
Where denials come from. No script denies anything by itself: when access is denied in a run, it is
an action of the run that is denied it, or a handler that says so.
-/

namespace ObjectPascal

open Script

/-! Classes. -/

theorem isDenial_of_bind {α β : Type} {x : Except Cause α} {f : α → Except Cause β} {c : Cause}
    (hx : ∀ c, x = .error c → c.isDenial = false)
    (hf : ∀ a c, f a = .error c → c.isDenial = false) (h : (x >>= f) = .error c) :
    c.isDenial = false := by
  cases x with
  | error c' =>
    cases h
    exact hx c rfl
  | ok a => exact hf a c h

namespace Class

variable {c : Class} {visibility : Visibility} {cause : Cause}

theorem addMember_error {m : Member} (h : c.addMember visibility m = .error cause) :
    cause.isDenial = false := by
  cases m <;> cases h
  rfl

theorem addMembers_error {ms : List Member} (h : addMembers visibility ms c = .error cause) :
    cause.isDenial = false := by
  induction ms generalizing c cause with
  | nil => cases h
  | cons m ms ih => exact isDenial_of_bind (fun _ => addMember_error) (fun _ _ => ih) h

theorem addItems_error {items : List ClassItem} (h : addItems visibility items c = .error cause) :
    cause.isDenial = false := by
  induction items generalizing visibility c cause with
  | nil => cases h
  | cons item items ih =>
    cases item with
    | member m => exact isDenial_of_bind (fun _ => addMember_error) (fun _ _ => ih) h
    | marked location visibility ms =>
      exact isDenial_of_bind (fun _ => addMembers_error) (fun _ _ => ih) h

theorem ofDecl_error {d : ClassDecl} (h : ofDecl d = .error cause) : cause.isDenial = false :=
  addItems_error h

end Class

/-! Scripts. -/

theorem Raised.eq_runtime_of_denied? {raised : Raised} {c : Cause} (h : raised.denied? = some c) :
    ∃ e, raised = .runtime e ∧ e.cause = c := by
  cases raised with
  | runtime e =>
    refine ⟨e, rfl, ?_⟩
    by_cases hd : e.cause.isDenial
    · exact Option.some.inj ((if_pos hd).symm.trans h)
    · cases (if_neg hd).symm.trans h
  | host f => cases h
  | exhausted e => cases h

/-- Anything may be asked for, and whatever is denied is denied with one of some causes. -/
def denials (S : Cause → Prop) : Contract where
  allows _ := True
  gives _ _ := True
  fails raised := ∀ c, raised.denied? = some c → S c

/-- Scripts that deny nothing by themselves. -/
abbrev Grants (S : Cause → Prop) {α : Type} (x : Script α) : Prop :=
  Obeys (denials S) x fun _ => True

namespace Grants

variable {S : Cause → Prop} {α β : Type} {places calls : List Location}
  {body : List Statement → Script Unit}

theorem pure (a : α) : Grants S (Pure.pure a : Script α) :=
  .done trivial

theorem perform (a : Action) : Grants S (.perform a) :=
  Obeys.perform trivial fun _ _ => trivial

theorem fail {e : Raised} (h : e.denied? = none) : Grants S (.fail e : Script α) := by
  refine Obeys.fail fun c hc => ?_
  rw [h] at hc
  cases hc

theorem fault {location : Option Location} {c : Cause} (h : c.isDenial = false) :
    Grants S (Script.fault location c : Script α) :=
  fail (if_neg (by rw [h]; decide))

theorem bind {x : Script α} {f : α → Script β} (hx : Grants S x) (hf : ∀ a, Grants S (f a)) :
    Grants S (x >>= f) :=
  .andThen hx fun a _ => hf a

/-- Adding to what is known of a failure leaves its cause. -/
theorem denied?_capture (frames : List FrameId) (e : Raised) :
    (e.capture frames).denied? = e.denied? := by
  cases e <;> rfl

theorem denied?_locate (location : Location) (e : Raised) :
    (e.locate location).denied? = e.denied? := by
  cases e <;> rfl

theorem of_silent {x : Script α} (hx : Silent places x) : Grants S x := by
  induction hx with
  | done a => exact .pure a
  | fail _ hd => exact .fail hd
  | perform => exact .perform _
  | andThen _ _ ihx ihf => exact .bind ihx ihf

theorem within {inside : Script Unit} (h : Grants S inside) (frame : FrameId)
    (receiver : ObjectId) : Grants S (within frame receiver inside) := by
  refine .bind (.perform _) fun _ => .andThen (.attempt h fun r hr => hr) fun r hr => ?_
  change Grants S _
  cases r with
  | ok => exact .perform _
  | error raised =>
    refine .bind (.perform _) fun live => .bind (.perform _) fun _ => Obeys.fail fun c hc => ?_
    rw [denied?_capture] at hc
    exact hr c hc

theorem checkArity (m : Method) (args : List Value) (location : Option Location) :
    Grants S (checkArity m args location) := by
  have hplace : ∀ l, location = some l → l ∈ location.toList := fun _ => Option.mem_toList.mpr
  exact .of_silent (.checkArity hplace m args)

section

variable (hb : ∀ ss, Grants S (body ss))

include hb

theorem runMethod (kind : CallKind) (receiver : ObjectId) (m : Method) (args : List Value)
    (location : Option Location) : Grants S (runMethod body kind receiver m args location) := by
  refine .bind (.perform _) fun frame => ?_
  refine .bind (.of_silent (Silent.renderAll args : Silent [] _)) fun _ => ?_
  refine .bind (.perform _) fun _ => .bind (.perform _) fun _ => ?_
  refine .bind (.within (hb _) _ _) fun _ => ?_
  refine .bind (.of_silent (Silent.callResult m frame : Silent [] _)) fun _ => ?_
  exact .bind (.perform _) fun _ => .bind (.perform _) fun _ => .pure _

theorem of_orderly {x : Script α} (hx : Orderly body places calls x) : Grants S x := by
  induction hx with
  | silent h => exact .of_silent h
  | andThen _ _ ihx ihf => exact .bind ihx ihf
  | construct =>
    exact .bind (.perform _) fun _ => .bind (checkArity _ _ _) fun _ => .bind (.perform _) fun _ =>
      .bind (runMethod hb _ _ _ _ _) fun _ => .pure _
  | invokeMethod =>
    exact .bind (.perform _) fun _ => .bind (checkArity _ _ _) fun _ => runMethod hb _ _ _ _ _
  | procedure _ _ h =>
    exact .bind (.perform _) fun _ => .bind (.of_silent h) fun _ => .bind (.perform _) fun _ =>
      .perform _

theorem execute (s : Statement) : Grants S (s.execute body) := by
  refine .bind (.perform _) fun _ => .mapError (of_orderly hb (.effect s)) fun e he c hc => ?_
  rw [denied?_locate] at hc
  exact he c hc

theorem executeAll (ss : List Statement) : Grants S (executeAll body ss) := by
  induction ss with
  | nil => exact .pure _
  | cons s ss ih =>
    exact .bind (.perform _) fun _ => .bind (execute hb s) fun _ => .bind (.perform _) fun _ => ih

end

theorem runBody (depth : Nat) (ss : List Statement) : Grants S (runBody depth ss) := by
  induction depth generalizing ss with
  | zero => exact .fail rfl
  | succ depth ih => exact executeAll ih ss

/-! Declarations. -/

theorem declareClass (d : ClassDecl) : Grants S (declareClass d) := by
  unfold ObjectPascal.declareClass
  split
  · next hd => exact .fault (Class.ofDecl_error hd)
  · exact .bind (.perform _) fun _ => .perform _

theorem declareClasses (ds : List ClassDecl) : Grants S (declareClasses ds) := by
  induction ds with
  | nil => exact .pure _
  | cons d ds ih => exact .bind (declareClass d) fun _ => ih

theorem attachMethods (impls : List MethodImpl) : Grants S (attachMethods impls) := by
  induction impls with
  | nil => exact .pure _
  | cons impl impls ih => exact .bind (.perform _) fun _ => .bind (.perform _) fun _ => ih

theorem declareNames (typeName : String) (names : List String) :
    Grants S (declareNames typeName names) := by
  induction names with
  | nil => exact .pure _
  | cons name names ih => exact .bind (.perform _) fun _ => ih

theorem declareVars (groups : List NameGroup) : Grants S (declareVars groups) := by
  induction groups with
  | nil => exact .pure _
  | cons group groups ih => exact .bind (declareNames _ _) fun _ => ih

/-! Programs. -/

theorem programEffect (depth : Nat) (p : Program) : Grants S (p.effect depth) :=
  .bind (.declareClasses _) fun _ => .bind (.attachMethods _) fun _ =>
    .bind (.declareVars _) fun _ => .executeAll (.runBody depth) _

theorem report {raised : Raised} (h : ∀ c, raised.denied? = some c → S c) :
    Grants S (Program.report raised) := by
  cases raised with
  | runtime error =>
    exact .bind (.perform _) fun _ => .bind (.perform _) fun _ => .bind (.perform _) fun _ =>
      Obeys.fail h
  | host fault =>
    exact .bind (.perform _) fun _ => .bind (.perform _) fun _ => .bind (.perform _) fun _ =>
      .fail rfl
  | exhausted error =>
    have htold : Grants S (Script.perform (.emit (.onError (.exhausted error)))) := .perform _
    refine .bind (htold.mapError fun e he => ?_) fun _ => .bind (.perform _) fun _ =>
      .bind (.perform _) fun _ => .fail rfl
    cases e with
    | runtime e => exact nofun
    | host f => exact he
    | exhausted e => exact he

theorem programExecute (depth : Nat) (p : Program) : Grants S (p.execute depth) := by
  refine .bind (.perform _) fun _ => .andThen (.attempt (programEffect depth p) fun r hr => hr) ?_
  intro r hr
  change Grants S _
  cases r with
  | ok => exact .perform _
  | error raised => exact report hr

end Grants

end ObjectPascal
