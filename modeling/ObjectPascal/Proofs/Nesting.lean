import ObjectPascal.Proofs.Conduct

/-!
How the evaluator is put together. Its scripts start and end calls only in pairs, around the body
of the method, and make objects only to run a constructor on them at once. What holds of such
scripts in general is proved by induction on `Nested`, once for all of the language.
-/

namespace ObjectPascal

/-- The actions of evaluation that stand alone: those that make an object, or start or end a call,
come in groups, and those that declare something or report a fault belong to whole programs. -/
def Action.evaluates : Action → Bool
  | .newObject _ | .enter .. | .leave | .defineClass .. | .attachMethod _ | .declareGlobal ..
  | .lastStep => false
  | _ => true

/-- Actions on the way to the body of a method. They change no object and no call, and fail only
if a handler does. -/
def Action.preparesCall : Action → Bool
  | .log .. | .emit _ | .render _ | .newFrame .. => true
  | _ => false

/-- Scripts of such actions. -/
inductive PreparesCall : {α : Type} → Script α → Prop
  | done {α : Type} (a : α) : PreparesCall (.done a)
  | perform {a : Action} (h : a.preparesCall = true) : PreparesCall (.perform a)
  | andThen {α β : Type} {x : Script α} {f : α → Script β} (hx : PreparesCall x)
      (hf : ∀ a, PreparesCall (f a)) : PreparesCall (.andThen x f)

theorem PreparesCall.renderAll (vs : List Value) : PreparesCall (renderAll vs) := by
  induction vs with
  | nil => exact .done _
  | cons v vs ih => exact .andThen (.perform rfl) fun _ => .andThen ih fun _ => .done _

/-- Scripts that call a method of an object first of all. -/
inductive Opens (object : ObjectId) : {α : Type} → Script α → Prop
  | within {frame : FrameId} {inside : Script Unit} : Opens object (within frame object inside)
  | after {α β : Type} {x : Script α} {f : α → Script β} (hx : PreparesCall x)
      (hf : ∀ a, Opens object (f a)) : Opens object (.andThen x f)
  | andThen {α β : Type} {x : Script α} {f : α → Script β} (hx : Opens object x) :
      Opens object (.andThen x f)

/-- Scripts built of actions with `ok`, of calls, and of the making of objects that are called at
once. -/
inductive Nested (ok : Action → Prop) : {α : Type} → Script α → Prop
  | done {α : Type} (a : α) : Nested ok (.done a)
  | fail {α : Type} (e : Raised) : Nested ok (.fail e : Script α)
  | perform {a : Action} (h : ok a) : Nested ok (.perform a)
  | andThen {α β : Type} {x : Script α} {f : α → Script β} (hx : Nested ok x)
      (hf : ∀ a, Nested ok (f a)) : Nested ok (.andThen x f)
  | attempt {α : Type} {x : Script α} (hx : Nested ok x) : Nested ok x.attempt
  | within {frame : FrameId} {receiver : ObjectId} {inside : Script Unit}
      (hx : Nested ok inside) : Nested ok (within frame receiver inside)
  | create {α : Type} {id : ClassId} {f : ObjectId → Script α} (hf : ∀ object, Nested ok (f object))
      (ho : ∀ object, Opens object (f object)) :
      Nested ok (.andThen (.perform (.newObject id)) f)

namespace Nested

variable {ok : Action → Prop} {α β : Type}

theorem pure (a : α) : Nested ok (Pure.pure a : Script α) :=
  .done a

theorem fault (location : Option Location) (c : Cause) :
    Nested ok (Script.fault location c : Script α) :=
  .fail _

theorem bind {x : Script α} {f : α → Script β} (hx : Nested ok x) (hf : ∀ a, Nested ok (f a)) :
    Nested ok (x >>= f) :=
  .andThen hx hf

theorem mapError {x : Script α} (g : Raised → Raised) (hx : Nested ok x) :
    Nested ok (x.mapError g) := by
  refine bind (attempt hx) fun r => ?_
  cases r with
  | ok a => exact pure a
  | error e => exact .fail _

theorem mono {ok' : Action → Prop} (himp : ∀ a, ok a → ok' a) {x : Script α}
    (hx : Nested ok x) : Nested ok' x := by
  induction hx with
  | done a => exact .done a
  | fail e => exact .fail e
  | perform h => exact .perform (himp _ h)
  | andThen _ _ ihx ihf => exact .andThen ihx ihf
  | attempt _ ih => exact .attempt ih
  | within _ ih => exact .within ih
  | create _ ho ih => exact .create ih ho

end Nested

/-- Scripts of evaluation. -/
abbrev Evaluates {α : Type} (x : Script α) : Prop :=
  Nested (fun a => a.evaluates = true) x

namespace Evaluates

variable {α : Type} {places calls : List Location} {body : List Statement → Script Unit}

/-- Silent stretches evaluate. -/
theorem of_silent {x : Script α} (hx : Silent places x) : Evaluates x := by
  induction hx with
  | done a => exact .done a
  | fail => exact .fail _
  | @perform a h =>
    refine .perform ?_
    cases a <;> first | rfl | cases h
  | andThen _ _ ihx ihf => exact .andThen ihx ihf

theorem renderAll (vs : List Value) : Evaluates (renderAll vs) :=
  of_silent (Silent.renderAll vs : Silent [] _)

theorem checkArity (m : Method) (args : List Value) (location : Option Location) :
    Evaluates (checkArity m args location) := by
  have hplace : ∀ l, location = some l → l ∈ location.toList := by
    intro l hl
    rw [hl]
    exact List.mem_singleton_self l
  exact of_silent (.checkArity hplace m args)

section

variable (hb : ∀ ss, Evaluates (body ss))

include hb

theorem runMethod (kind : CallKind) (receiver : ObjectId) (m : Method) (args : List Value)
    (location : Option Location) : Evaluates (runMethod body kind receiver m args location) := by
  have hresult (frame : FrameId) : Evaluates (callResult m frame) :=
    of_silent (Silent.callResult m frame : Silent [] _)
  exact .bind (.perform rfl) fun frame => .bind (renderAll args) fun _ => .bind (.perform rfl) fun _ =>
    .bind (.perform rfl) fun _ => .bind (.within (hb _)) fun _ => .bind (hresult frame) fun _ =>
      .bind (.perform rfl) fun _ => .bind (.perform rfl) fun _ => .pure _

omit hb in
theorem opens_runMethod (kind : CallKind) (receiver : ObjectId) (m : Method) (args : List Value)
    (location : Option Location) :
    Opens receiver (ObjectPascal.runMethod body kind receiver m args location) :=
  .after (.perform rfl) fun _ => .after (.renderAll args) fun _ =>
    .after (.perform rfl) fun _ => .after (.perform rfl) fun _ => .andThen .within

theorem construct (id : ClassId) (member : String) (args : List Value)
    (location : Option Location) : Evaluates (construct body id member args location) :=
  .bind (.perform rfl) fun _ => .bind (checkArity _ _ _) fun _ =>
    .create (fun _ => .bind (runMethod hb _ _ _ _ _) fun _ => .pure _)
      fun _ => .andThen (opens_runMethod _ _ _ _ _)

theorem invokeMethod (receiver : ObjectId) (member : String) (args : List Value)
    (location : Option Location) : Evaluates (invokeMethod body receiver member args location) :=
  .bind (.perform rfl) fun _ => .bind (checkArity _ _ _) fun _ => runMethod hb _ _ _ _ _

theorem of_orderly {x : Script α} (hx : Orderly body places calls x) : Evaluates x := by
  induction hx with
  | silent h => exact of_silent h
  | andThen _ _ ihx ihf => exact .andThen ihx ihf
  | construct => exact construct hb _ _ _ _
  | invokeMethod => exact invokeMethod hb _ _ _ _
  | procedure _ _ h =>
    exact .bind (.perform rfl) fun _ => .bind (of_silent h) fun _ => .bind (.perform rfl) fun _ =>
      .perform rfl

theorem execute (s : Statement) : Evaluates (s.execute body) :=
  .bind (.perform rfl) fun _ => .mapError _ (of_orderly hb (.effect s))

theorem executeAll (ss : List Statement) : Evaluates (executeAll body ss) := by
  induction ss with
  | nil => exact .pure _
  | cons s ss ih =>
    exact .bind (.perform rfl) fun _ => .bind (execute hb s) fun _ => .bind (.perform rfl) fun _ => ih

end

/-- Whatever bound there is on how deep calls nest, the body of a method is a script of
evaluation. -/
theorem runBody (depth : Nat) (ss : List Statement) : Evaluates (runBody depth ss) := by
  induction depth generalizing ss with
  | zero => exact .fail _
  | succ depth ih => exact executeAll ih ss

end Evaluates

end ObjectPascal
