import ObjectPascal.Proofs.Moments

/-!
How a statement is carried out: in silent stretches, which only read and change values, and between
them calls of methods and of procedures of the language, one after another. What holds of every
statement is proved by induction on `Orderly`, once for all of the language.
-/

namespace ObjectPascal

open Script

/-! Places. -/

mutual

/-- The places of an expression and of everything in it. -/
def Expr.places : Expr → List Location
  | .literal location _ => [location]
  | .ref d => [d.location]
  | .binary location _ left right => location :: (left.places ++ right.places)
  | .parens location e => location :: e.places
  | .call location _ _ args => location :: Expr.allPlaces args
  | .bare location => [location]

def Expr.allPlaces : List Expr → List Location
  | [] => []
  | e :: es => e.places ++ Expr.allPlaces es

end

mutual

/-- The places of the calls in an expression. -/
def Expr.callPlaces : Expr → List Location
  | .literal .. | .ref _ | .bare _ => []
  | .binary _ _ left right => left.callPlaces ++ right.callPlaces
  | .parens _ e => e.callPlaces
  | .call location _ _ args => location :: Expr.allCallPlaces args

def Expr.allCallPlaces : List Expr → List Location
  | [] => []
  | e :: es => e.callPlaces ++ Expr.allCallPlaces es

end

/-- The places of a statement and of everything in it. -/
def Statement.places : Statement → List Location
  | .assignment location target value => location :: target.location :: value.places
  | .methodCall location _ _ args => location :: Expr.allPlaces args
  | .procedureCall location _ args => location :: Expr.allPlaces args
  | .bare location => [location]

/-- The places of a statement and of the calls in it. -/
def Statement.callPlaces : Statement → List Location
  | .assignment location _ value => location :: value.callPlaces
  | .methodCall location _ _ args => location :: Expr.allCallPlaces args
  | .procedureCall location _ args => location :: Expr.allCallPlaces args
  | .bare location => [location]

theorem Statement.location_mem_places (s : Statement) : s.location ∈ s.places := by
  cases s <;> exact List.mem_cons_self

theorem Statement.location_mem_callPlaces (s : Statement) : s.location ∈ s.callPlaces := by
  cases s <;> exact List.mem_cons_self

/-- A failure as it is first raised: its place, if it has one, is one of some places, and no frames
are noted. -/
def Raised.PlacedIn (places : List Location) : Raised → Prop
  | .runtime e => e.stack = none ∧ ∀ l, e.location = some l → l ∈ places
  | .host f => f.stack = none
  | .exhausted _ => False

/-- Access to a member is denied. -/
def Cause.isDenial : Cause → Bool
  | .accessDenied .. => true
  | _ => false

/-- What is denied by a failure. -/
def Raised.denied? : Raised → Option Cause
  | .runtime e => if e.cause.isDenial then some e.cause else none
  | _ => none

/-! Silent stretches. -/

/-- Actions on values: they log nothing, tell no handler, and make neither objects nor calls. -/
def Action.silent : Action → Bool
  | .render _ | .lookup _ | .receiver | .readField .. | .writeField .. | .assign ..
  | .constructedClass _ | .findConstructor .. | .findMethod .. | .result _ | .write _ | .nextWord
  | .transcribe _ => true
  | _ => false

/-- The place of the fault that an action may end in. -/
def Action.place? : Action → Option Location
  | .readField _ _ location | .writeField _ _ _ location => some location
  | .findConstructor _ _ location | .findMethod _ _ location => location
  | _ => none

/-- Scripts of such actions, whose faults are at some places. Access is denied by actions only. -/
inductive Silent (places : List Location) : {α : Type} → Script α → Prop
  | done {α : Type} (a : α) : Silent places (.done a)
  | fail {α : Type} {e : Raised} (h : e.PlacedIn places) (hd : e.denied? = none) :
      Silent places (.fail e : Script α)
  | perform {a : Action} (h : a.silent = true) (hp : ∀ l, a.place? = some l → l ∈ places) :
      Silent places (.perform a)
  | andThen {α β : Type} {x : Script α} {f : α → Script β} (hx : Silent places x)
      (hf : ∀ a, Silent places (f a)) : Silent places (.andThen x f)

namespace Silent

variable {places : List Location} {α β : Type}

theorem pure (a : α) : Silent places (Pure.pure a : Script α) :=
  .done a

theorem bind {x : Script α} {f : α → Script β} (hx : Silent places x)
    (hf : ∀ a, Silent places (f a)) : Silent places (x >>= f) :=
  .andThen hx hf

theorem fault {location : Option Location} (h : ∀ l, location = some l → l ∈ places) {c : Cause}
    (hd : c.isDenial = false) : Silent places (Script.fault location c : Script α) :=
  .fail ⟨rfl, h⟩ (if_neg (by rw [hd]; decide))

/-- An action whose faults have no place. -/
theorem action {a : Action} (h : a.silent = true) (hp : a.place? = none) :
    Silent places (Script.perform a) := by
  refine .perform h ?_
  intro l hl
  rw [hp] at hl
  cases hl

theorem renderAll (vs : List Value) : Silent places (renderAll vs) := by
  induction vs with
  | nil => exact .pure _
  | cons v vs ih => exact .bind (action rfl rfl) fun _ => .bind ih fun _ => .pure _

theorem narrow (n : Int) : Silent places (narrow n) := by
  unfold ObjectPascal.narrow
  cases Word.narrow? n with
  | none => exact .fail rfl rfl
  | some w => exact .pure w

theorem writeAll (lines : List String) : Silent places (writeAll lines) := by
  induction lines with
  | nil => exact .pure _
  | cons line lines ih => exact .bind (action rfl rfl) fun _ => ih

theorem callResult (m : Method) (frame : FrameId) : Silent places (callResult m frame) := by
  unfold ObjectPascal.callResult
  split
  · exact action rfl rfl
  · exact .pure _

section

variable {location : Location} (h : location ∈ places)

include h

/-- A fault at a place that is one of the places. -/
theorem faultHere {c : Cause} (hd : c.isDenial = false) :
    Silent places (Script.fault (some location) c : Script α) := by
  refine fault ?_ hd
  intro l hl
  cases hl
  exact h

/-- An action that may end in a fault there. -/
theorem actionHere {a : Action} (hs : a.silent = true) (hp : a.place? = some location) :
    Silent places (Script.perform a) := by
  refine .perform hs ?_
  intro l hl
  rw [hp] at hl
  cases hl
  exact h

theorem expectInt (v : Value) : Silent places (expectInt location v) := by
  cases v with
  | int n => exact .pure n
  | object id => exact faultHere h rfl
  | nil => exact faultHere h rfl

theorem arithmetic (op : Operator) (a b : Int) : Silent places (arithmetic location op a b) := by
  cases op with
  | add => exact narrow _
  | sub => exact narrow _
  | mul => exact narrow _
  | div =>
    unfold ObjectPascal.arithmetic
    cases Word.quotient? a b with
    | none => exact faultHere h rfl
    | some q => exact narrow q
  | other symbol => exact faultHere h rfl

theorem resolveObject (base : String) : Silent places (resolveObject base location) := by
  unfold ObjectPascal.resolveObject
  split
  · exact action rfl rfl
  · refine .bind (action rfl rfl) fun v => ?_
    cases v with
    | int n => exact faultHere h rfl
    | object id => exact .pure id
    | nil => exact faultHere h rfl

theorem readInto (name : String) : Silent places (readInto name location) := by
  refine .bind (action rfl rfl) fun word => ?_
  cases word with
  | none => exact faultHere h rfl
  | some word =>
    dsimp only
    split
    · exact faultHere h rfl
    split
    · exact .fail rfl rfl
    split
    · exact .bind (action rfl rfl) fun _ => action rfl rfl
    · exact faultHere h rfl

theorem readln (operand : Expr) : Silent places (readln operand location) := by
  unfold ObjectPascal.readln
  split
  · split
    · exact readInto h _
    · exact faultHere h rfl
  · exact faultHere h rfl

theorem invokeBuiltin (name : String) (args : List Value) (operands : List Expr) :
    Silent places (invokeBuiltin name args operands location) := by
  unfold ObjectPascal.invokeBuiltin
  split
  · exact faultHere h rfl
  · exact .bind (writeAll _) fun _ => action rfl rfl
  · split
    · exact readln h _
    · exact faultHere h rfl

end

theorem readDesignator {d : Designator} (h : d.location ∈ places) :
    Silent places (readDesignator d) := by
  unfold ObjectPascal.readDesignator
  split
  · exact action rfl rfl
  · exact .bind (resolveObject h _) fun _ => actionHere h rfl rfl
  · exact faultHere h rfl

theorem writeDesignator {d : Designator} (h : d.location ∈ places) (v : Value) :
    Silent places (writeDesignator d v) := by
  unfold ObjectPascal.writeDesignator
  split
  · exact action rfl rfl
  · exact .bind (resolveObject h _) fun _ => actionHere h rfl rfl
  · exact faultHere h rfl

theorem checkArity {location : Option Location} (h : ∀ l, location = some l → l ∈ places)
    (m : Method) (args : List Value) : Silent places (checkArity m args location) := by
  unfold ObjectPascal.checkArity
  split
  · exact .pure _
  · exact fault h rfl

end Silent

/-! Statements. -/

/-- A call of a procedure of the language, once its operands are evaluated. -/
def procedureCall (procedure : Builtin) (name : String) (texts : List String) (location : Location)
    (inside : Script Unit) : Script Unit := do
  perform (.emit (.beforeCall name texts (some location.line)))
  inside
  perform (.log (.builtin procedure texts) (some location))
  perform (.emit (.afterCall name "nil" (some location.line)))

/-- Silent stretches whose faults are at some places, and calls made at some places; `body` runs
the methods. -/
inductive Orderly (body : List Statement → Script Unit) (places calls : List Location) :
    {α : Type} → Script α → Prop
  | silent {α : Type} {x : Script α} (h : Silent places x) : Orderly body places calls x
  | andThen {α β : Type} {x : Script α} {f : α → Script β} (hx : Orderly body places calls x)
      (hf : ∀ a, Orderly body places calls (f a)) : Orderly body places calls (.andThen x f)
  | construct {id : ClassId} {member : String} {args : List Value} {location : Location}
      (hp : location ∈ places) (hc : location ∈ calls) :
      Orderly body places calls (construct body id member args (some location))
  | invokeMethod {receiver : ObjectId} {member : String} {args : List Value} {location : Location}
      (hp : location ∈ places) (hc : location ∈ calls) :
      Orderly body places calls (invokeMethod body receiver member args (some location))
  | procedure {inside : Script Unit} {procedure : Builtin} {name : String} {location : Location}
      (hn : Builtin.ofName? name = some procedure) (texts : List String)
      (h : Silent places inside) (hc : location ∈ calls) :
      Orderly body places calls (procedureCall procedure name texts location inside)

namespace Orderly

variable {body : List Statement → Script Unit} {places calls : List Location} {α β : Type}

theorem pure (a : α) : Orderly body places calls (Pure.pure a : Script α) :=
  .silent (.pure a)

theorem bind {x : Script α} {f : α → Script β} (hx : Orderly body places calls x)
    (hf : ∀ a, Orderly body places calls (f a)) : Orderly body places calls (x >>= f) :=
  .andThen hx hf

theorem callMember {location : Location} (hp : location ∈ places) (hc : location ∈ calls)
    (left member : String) (args : List Value) :
    Orderly body places calls (callMember body location left member args) := by
  refine .bind (.silent (.action rfl rfl)) fun id => ?_
  cases id with
  | none => exact .bind (.silent (.resolveObject hp left)) fun _ => .invokeMethod hp hc
  | some id => exact .construct hp hc

mutual

theorem evaluate : (e : Expr) → e.places ⊆ places → e.callPlaces ⊆ calls →
    Orderly body places calls (evaluate body e)
  | .literal _ _, _, _ => .pure _
  | .ref _, hp, _ => .silent (.readDesignator (hp List.mem_cons_self))
  | .parens _ e, hp, hc => evaluate e (List.subset_of_cons_subset hp) hc
  | .binary location op left right, hp, hc => by
    obtain ⟨hl, hsub⟩ := List.cons_subset.mp hp
    obtain ⟨hpl, hpr⟩ := List.append_subset.mp hsub
    obtain ⟨hcl, hcr⟩ := List.append_subset.mp hc
    refine .bind (evaluate left hpl hcl) fun _ => ?_
    refine .bind (.silent (.expectInt hl _)) fun _ => ?_
    refine .bind (evaluate right hpr hcr) fun _ => ?_
    refine .bind (.silent (.expectInt hl _)) fun _ => ?_
    exact .bind (.silent (.arithmetic hl op _ _)) fun _ => .pure _
  | .call location left member args, hp, hc => by
    obtain ⟨hl, hpargs⟩ := List.cons_subset.mp hp
    obtain ⟨hlc, hcargs⟩ := List.cons_subset.mp hc
    exact .bind (evaluateAll args hpargs hcargs) fun _ => callMember hl hlc left member _
  | .bare _, hp, _ => .silent (.faultHere (hp List.mem_cons_self) rfl)

theorem evaluateAll : (es : List Expr) → Expr.allPlaces es ⊆ places →
    Expr.allCallPlaces es ⊆ calls → Orderly body places calls (evaluateAll body es)
  | [], _, _ => .pure _
  | e :: es, hp, hc => by
    obtain ⟨hpe, hpes⟩ := List.append_subset.mp hp
    obtain ⟨hce, hces⟩ := List.append_subset.mp hc
    exact .bind (evaluate e hpe hce) fun _ => .bind (evaluateAll es hpes hces) fun _ => .pure _

end

theorem operandValues (procedure : Builtin) {operands : List Expr}
    (hp : Expr.allPlaces operands ⊆ places) (hc : Expr.allCallPlaces operands ⊆ calls) :
    Orderly body places calls (operandValues body procedure operands) := by
  cases procedure with
  | writeln => exact evaluateAll operands hp hc
  | readln => exact .pure _

theorem callProcedure {location : Location} {operands : List Expr} (hl : location ∈ places)
    (hlc : location ∈ calls) (hp : Expr.allPlaces operands ⊆ places)
    (hc : Expr.allCallPlaces operands ⊆ calls) (name : String) :
    Orderly body places calls (callProcedure body location name operands) := by
  unfold ObjectPascal.callProcedure
  split
  · exact .silent (.faultHere hl rfl)
  · next procedure hn =>
    refine .bind (operandValues procedure hp hc) fun args => ?_
    refine .bind (.silent (.renderAll args)) fun texts => ?_
    exact .procedure hn texts (.invokeBuiltin hl name args operands) hlc

/-- Every statement is carried out in this order, at its own places. -/
theorem effect (s : Statement) : Orderly body s.places s.callPlaces (s.effect body) := by
  cases s with
  | assignment location target value =>
    refine .bind (evaluate value ?_ ?_) fun v => .silent (.writeDesignator ?_ v)
    · exact fun _ h => List.mem_cons_of_mem _ (List.mem_cons_of_mem _ h)
    · exact fun _ h => List.mem_cons_of_mem _ h
    · exact List.mem_cons_of_mem _ List.mem_cons_self
  | methodCall location left member args =>
    refine .bind (evaluateAll args ?_ ?_) fun vs => .bind (callMember ?_ ?_ left member vs) fun _ => .pure _
    · exact fun _ h => List.mem_cons_of_mem _ h
    · exact fun _ h => List.mem_cons_of_mem _ h
    · exact List.mem_cons_self
    · exact List.mem_cons_self
  | procedureCall location name args =>
    refine callProcedure List.mem_cons_self List.mem_cons_self ?_ ?_ name
    · exact fun _ h => List.mem_cons_of_mem _ h
    · exact fun _ h => List.mem_cons_of_mem _ h
  | bare location => exact .silent (.faultHere List.mem_cons_self rfl)

end Orderly

/-! Declarations, and then the main block. -/

/-- The actions that declare something. -/
def Action.declares : Action → Bool
  | .defineClass .. | .attachMethod _ | .declareGlobal .. => true
  | _ => false

/-- Scripts that declare things and log what they declare. -/
inductive Declares : {α : Type} → Script α → Prop
  | done {α : Type} (a : α) : Declares (.done a)
  | fail {α : Type} (e : Raised) : Declares (.fail e : Script α)
  | perform {a : Action} (h : a.declares = true) : Declares (.perform a)
  | log (step : Step) (location : Option Location) : Declares (.perform (.log step location))
  | andThen {α β : Type} {x : Script α} {f : α → Script β} (hx : Declares x)
      (hf : ∀ a, Declares (f a)) : Declares (.andThen x f)

namespace Declares

variable {α β : Type}

theorem pure (a : α) : Declares (Pure.pure a : Script α) :=
  .done a

theorem bind {x : Script α} {f : α → Script β} (hx : Declares x) (hf : ∀ a, Declares (f a)) :
    Declares (x >>= f) :=
  .andThen hx hf

theorem declareClasses (ds : List ClassDecl) : Declares (declareClasses ds) := by
  induction ds with
  | nil => exact .pure _
  | cons d ds ih =>
    refine .bind ?_ fun _ => ih
    unfold declareClass
    split
    · exact .fail _
    · exact .bind (.perform rfl) fun _ => .log _ _

theorem attachMethods (impls : List MethodImpl) : Declares (attachMethods impls) := by
  induction impls with
  | nil => exact .pure _
  | cons impl impls ih => exact .bind (.perform rfl) fun _ => .bind (.log _ _) fun _ => ih

theorem declareVars (groups : List NameGroup) : Declares (declareVars groups) := by
  have hnames (typeName : String) (names : List String) :
      Declares (declareNames typeName names) := by
    induction names with
    | nil => exact .pure _
    | cons name names ih => exact .bind (.perform rfl) fun _ => ih
  induction groups with
  | nil => exact .pure _
  | cons group groups ih => exact .bind (hnames _ _) fun _ => ih

end Declares

namespace Program

/-- What a program does before its main block. -/
def declare (p : Program) : Script Unit := do
  declareClasses (p.classes.elim [] Section.items)
  attachMethods (p.methods.elim [] Section.items)
  declareVars (p.vars.elim [] Section.items)

def main (depth : Nat) (p : Program) : Script Unit :=
  executeAll (runBody depth) p.block.statements

theorem declares_declare (p : Program) : Declares p.declare :=
  .bind (.declareClasses _) fun _ => .bind (.attachMethods _) fun _ => .declareVars _

theorem run_effect (host : Host) (depth : Nat) (p : Program) (m : Machine) :
    (p.effect depth).run host m = (p.declare >>= fun _ => p.main depth).run host m := by
  unfold effect declare main
  simp only [run_bind]
  rcases (declareClasses (p.classes.elim [] Section.items)).run host m with ⟨_ | _, m₁⟩
  · rfl
  dsimp only
  rcases (attachMethods (p.methods.elim [] Section.items)).run host m₁ with ⟨_ | _, m₂⟩ <;> rfl

theorem moments_effect (host : Host) (depth : Nat) (p : Program) (m : Machine) :
    (p.effect depth).moments host m = (p.declare >>= fun _ => p.main depth).moments host m := by
  unfold effect declare main
  simp only [moments_bind, run_bind]
  rcases (declareClasses (p.classes.elim [] Section.items)).run host m with ⟨_ | _, m₁⟩
  · simp only [List.append_nil]
  dsimp only
  rcases (attachMethods (p.methods.elim [] Section.items)).run host m₁ with ⟨_ | _, m₂⟩ <;>
    simp only [List.append_assoc, List.append_nil]

end Program

end ObjectPascal
