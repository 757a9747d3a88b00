import Mathlib.Data.List.Forall2
import ObjectPascal.Proofs.Parallel

/-!
Programs that are alike. How much alike is left open: a likeness says which names, places, classes
and methods count as the same in two programs, and what is known of the values in their runs.
-/

namespace ObjectPascal

open Script

/-! Trees. -/

mutual

/-- The members that an expression calls, at any depth. -/
def Expr.calls : Expr → List String
  | .literal .. | .ref _ | .bare _ => []
  | .binary _ _ left right => left.calls ++ right.calls
  | .parens _ e => e.calls
  | .call _ _ member args => member :: Expr.allCalls args

def Expr.allCalls : List Expr → List String
  | [] => []
  | e :: es => e.calls ++ Expr.allCalls es

end

def Statement.calls : Statement → List String
  | .assignment _ _ value => value.calls
  | .methodCall _ _ member args => member :: Expr.allCalls args
  | .procedureCall _ _ args => Expr.allCalls args
  | .bare _ => []

/-- Which names count as the same, and which places. -/
structure Reading where
  names : String → String → Prop
  places : Option Location → Option Location → Prop

structure Designator.Alike (r : Reading) (d d' : Designator) : Prop where
  location : r.places (some d.location) (some d'.location)
  base : r.names d.base d'.base
  selectors : List.Forall₂ r.names d.selectors d'.selectors

mutual

inductive Expr.Alike (r : Reading) : Expr → Expr → Prop
  | literal (l l' : Location) (n : Nat) : Expr.Alike r (.literal l n) (.literal l' n)
  | ref {d d' : Designator} (hd : d.Alike r d') : Expr.Alike r (.ref d) (.ref d')
  | binary {l l' : Location} {a a' b b' : Expr} (op : Operator)
      (hl : r.places (some l) (some l')) (ha : Expr.Alike r a a') (hb : Expr.Alike r b b') :
      Expr.Alike r (.binary l op a b) (.binary l' op a' b')
  | parens {e e' : Expr} (l l' : Location) (he : Expr.Alike r e e') :
      Expr.Alike r (.parens l e) (.parens l' e')
  | call {l l' : Location} {left left' member member' : String} {args args' : List Expr}
      (hl : r.places (some l) (some l')) (hleft : r.names left left')
      (hmember : r.names member member') (ha : Expr.AllAlike r args args') :
      Expr.Alike r (.call l left member args) (.call l' left' member' args')
  | bare {l l' : Location} (hl : r.places (some l) (some l')) :
      Expr.Alike r (.bare l) (.bare l')

inductive Expr.AllAlike (r : Reading) : List Expr → List Expr → Prop
  | nil : Expr.AllAlike r [] []
  | cons {e e' : Expr} {es es' : List Expr} (he : Expr.Alike r e e')
      (hes : Expr.AllAlike r es es') : Expr.AllAlike r (e :: es) (e' :: es')

end

inductive Statement.Alike (r : Reading) : Statement → Statement → Prop
  | assignment {l l' : Location} {d d' : Designator} {e e' : Expr}
      (hl : r.places (some l) (some l')) (hd : d.Alike r d') (he : e.Alike r e') :
      Statement.Alike r (.assignment l d e) (.assignment l' d' e')
  | methodCall {l l' : Location} {left left' member member' : String} {args args' : List Expr}
      (hl : r.places (some l) (some l')) (hleft : r.names left left')
      (hmember : r.names member member') (ha : Expr.AllAlike r args args') :
      Statement.Alike r (.methodCall l left member args) (.methodCall l' left' member' args')
  | procedureCall {l l' : Location} {name name' : String} {args args' : List Expr}
      (hl : r.places (some l) (some l')) (hname : r.names name name')
      (ha : Expr.AllAlike r args args') :
      Statement.Alike r (.procedureCall l name args) (.procedureCall l' name' args')
  | bare {l l' : Location} (hl : r.places (some l) (some l')) :
      Statement.Alike r (.bare l) (.bare l')

/-- Designators that are alike both select nothing, one member each, or more than one each. -/
theorem Designator.Alike.selectors_cases {r : Reading} {d d' : Designator} (h : d.Alike r d') :
    (d.selectors = [] ∧ d'.selectors = []) ∨
    (∃ field field', d.selectors = [field] ∧ d'.selectors = [field'] ∧ r.names field field') ∨
    ∃ a b more a' b' more', d.selectors = a :: b :: more ∧ d'.selectors = a' :: b' :: more' := by
  have hsel := h.selectors
  cases hs : d.selectors with
  | nil =>
    rw [hs, List.forall₂_nil_left_iff] at hsel
    exact .inl ⟨rfl, hsel⟩
  | cons a more =>
    rw [hs] at hsel
    obtain ⟨a', more', ha, hmore, hs'⟩ := List.forall₂_cons_left_iff.mp hsel
    cases hmore with
    | nil => exact .inr (.inl ⟨a, a', rfl, hs', ha⟩)
    | @cons b b' more more' => exact .inr (.inr ⟨a, b, more, a', b', more', rfl, hs'⟩)

theorem Expr.AllAlike.length {r : Reading} {es es' : List Expr} (h : Expr.AllAlike r es es') :
    es'.length = es.length := by
  match h with
  | .nil => rfl
  | .cons _ hes => rw [List.length_cons, List.length_cons, hes.length]

theorem Statement.Alike.form {r : Reading} {s s' : Statement} (h : s.Alike r s') :
    s'.form = s.form := by
  cases h <;> rfl

theorem Statement.Alike.location {r : Reading} {s s' : Statement} (h : s.Alike r s') :
    r.places (some s.location) (some s'.location) := by
  cases h <;> assumption

/-! What is told of a run. -/

/-- Causes that evaluation itself can arrive at, with names that count as the same. -/
inductive Cause.Alike (r : Reading) : Cause → Cause → Prop
  | refl (c : Cause) : Cause.Alike r c c
  | notAnObject {name name' : String} (got : String) (h : r.names name name') :
      Cause.Alike r (.notAnObject name got) (.notAnObject name' got)
  | malformedTarget {d d' : Designator} (h : d.Alike r d') :
      Cause.Alike r (.malformedTarget d.text) (.malformedTarget d'.text)
  | unknownProcedure {name name' : String} (h : r.names name name') :
      Cause.Alike r (.unknownProcedure name) (.unknownProcedure name')
  | argumentCount {callee callee' : String} (expected got : Nat) (h : r.names callee callee') :
      Cause.Alike r (.argumentCount expected got callee) (.argumentCount expected got callee')

inductive Step.Alike (r : Reading) : Step → Step → Prop
  | declareClass {name name' : String} (h : r.names name name') :
      Step.Alike r (.declareClass name) (.declareClass name')
  | attachMethod {name name' : String} (h : r.names name name') :
      Step.Alike r (.attachMethod name) (.attachMethod name')
  | statement (form : Form) : Step.Alike r (.statement form) (.statement form)
  | enter {name name' : String} {texts texts' : List String} (kind : CallKind)
      (h : r.names name name') (ht : List.Forall₂ r.names texts texts') :
      Step.Alike r (.enter kind name texts) (.enter kind name' texts')
  | builtin {texts texts' : List String} (procedure : Builtin)
      (ht : List.Forall₂ r.names texts texts') :
      Step.Alike r (.builtin procedure texts) (.builtin procedure texts')

/-! Likenesses. -/

/-- What counts as the same in two runs, and what each side knows in a world: which values there
may be, and of which classes objects may be made. -/
structure Likeness (W : Type) [Preorder W] extends Reading where
  values : W → Value → Prop
  classes : W → ClassId → Prop
  /-- What a member that is called may turn out to be on the two sides. -/
  methods : String → Method → Method → Prop
  declared : Class → Class → Prop
  impls : MethodImpl → MethodImpl → Prop
  globals : String → String → Prop
  causes : Cause → Cause → Prop
  /-- Whether both sides may run out of room for calls. -/
  exhausts : Prop
  names_refl : ∀ name, names name name
  key_of_names : ∀ {name name'}, names name name' → Key.of name' = Key.of name
  places_or : ∀ {x x' y y'}, places x x' → places y y' → places (x.or y) (x'.or y')
  places_none : places none none
  values_int : ∀ w n, values w (.int n)
  values_nil : ∀ w, values w .nil
  values_mono : ∀ {w w' v}, w ≤ w' → values w v → values w' v
  classes_mono : ∀ {w w' id}, w ≤ w' → classes w id → classes w' id
  arity : ∀ {member m m'}, methods member m m' → m'.params.length = m.params.length
  isFunction : ∀ {member m m'}, methods member m m' → m'.isFunction = m.isFunction
  qualifiedName : ∀ {member m m'}, methods member m m' → names m.qualifiedName m'.qualifiedName
  causes_alike : ∀ {c c'}, Cause.Alike toReading c c' → causes c c'

namespace Likeness

variable {W : Type} [Preorder W] (ℓ : Likeness W)

/-- Faults of the program that are alike. -/
structure Faults (e e' : RuntimeError) : Prop where
  cause : ℓ.causes e.cause e'.cause
  location : ℓ.places e.location e'.location
  step : e'.step = e.step
  stack : e'.stack = e.stack

def Fails : Raised → Raised → Prop
  | .runtime e, .runtime e' => ℓ.Faults e e'
  | .host f, .host f' => f' = f
  | .exhausted e, .exhausted e' => ℓ.exhausts ∧ ℓ.Faults e e'
  | _, _ => False

inductive EventsAlike : Event → Event → Prop
  | programStart {name name' : Option String} (h : Option.Rel ℓ.names name name') :
      EventsAlike (.programStart name) (.programStart name')
  | beforeStatement {l l' : Location} (form : Form) (hl : ℓ.places (some l) (some l')) :
      EventsAlike (.beforeStatement form l.line) (.beforeStatement form l'.line)
  | afterStatement {l l' : Location} (form : Form) (hl : ℓ.places (some l) (some l')) :
      EventsAlike (.afterStatement form l.line) (.afterStatement form l'.line)
  | beforeCall {name name' : String} {texts texts' : List String} {l l' : Option Location}
      (h : ℓ.names name name') (ht : List.Forall₂ ℓ.names texts texts') (hl : ℓ.places l l') :
      EventsAlike (.beforeCall name texts (l.map Location.line))
        (.beforeCall name' texts' (l'.map Location.line))
  | afterCall {name name' text text' : String} {l l' : Option Location} (h : ℓ.names name name')
      (ht : ℓ.names text text') (hl : ℓ.places l l') :
      EventsAlike (.afterCall name text (l.map Location.line))
        (.afterCall name' text' (l'.map Location.line))
  | onError {e e' : Raised} (h : ℓ.Fails e e') : EventsAlike (.onError e) (.onError e')
  | programEnd : EventsAlike .programEnd .programEnd

/-- A value that both sides have. -/
def Same (w : W) (v v' : Value) : Prop :=
  v' = v ∧ ℓ.values w v

/-- An object that both sides have. -/
def SameObject (w : W) (id id' : ObjectId) : Prop :=
  id' = id ∧ ℓ.values w (.object id)

/-- The actions that programs ask for side by side, each with what its results have in common. -/
inductive Asks (w : W) : (a b : Action) → (W → a.Result → b.Result → Prop) → Prop
  | log {s s' : Step} {l l' : Option Location} (hs : s.Alike ℓ.toReading s')
      (hl : ℓ.places l l') : Asks w (.log s l) (.log s' l') fun _ _ _ => True
  | emit {e e' : Event} (h : ℓ.EventsAlike e e') : Asks w (.emit e) (.emit e') fun _ _ _ => True
  | render {v : Value} (hv : ℓ.values w v) :
      Asks w (.render v) (.render v) fun _ text text' => ℓ.names text text'
  | lookup {name name' : String} (h : ℓ.names name name') :
      Asks w (.lookup name) (.lookup name') ℓ.Same
  | receiver : Asks w .receiver .receiver ℓ.SameObject
  | readField {id : ObjectId} {field field' : String} {l l' : Location}
      (hid : ℓ.values w (.object id)) (h : ℓ.names field field')
      (hl : ℓ.places (some l) (some l')) :
      Asks w (.readField id field l) (.readField id field' l') ℓ.Same
  | writeField {id : ObjectId} {field field' : String} {v : Value} {l l' : Location}
      (hid : ℓ.values w (.object id)) (h : ℓ.names field field') (hv : ℓ.values w v)
      (hl : ℓ.places (some l) (some l')) :
      Asks w (.writeField id field v l) (.writeField id field' v l') fun _ _ _ => True
  | assign {name name' : String} {v : Value} (h : ℓ.names name name') (hv : ℓ.values w v) :
      Asks w (.assign name v) (.assign name' v) fun _ _ _ => True
  | constructedClass {left left' : String} (h : ℓ.names left left') :
      Asks w (.constructedClass left) (.constructedClass left')
        fun w id id' => id' = id ∧ ∀ c, id = some c → ℓ.classes w c
  | findConstructor {id : ClassId} {member member' : String} {l l' : Option Location}
      (hid : ℓ.classes w id) (h : ℓ.names member member') (hl : ℓ.places l l') :
      Asks w (.findConstructor id member l) (.findConstructor id member' l')
        fun _ m m' => ℓ.methods member m m'
  | findMethod {id : ObjectId} {member member' : String} {l l' : Option Location}
      (hid : ℓ.values w (.object id)) (h : ℓ.names member member') (hl : ℓ.places l l') :
      Asks w (.findMethod id member l) (.findMethod id member' l')
        fun _ r r' => ℓ.methods member r.1 r'.1 ∧ r'.2 = r.2
  | newObject {id : ClassId} (hid : ℓ.classes w id) :
      Asks w (.newObject id) (.newObject id) ℓ.SameObject
  | newFrame {member : String} {m m' : Method} {args : List Value} {l l' : Option Location}
      (hm : ℓ.methods member m m') (ha : ∀ v ∈ args, ℓ.values w v) (hl : ℓ.places l l') :
      Asks w (.newFrame m args l) (.newFrame m' args l') fun _ frame frame' => frame' = frame
  | enter {receiver : ObjectId} (frame : FrameId) (hr : ℓ.values w (.object receiver)) :
      Asks w (.enter frame receiver) (.enter frame receiver) fun _ _ _ => True
  | liveFrames : Asks w .liveFrames .liveFrames fun _ live live' => live' = live
  | result (frame : FrameId) : Asks w (.result frame) (.result frame) ℓ.Same
  | write (line : String) : Asks w (.write line) (.write line) fun _ _ _ => True
  | nextWord : Asks w .nextWord .nextWord fun _ word word' => word' = word
  | transcribe (entry : TranscriptEntry) :
      Asks w (.transcribe entry) (.transcribe entry) fun _ _ _ => True
  | defineClass {c c' : Class} {l l' : Location} (hc : ℓ.declared c c')
      (hl : ℓ.places (some l) (some l')) :
      Asks w (.defineClass c l) (.defineClass c' l') fun _ _ _ => True
  | attachMethod {impl impl' : MethodImpl} (h : ℓ.impls impl impl')
      (hl : ℓ.places (some impl.location) (some impl'.location)) :
      Asks w (.attachMethod impl) (.attachMethod impl') fun _ name name' => ℓ.names name name'
  | declareGlobal {name name' : String} {v : Value} (h : ℓ.globals name name')
      (hv : ℓ.values w v) :
      Asks w (.declareGlobal name v) (.declareGlobal name' v) fun _ _ _ => True
  | lastStep : Asks w .lastStep .lastStep fun _ r r' => r'.1 = r.1 ∧ ℓ.places r.2 r'.2

def pairing : Pairing W where
  asks := ℓ.Asks
  fails := ℓ.Fails

/-- Scripts that go in parallel by a likeness. -/
abbrev Couples (n : Nat) (w : W) {α β : Type} (x : Script α) (y : Script β)
    (Q : W → α → β → Prop) : Prop :=
  Parallel ℓ.pairing n w x y Q

/-- Declarations of classes that describe classes alike, or fail alike. -/
structure Decls (d d' : ClassDecl) : Prop where
  location : ℓ.places (some d.location) (some d'.location)
  name : ℓ.names d.name d'.name
  described : match Class.ofDecl d, Class.ofDecl d' with
    | .ok c, .ok c' => ℓ.declared c c'
    | .error cause, .error cause' => ℓ.causes cause cause'
    | _, _ => False

structure Impls (impl impl' : MethodImpl) : Prop where
  location : ℓ.places (some impl.location) (some impl'.location)
  attached : ℓ.impls impl impl'

structure Vars (g g' : NameGroup) : Prop where
  names : List.Forall₂ ℓ.globals g.names g'.names
  typeName : ℓ.names g.typeName g'.typeName

structure Programs (p p' : Program) : Prop where
  name : Option.Rel ℓ.names p.name p'.name
  classes : List.Forall₂ ℓ.Decls (p.classes.elim [] Section.items)
    (p'.classes.elim [] Section.items)
  methods : List.Forall₂ ℓ.Impls (p.methods.elim [] Section.items)
    (p'.methods.elim [] Section.items)
  vars : List.Forall₂ ℓ.Vars (p.vars.elim [] Section.items) (p'.vars.elim [] Section.items)
  block : List.Forall₂ (Statement.Alike ℓ.toReading) p.block.statements p'.block.statements

/-- The body of whatever `member` stands for runs in parallel on the two sides, with calls that
nest less than `n` deep. -/
def Runs (body body' : List Statement → Script Unit) (n : Nat) (member : String) : Prop :=
  ∀ m m', ℓ.methods member m m' → ∃ k < n, ∀ w,
    ℓ.Couples k w (body (m.body.getD [])) (body' (m'.body.getD [])) fun _ _ _ => True

section

variable {ℓ} {n : Nat} {w : W} {α β : Type}

theorem Faults.capture {e e' : RuntimeError} (live : List FrameId) (h : ℓ.Faults e e') :
    ℓ.Faults { e with stack := e.stack.or (some live) }
      { e' with stack := e'.stack.or (some live) } where
  cause := h.cause
  location := h.location
  step := h.step
  stack := congrArg (fun s => s.or (some live)) h.stack

theorem Faults.tooDeep : ℓ.Faults .tooDeep .tooDeep :=
  ⟨ℓ.causes_alike (.refl _), ℓ.places_none, rfl, rfl⟩

theorem Fails.locate {e e' : Raised} {l l' : Location} (h : ℓ.Fails e e')
    (hl : ℓ.places (some l) (some l')) : ℓ.Fails (e.locate l) (e'.locate l') := by
  cases e with
  | runtime e =>
    cases e' with
    | runtime e' =>
      have hfaults : ℓ.Faults e e' := h
      exact { hfaults with location := ℓ.places_or hfaults.location hl }
    | host => exact h
    | exhausted => exact h
  | host => cases e' <;> exact h
  | exhausted => cases e' <;> exact h

theorem Fails.capture {e e' : Raised} (live : List FrameId) (h : ℓ.Fails e e') :
    ℓ.Fails (e.capture live) (e'.capture live) := by
  cases e with
  | runtime e =>
    cases e' with
    | runtime e' => exact Faults.capture live h
    | host => exact h
    | exhausted => exact h
  | host f =>
    cases e' with
    | host f' =>
      have hf : f' = f := h
      rw [hf]
      rfl
    | runtime => exact h
    | exhausted => exact h
  | exhausted e =>
    cases e' with
    | exhausted e' => exact ⟨h.1, h.2.capture live⟩
    | runtime => exact h
    | host => exact h

/-- Where both sides may run out of room for calls, so they do with faults that are alike. -/
theorem Fails.outOfRoom {e e' : Raised} (hx : ℓ.exhausts) (h : ℓ.Fails e e') :
    ℓ.Fails e.outOfRoom e'.outOfRoom := by
  cases e with
  | runtime e =>
    cases e' with
    | runtime e' => exact ⟨hx, h⟩
    | host => exact h
    | exhausted => exact h.elim
  | host f => cases e' <;> exact h
  | exhausted e =>
    cases e' with
    | exhausted e' => exact h
    | runtime => exact h.elim
    | host => exact h

end

end Likeness

end ObjectPascal
