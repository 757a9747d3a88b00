import ObjectPascal.Proofs.Lockstep

/-!
One run, seen as two runs of one program in lockstep. A regime says what is known in the run of
values, classes and methods; it asks of the machine to keep to it, action by action.
-/

namespace ObjectPascal

open Script

/-- Nothing that a machine does by itself runs out of room for calls. -/
theorem Machine.perform_ne_exhausted (host : Host) (m : Machine) (a : Action)
    (error : RuntimeError) :
    (m.perform host a).1 ≠ .error (.exhausted error) := by
  have hjudge : ∀ (observer : String) (location : Option Location) (r : Except Failure Unit),
      judge observer location r ≠ .error (.exhausted error) := by
    intro observer location r h
    cases r with
    | ok => cases h
    | error f => cases f <;> cases h
  have hfault : ∀ {α : Type} (location : Option Location) (r : Except Cause α),
      faultAt location r ≠ .error (.exhausted error) := by
    intro α location r h
    cases r <;> cases h
  have hupdate : ∀ (location : Option Location) (r : Except Cause Store),
      (m.update location r).1 ≠ .error (.exhausted error) := by
    intro location r h
    cases r <;> cases h
  cases a with
  | log step location => exact hjudge _ _ _
  | emit event => exact hjudge _ _ _
  | lookup name => exact hfault _ _
  | receiver => exact hfault _ _
  | readField id field location => exact hfault _ _
  | findConstructor id member location => exact hfault _ _
  | findMethod id member location => exact hfault _ _
  | writeField id field v location => exact hupdate _ _
  | assign name v => exact hupdate _ _
  | defineClass decl location => exact hupdate _ _
  | write line =>
    change (m.write host line).1 ≠ _
    unfold write
    split <;> exact nofun
  | nextWord =>
    change m.nextWord.1 ≠ _
    unfold nextWord
    split <;> exact nofun
  | attachMethod impl =>
    dsimp only [perform]
    split <;> exact nofun
  | _ =>
    intro h
    cases h

/-- What is known in a run: of values and classes as the run goes on, and of methods, of classes
that are declared and of implementations throughout. -/
structure Regime (W : Type) [Preorder W] where
  values : W → Value → Prop
  classes : W → ClassId → Prop
  /-- What a member that is called may turn out to be. -/
  methods : String → Method → Prop
  declared : Class → Prop
  impls : MethodImpl → Prop
  /-- Whether the run may run out of room for calls. -/
  exhausts : Prop
  values_int : ∀ w n, values w (.int n)
  values_nil : ∀ w, values w .nil
  values_mono : ∀ {w w' v}, w ≤ w' → values w v → values w' v
  classes_mono : ∀ {w w' id}, w ≤ w' → classes w id → classes w' id

/-- The reading by which only the same is the same. -/
def Reading.strict : Reading where
  names := (· = ·)
  places := (· = ·)

/-! Everything is strictly like itself, and nothing else is. -/

theorem Designator.alike_self (d : Designator) : d.Alike .strict d :=
  ⟨rfl, rfl, List.forall₂_same.mpr fun _ _ => rfl⟩

theorem Reading.eq_of_strict {texts texts' : List String}
    (h : List.Forall₂ Reading.strict.names texts texts') : texts = texts' := by
  rw [← List.forall₂_eq_eq_eq]
  exact h

theorem Designator.Alike.text_eq {d d' : Designator} (h : d.Alike .strict d') :
    d'.text = d.text := by
  have hbase : d.base = d'.base := h.base
  have hsel := Reading.eq_of_strict h.selectors
  unfold Designator.text Designator.parts
  rw [hbase, hsel]

mutual

theorem Expr.alike_self : (e : Expr) → e.Alike .strict e
  | .literal l n => .literal l l n
  | .ref d => .ref d.alike_self
  | .binary _ op left right => .binary op rfl left.alike_self right.alike_self
  | .parens l e => .parens l l e.alike_self
  | .call _ _ _ args => .call rfl rfl rfl (Expr.allAlike_self args)
  | .bare _ => .bare rfl

theorem Expr.allAlike_self : (es : List Expr) → Expr.AllAlike .strict es es
  | [] => .nil
  | e :: es => .cons e.alike_self (Expr.allAlike_self es)

end

theorem Statement.alike_self (s : Statement) : s.Alike .strict s := by
  cases s with
  | assignment l d e => exact .assignment rfl d.alike_self e.alike_self
  | methodCall l left member args => exact .methodCall rfl rfl rfl (Expr.allAlike_self args)
  | procedureCall l name args => exact .procedureCall rfl rfl (Expr.allAlike_self args)
  | bare l => exact .bare rfl

theorem Cause.Alike.eq {c c' : Cause} (h : c.Alike .strict c') : c = c' := by
  cases h with
  | refl => rfl
  | notAnObject got h => rw [show _ = _ from h]
  | malformedTarget h => rw [h.text_eq]
  | unknownProcedure h => rw [show _ = _ from h]
  | argumentCount expected got h => rw [show _ = _ from h]

theorem Step.Alike.eq {s s' : Step} (h : s.Alike .strict s') : s = s' := by
  cases h with
  | declareClass h => rw [show _ = _ from h]
  | attachMethod h => rw [show _ = _ from h]
  | statement => rfl
  | enter kind h ht => rw [show _ = _ from h, Reading.eq_of_strict ht]
  | builtin procedure ht => rw [Reading.eq_of_strict ht]

namespace Regime

variable {W : Type} [Preorder W] (g : Regime W)

/-- A run with itself. -/
def likeness : Likeness W where
  toReading := .strict
  values := g.values
  classes := g.classes
  methods member m m' := m = m' ∧ g.methods member m
  declared c c' := c = c' ∧ g.declared c
  impls impl impl' := impl = impl' ∧ g.impls impl
  globals := (· = ·)
  causes := (· = ·)
  exhausts := g.exhausts
  names_refl _ := rfl
  key_of_names h := by rw [show _ = _ from h]
  places_or hx hy := by rw [show _ = _ from hx, show _ = _ from hy]; rfl
  places_none := rfl
  values_int := g.values_int
  values_nil := g.values_nil
  values_mono := g.values_mono
  classes_mono := g.classes_mono
  arity h := by rw [h.1]
  isFunction h := by rw [h.1]
  qualifiedName h := congrArg Method.qualifiedName h.1
  causes_alike := Cause.Alike.eq

theorem faults_eq {e e' : RuntimeError} (h : g.likeness.Faults e e') : e' = e := by
  obtain ⟨hcause, hplace, hstep, hstack⟩ := h
  have hcause' : e.cause = e'.cause := hcause
  have hplace' : e.location = e'.location := hplace
  obtain ⟨cause, location, step, stack⟩ := e
  obtain ⟨cause', location', step', stack'⟩ := e'
  cases hcause'
  cases hplace'
  cases hstep
  cases hstack
  rfl

theorem faults_self (e : RuntimeError) : g.likeness.Faults e e :=
  ⟨rfl, rfl, rfl, rfl⟩

theorem fails_eq {e e' : Raised} (h : g.likeness.Fails e e') : e' = e := by
  cases e with
  | runtime e =>
    cases e' with
    | runtime e' => rw [g.faults_eq h]
    | host => exact h.elim
    | exhausted => exact h.elim
  | host f =>
    cases e' with
    | host f' => rw [show f' = f from h]
    | runtime => exact h.elim
    | exhausted => exact h.elim
  | exhausted e =>
    cases e' with
    | exhausted e' => rw [g.faults_eq h.2]
    | runtime => exact h.elim
    | host => exact h.elim

theorem fails_self {e : Raised} (h : ∀ error, e = .exhausted error → g.exhausts) :
    g.likeness.Fails e e := by
  cases e with
  | runtime e => exact g.faults_self e
  | host f => rfl
  | exhausted e => exact ⟨h e rfl, g.faults_self e⟩

theorem events_eq {e e' : Event} (h : g.likeness.EventsAlike e e') : e = e' := by
  cases h with
  | @programStart name name' h =>
    cases h with
    | some h => rw [show _ = _ from h]
    | none => rfl
  | beforeStatement form hl => rw [Option.some.inj hl]
  | afterStatement form hl => rw [Option.some.inj hl]
  | beforeCall h ht hl => rw [show _ = _ from h, Reading.eq_of_strict ht, show _ = _ from hl]
  | afterCall h ht hl => rw [show _ = _ from h, show _ = _ from ht, show _ = _ from hl]
  | onError h => rw [g.fails_eq h]
  | programEnd => rfl

/-- What may be asked of a machine. -/
def Allows (w : W) : Action → Prop
  | .render v | .assign _ v | .declareGlobal _ v => g.values w v
  | .readField id .. | .findMethod id .. | .enter _ id => g.values w (.object id)
  | .writeField id _ v _ => g.values w (.object id) ∧ g.values w v
  | .findConstructor id .. | .newObject id => g.classes w id
  | .newFrame m args _ => (∃ member, g.methods member m) ∧ ∀ v ∈ args, g.values w v
  | .defineClass c _ => g.declared c
  | .attachMethod impl => g.impls impl
  | .leave => False
  | _ => True

/-- What the result of an action is known to be. -/
def Gives (w : W) : (a : Action) → a.Result → Prop
  | .lookup _, v | .readField .., v | .result _, v => g.values w v
  | .receiver, id | .newObject _, id => g.values w (.object id)
  | .constructedClass _, id => ∀ c, id = some c → g.classes w c
  | .findConstructor _ member _, m => g.methods member m
  | .findMethod _ member _, r => g.methods member r.1
  | _, _ => True

/-- Actions that a program and itself ask for are one action, and what its results have in common
is what is known of each. -/
theorem asks_self {w : W} {a b : Action} {Q : W → a.Result → b.Result → Prop}
    (h : g.likeness.Asks w a b Q) :
    ∃ hab : a = b, g.Allows w a ∧ ∀ w' r, g.Gives w' a r → Q w' r (hab ▸ r) := by
  cases h with
  | log hs hl =>
    cases hs.eq
    cases hl
    exact ⟨rfl, trivial, fun _ _ _ => trivial⟩
  | emit h =>
    cases g.events_eq h
    exact ⟨rfl, trivial, fun _ _ _ => trivial⟩
  | render hv => exact ⟨rfl, hv, fun _ _ _ => rfl⟩
  | lookup h =>
    cases h
    exact ⟨rfl, trivial, fun _ _ hr => ⟨rfl, hr⟩⟩
  | receiver => exact ⟨rfl, trivial, fun _ _ hr => ⟨rfl, hr⟩⟩
  | readField hid h hl =>
    cases h
    cases hl
    exact ⟨rfl, hid, fun _ _ hr => ⟨rfl, hr⟩⟩
  | writeField hid h hv hl =>
    cases h
    cases hl
    exact ⟨rfl, ⟨hid, hv⟩, fun _ _ _ => trivial⟩
  | assign h hv =>
    cases h
    exact ⟨rfl, hv, fun _ _ _ => trivial⟩
  | constructedClass h =>
    cases h
    exact ⟨rfl, trivial, fun _ _ hr => ⟨rfl, hr⟩⟩
  | findConstructor hid h hl =>
    cases h
    cases hl
    exact ⟨rfl, hid, fun _ _ hr => ⟨rfl, hr⟩⟩
  | findMethod hid h hl =>
    cases h
    cases hl
    exact ⟨rfl, hid, fun _ _ hr => ⟨⟨rfl, hr⟩, rfl⟩⟩
  | newObject hid => exact ⟨rfl, hid, fun _ _ hr => ⟨rfl, hr⟩⟩
  | newFrame hm ha hl =>
    obtain ⟨hsame, hmethod⟩ := hm
    cases hsame
    cases hl
    exact ⟨rfl, ⟨⟨_, hmethod⟩, ha⟩, fun _ _ _ => rfl⟩
  | enter frame hr => exact ⟨rfl, hr, fun _ _ _ => trivial⟩
  | liveFrames => exact ⟨rfl, trivial, fun _ _ _ => rfl⟩
  | result frame => exact ⟨rfl, trivial, fun _ _ hr => ⟨rfl, hr⟩⟩
  | write line => exact ⟨rfl, trivial, fun _ _ _ => trivial⟩
  | nextWord => exact ⟨rfl, trivial, fun _ _ _ => rfl⟩
  | transcribe entry => exact ⟨rfl, trivial, fun _ _ _ => trivial⟩
  | defineClass hc hl =>
    obtain ⟨hsame, hdeclared⟩ := hc
    cases hsame
    cases hl
    exact ⟨rfl, hdeclared, fun _ _ _ => trivial⟩
  | attachMethod h hl =>
    obtain ⟨hsame, himpl⟩ := h
    cases hsame
    exact ⟨rfl, himpl, fun _ _ _ => rfl⟩
  | declareGlobal h hv =>
    cases h
    exact ⟨rfl, hv, fun _ _ _ => trivial⟩
  | lastStep => exact ⟨rfl, trivial, fun _ _ _ => ⟨rfl, rfl⟩⟩

/-- A machine keeps to the regime: `I` holds of it from one action to the next, and what actions
bring is as the regime says. -/
structure Kept (host : Host) (I : W → Machine → Prop) : Prop where
  perform : ∀ {w m a}, I w m → g.Allows w a →
    ∃ w', w ≤ w' ∧ I w' (m.perform host a).2 ∧
      ∀ r, (m.perform host a).1 = .ok r → g.Gives w' a r
  leave : ∀ {w m}, I w m → I w m.left

variable {g}

theorem Kept.holds {host : Host} {I : W → Machine → Prop} (h : g.Kept host I) :
    g.likeness.pairing.Holds host host fun w m m' => m' = m ∧ I w m where
  perform := by
    intro w m m' a b Q hm hask
    obtain ⟨rfl, hi⟩ := hm
    obtain ⟨rfl, hallows, hgives⟩ := g.asks_self hask
    obtain ⟨w', hw, hi', hresult⟩ := h.perform hi hallows
    refine ⟨w', hw, ⟨rfl, hi'⟩, ?_⟩
    cases hr : (m'.perform host a).1 with
    | ok r => exact hgives w' r (hresult r hr)
    | error e =>
      apply g.fails_self
      intro error he
      rw [he] at hr
      exact absurd hr (Machine.perform_ne_exhausted host m' a error)
  leave := by
    intro w m m' hm
    obtain ⟨rfl, hi⟩ := hm
    exact ⟨rfl, h.leave hi⟩
  calls := by
    intro w m m' hm
    rw [hm.1]
  capture live he := Likeness.Fails.capture live he

section

variable {host : Host} {I : W → Machine → Prop} {n : Nat} {w : W} {m : Machine}

/-- Scripts in lockstep do the same, and run out of room for calls only if the regime says so. -/
theorem Kept.run_eq (h : g.Kept host I) {x y : Script Unit}
    (hxy : g.likeness.Couples n w x y fun _ _ _ => True) (hm : I w m) :
    y.run host m = x.run host m ∧
      ∀ e, (x.run host m).1 = .error (.exhausted e) → g.exhausts := by
  obtain ⟨⟨w', -, ⟨hmachine, -⟩, hagree⟩, -⟩ := hxy.run h.holds ⟨rfl, hm⟩
  rcases hr : x.run host m with ⟨r, m₁⟩
  rcases hr' : y.run host m with ⟨r', m₂⟩
  rw [hr, hr'] at hmachine hagree
  have hmachine' : m₂ = m₁ := hmachine
  cases r with
  | ok _ =>
    cases r' with
    | ok _ =>
      refine ⟨?_, fun _ => nofun⟩
      rw [hmachine']
    | error e' => exact hagree.elim
  | error e =>
    cases r' with
    | ok _ => exact hagree.elim
    | error e' =>
      have hfails : g.likeness.Fails e e' := hagree
      refine ⟨?_, ?_⟩
      · rw [hmachine', g.fails_eq hfails]
      · intro error he
        cases he
        rw [g.fails_eq hfails] at hfails
        exact hfails.1

/-- At every moment of a run in lockstep, and at its end, `I` holds. -/
theorem Kept.moments {α β : Type} {x : Script α} {y : Script β} {Q : W → α → β → Prop}
    (h : g.Kept host I) (hxy : g.likeness.Couples n w x y Q) (hm : I w m) :
    (∀ p ∈ x.moments host m, ∃ w', I w' p.1) ∧ ∃ w', I w' (x.run host m).2 := by
  refine ⟨?_, ?_⟩
  · intro p hp
    obtain ⟨⟨w', n', -, hi⟩, -⟩ := hxy.moments h.holds ⟨rfl, hm⟩ p hp
    exact ⟨w', hi⟩
  · obtain ⟨⟨w', -, ⟨-, hi⟩, -⟩, -⟩ := hxy.run h.holds ⟨rfl, hm⟩
    exact ⟨w', hi⟩

theorem Kept.depth_le {α β : Type} {x : Script α} {y : Script β} {Q : W → α → β → Prop}
    (h : g.Kept host I) (hxy : g.likeness.Couples n w x y Q) (hm : I w m) :
    ∀ s ∈ x.stores host m, s.depth ≤ m.store.depth + n := by
  intro s hs
  have hmoments := hxy.moments h.holds ⟨rfl, hm⟩
  rcases mem_stores.mp hs with ⟨p, hp, rfl | hpass⟩ | rfl
  · exact (hmoments p hp).2
  · have hcalls : s.depth = p.1.store.depth := congrArg List.length (Machine.passing_calls hpass)
    rw [hcalls]
    exact (hmoments p hp).2
  · have hcalls := congrArg List.length (hxy.run h.holds ⟨rfl, hm⟩).calls
    exact Nat.le_trans (Nat.le_of_eq hcalls) (Nat.le_add_right _ _)

end

/-- A program is like itself if its declarations are as the regime says. -/
theorem programs {p : Program}
    (hc : ∀ d ∈ p.classes.elim [] Section.items, ∀ c, Class.ofDecl d = .ok c → g.declared c)
    (hi : ∀ impl ∈ p.methods.elim [] Section.items, g.impls impl) : g.likeness.Programs p p where
  name := by
    cases p.name with
    | none => exact .none
    | some name => exact .some rfl
  classes := by
    apply List.forall₂_same.mpr
    intro d hd
    refine ⟨rfl, rfl, ?_⟩
    cases h : Class.ofDecl d with
    | ok c => exact ⟨rfl, hc d hd c h⟩
    | error cause => rfl
  methods := List.forall₂_same.mpr fun impl himpl => ⟨rfl, rfl, hi impl himpl⟩
  vars := List.forall₂_same.mpr fun _ _ => ⟨List.forall₂_same.mpr fun _ _ => rfl, rfl⟩
  block := List.forall₂_same.mpr fun s _ => s.alike_self

/-- Where room for calls may run out, every program goes in lockstep with itself. -/
theorem couples_self {p : Program} (hp : g.likeness.Programs p p) (hx : g.exhausts) (depth : Nat)
    (w : W) :
    g.likeness.Couples (depth + 1) w (p.execute depth) (p.execute depth) fun _ _ _ => True := by
  refine .programExecute_same depth hx ?_ hp
  intro member m m' hm
  rw [hm.1]
  exact List.forall₂_same.mpr fun s _ => s.alike_self

end Regime

end ObjectPascal
