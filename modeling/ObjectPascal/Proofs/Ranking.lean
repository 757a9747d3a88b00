import Mathlib.Data.Finset.Card
import ObjectPascal.Proofs.Extension
import ObjectPascal.Proofs.Regime
import ObjectPascal.Proofs.Wellformed

/-!
Programs without recursion. If every method calls only methods of lower rank than its own, a run
ends by itself, and calls nest no deeper than there are names of methods.
-/

namespace ObjectPascal

open Script

/-! Ranks. -/

section

variable {R : Type*} [Preorder R]

/-- The names of the methods that a program implements. -/
def Program.methodKeys (p : Program) : Finset Key :=
  ((p.methods.elim [] Section.items).map fun impl => Key.of impl.methodName).toFinset

/-- Statements call only what ranks below `k`. -/
def CallsBelow (rank : Key → R) (k : Key) (ss : List Statement) : Prop :=
  ∀ s ∈ ss, ∀ member ∈ s.calls, rank (Key.of member) < rank k

/-- The body of every method calls only members of lower rank than the method has. -/
def Program.Ranked (rank : Key → R) (p : Program) : Prop :=
  ∀ impl ∈ p.methods.elim [] Section.items,
    CallsBelow rank (Key.of impl.methodName) impl.body.statements

open Classical in
/-- How many of some names rank below `k`. -/
noncomputable def heightIn (rank : Key → R) (names : Finset Key) (k : Key) : Nat :=
  (names.filter fun k' => rank k' < rank k).card

variable {rank : Key → R} {names : Finset Key} {k k' : Key}

theorem heightIn_lt (hk : k ∈ names) (h : rank k < rank k') :
    heightIn rank names k < heightIn rank names k' := by
  classical
  apply Finset.card_lt_card
  refine (Finset.ssubset_iff_of_subset ?_).mpr ⟨k, ?_, ?_⟩
  · intro x hx
    obtain ⟨hmem, hlt⟩ := Finset.mem_filter.mp hx
    exact Finset.mem_filter.mpr ⟨hmem, hlt.trans h⟩
  · exact Finset.mem_filter.mpr ⟨hk, h⟩
  · intro hx
    exact lt_irrefl _ (Finset.mem_filter.mp hx).2

theorem heightIn_lt_card (hk : k ∈ names) : heightIn rank names k < names.card := by
  classical
  apply Finset.card_lt_card
  refine (Finset.ssubset_iff_of_subset (Finset.filter_subset _ _)).mpr ⟨k, hk, ?_⟩
  intro hx
  exact lt_irrefl _ (Finset.mem_filter.mp hx).2

end

section

variable {R : Type*} [Preorder R] (rank : Key → R) (names : Finset Key)

structure Method.Ranked (m : Method) : Prop where
  listed : m.implemented → m.key ∈ names
  calls : CallsBelow rank m.key (m.body.getD [])

/-- Every method stands under its own name and calls only what ranks below it. -/
def Class.Ranked (c : Class) : Prop :=
  ∀ k e, c.methods.find? k = some e → e.method.key = k ∧ e.method.Ranked rank names

variable {rank names}

theorem Class.Ranked.of_empty {c : Class} (h : c.methods = {}) : c.Ranked rank names := by
  intro k e he
  rw [h] at he
  cases he

theorem Class.Ranked.insert {c c' : Class} {m : Method} {visibility : Option Visibility}
    (hc : c.Ranked rank names) (hm : m.Ranked rank names)
    (h : c'.methods = c.methods.insert m.key ⟨m, visibility⟩) : c'.Ranked rank names := by
  intro k e he
  rw [h] at he
  by_cases hk : k = m.key
  · rw [hk, Table.find?_insert_self] at he
    cases he
    exact ⟨hk.symm, hm⟩
  · rw [Table.find?_insert_of_ne _ _ hk] at he
    exact hc k e he

theorem Class.Ranked.declareMethod {c : Class} (hc : c.Ranked rank names) (name : String)
    (kind : MethodKind) (params : List String) (visibility : Visibility) :
    (c.declareMethod name kind params visibility).Ranked rank names := by
  unfold Class.declareMethod
  dsimp only
  split
  · exact hc
  · have hbare : Method.Ranked rank names ⟨c.name, name, kind, kind = .function, params, none⟩ :=
      ⟨nofun, nofun⟩
    exact hc.insert hbare (bind_methods _ _)

theorem Class.Ranked.attachMethod {c : Class} {m : Method} (hc : c.Ranked rank names)
    (hm : m.Ranked rank names) : (c.attachMethod m).Ranked rank names :=
  hc.insert hm (bind_methods _ _)

theorem Class.Ranked.ofDecl {d : ClassDecl} {c : Class} (h : ofDecl d = .ok c) :
    c.Ranked rank names :=
  ofDecl_keeps (fun _ _ _ hc => hc) (fun _ name kind params visibility hc =>
    hc.declareMethod name kind params visibility) (.of_empty rfl) h

/-! The regime of a program with ranks. -/

variable (rank names)

/-- What is known of methods and classes; of values and objects nothing is said. -/
def ranking (exhausts : Prop) : Regime Still where
  values _ _ := True
  classes _ _ := True
  methods member m := m.key = Key.of member ∧ m.key ∈ names ∧
    CallsBelow rank m.key (m.body.getD [])
  declared := Class.Ranked rank names
  impls impl := Key.of impl.methodName ∈ names ∧
    CallsBelow rank (Key.of impl.methodName) impl.body.statements
  exhausts
  values_int _ _ := trivial
  values_nil _ := trivial
  values_mono _ _ := trivial
  classes_mono _ _ := trivial

/-- Every class of a machine has ranked methods. -/
def Machine.Ranked (m : Machine) : Prop :=
  ∀ c ∈ m.store.classes, c.Ranked rank names

variable {rank names} {exhausts : Prop} {host : Host}

theorem Machine.Ranked.found {m : Machine} (hm : m.Ranked rank names) {id : ClassId}
    {member : String} {method : Method} (himplemented : method.implemented)
    (h : ∃ e, (m.store.classOf id).methods.find? (Key.of member) = some e ∧ e.method = method) :
    (ranking rank names exhausts).methods member method := by
  have hclass : (m.store.classOf id).Ranked rank names := getD_of_forall hm (.of_empty rfl) id
  obtain ⟨e, he, rfl⟩ := h
  obtain ⟨hkey, hranked⟩ := hclass _ _ he
  exact ⟨hkey, hranked.listed himplemented, hranked.calls⟩

theorem Machine.Ranked.perform {m : Machine} (hm : m.Ranked rank names) {a : Action}
    (ha : (ranking rank names exhausts).Allows .still a) :
    (m.perform host a).2.Ranked rank names := by
  apply Machine.perform_classes hm
  · rintro c location rfl
    exact ha
  · rintro impl name c rfl hc
    have hmethod : (impl.method name).Ranked rank names := ⟨fun _ => ha.1, ha.2⟩
    exact hc.attachMethod hmethod

theorem ranking_kept :
    (ranking rank names exhausts).Kept host fun _ m => m.Ranked rank names where
  perform := by
    intro w m a hm ha
    refine ⟨.still, trivial, hm.perform ha, ?_⟩
    intro r hr
    cases a with
    | findConstructor id member location =>
      obtain ⟨himplemented, hfound⟩ := Store.findConstructor_ok (faultAt_ok hr)
      exact hm.found himplemented hfound
    | findMethod id member location =>
      obtain ⟨method, kind⟩ := r
      obtain ⟨himplemented, hfound⟩ := Store.findMethod_ok (faultAt_ok hr)
      exact hm.found himplemented hfound
    | constructedClass => exact fun _ _ => trivial
    | _ => trivial
  leave hm := hm

/-- By induction on the room for calls on one side: a member runs alike with any room that its
height leaves. -/
theorem ranking_runs {d d' n : Nat} {member : String} (hd : n ≤ d) (hd' : n ≤ d')
    (h : Key.of member ∈ names → heightIn rank names (Key.of member) < n) :
    (ranking rank names exhausts).likeness.Runs (runBody d) (runBody d') n member := by
  induction d generalizing d' n member with
  | zero =>
    intro m m' hm
    obtain ⟨rfl, hkey, hlisted, -⟩ := hm
    rw [hkey] at hlisted
    have hroom := h hlisted
    omega
  | succ d ih =>
    intro m m' hm
    obtain ⟨rfl, hkey, hlisted, hbelow⟩ := hm
    rw [hkey] at hlisted hbelow
    have hroom := h hlisted
    obtain ⟨d', rfl⟩ : ∃ d₁, d' = d₁ + 1 := ⟨d' - 1, by omega⟩
    refine ⟨heightIn rank names (Key.of member), hroom, ?_⟩
    intro w
    refine Likeness.Couples.executeAll ?_ (List.forall₂_same.mpr fun s _ => s.alike_self)
    intro s hs member' hmember'
    apply ih (by omega) (by omega)
    intro hmem
    exact heightIn_lt hmem (hbelow s hs member' hmember')

theorem ranking_programs {p : Program} (h : p.Ranked rank) :
    (ranking rank p.methodKeys exhausts).likeness.Programs p p := by
  apply Regime.programs
  · intro d _ c hc
    exact .ofDecl hc
  · intro impl himpl
    have hlisted : Key.of impl.methodName ∈ p.methodKeys := by
      apply List.mem_toFinset.mpr
      exact List.mem_map_of_mem himpl
    exact ⟨hlisted, h impl himpl⟩

/-- With as much room as there are names of methods, any other such room makes no difference. -/
theorem ranking_couples {p : Program} (h : p.Ranked rank) {depth depth' : Nat}
    (hd : p.methodKeys.card ≤ depth) (hd' : p.methodKeys.card ≤ depth') :
    (ranking rank p.methodKeys False).likeness.Couples p.methodKeys.card .still (p.execute depth)
      (p.execute depth') fun _ _ _ => True := by
  refine .programExecute (ranking_programs h) ?_
  intro s _ member _
  exact ranking_runs hd hd' heightIn_lt_card

/-- If every method calls only members of lower rank, whatever the ranks are, a run of the program
ends by itself: more room for calls than there are names of methods makes no difference to it, and
it does not run out of that room. Calls never nest deeper than there are names. -/
theorem ranked_terminates (host : Host) (replies : List Reply) (p : Program) (rank : Key → R)
    (h : p.Ranked rank) :
    let m : Machine := { input := { replies } }
    let bound := p.methodKeys.card
    (∀ depth ≥ bound, (p.execute depth).run host m = (p.execute bound).run host m) ∧
      (∀ e, ((p.execute bound).run host m).1 ≠ .error (.exhausted e)) ∧
      ∀ depth, ∀ s ∈ (p.execute depth).stores host m, s.depth ≤ bound := by
  intro m bound
  have hm : m.Ranked rank p.methodKeys := nofun
  have hbound : bound ≤ bound := le_refl bound
  refine ⟨?_, ?_, ?_⟩
  · intro depth hd
    exact (ranking_kept.run_eq (ranking_couples h hbound hd) hm).1
  · intro e hexhausted
    exact (ranking_kept.run_eq (ranking_couples h hbound hbound) hm).2 e hexhausted
  · intro depth s hs
    by_cases hd : bound ≤ depth
    · have hdepth := ranking_kept.depth_le (ranking_couples h hd hd) hm s hs
      exact hdepth.trans (Nat.zero_add bound).le
    · -- calls that nest too deep for the room are still too few
      have hprogram : (ranking rank p.methodKeys True).likeness.Programs p p := ranking_programs h
      have hself := Regime.couples_self hprogram trivial depth .still
      have hdepth := ranking_kept.depth_le hself hm s hs
      have hzero : m.store.depth = 0 := rfl
      omega

end

/-- A program in which one method calls another. -/
def Program.relay : Program where
  location := default
  name := none
  classes := some ⟨default,
    [⟨default, "TRelay", [.member (.method ⟨default, .constructor, "Create", [], none⟩)]⟩]⟩
  vars := none
  methods := some ⟨default,
    [⟨default, .constructor, "TRelay", "Create", [], none,
        ⟨default, [.methodCall default "self" "Step" []]⟩⟩,
      ⟨default, .procedure, "TRelay", "Step", [], none,
        ⟨default, [.procedureCall default "writeln" [.literal default 1]]⟩⟩]⟩
  block := ⟨default, [.methodCall default "TRelay" "Create" []]⟩

/-- The constructor ranks above the method that it calls, and calls nest two deep at most. -/
theorem ranked_terminates_relay :
    let rank := fun k => if k = Key.of "create" then 1 else 0
    let run := fun depth => (Program.relay.execute depth).run {} {}
    Program.relay.Ranked rank ∧
      (∀ depth ≥ 2, run depth = run 2) ∧
      (∀ e, (run 2).1 ≠ .error (.exhausted e)) ∧
      ∀ depth, ∀ s ∈ (Program.relay.execute depth).stores {} {}, s.depth ≤ 2 := by
  intro rank run
  have hranked : Program.relay.Ranked rank := by
    intro impl himpl s hs member hmember
    rcases List.mem_cons.mp himpl with rfl | himpl
    · rw [List.mem_singleton.mp hs] at hmember
      rw [List.mem_singleton.mp hmember]
      decide
    · rw [List.mem_singleton.mp himpl] at hs
      rw [List.mem_singleton.mp hs] at hmember
      cases hmember
  have hcard : Program.relay.methodKeys.card = 2 := by decide
  have h := ranked_terminates {} [] Program.relay rank hranked
  rw [hcard] at h
  exact ⟨hranked, h⟩

end ObjectPascal
