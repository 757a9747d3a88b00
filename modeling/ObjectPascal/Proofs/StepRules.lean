import Mathlib.Data.List.Nodup
import ObjectPascal.Proofs.Chronicle
import ObjectPascal.Proofs.EventOrder
import ObjectPascal.Proofs.Instrumentation

/-!
Step rules follow the log: as long as no handler fails, a rule is called for just those steps whose
index its interval divides, once for each and in their order, and rules that are due at one step
are called in the order of their registration.
-/

namespace ObjectPascal

/-! The rules called for one step. -/

/-- The step rules due at an index, each with its place in the order of registration. -/
def Host.dueRules (host : Host) (index : Nat) : List (StepRule Handler × Nat) :=
  host.hooks.rules.zipIdx.filter fun x => x.1.due index

theorem Host.dueHandlers_eq (host : Host) (index : Nat) :
    host.hooks.dueHandlers index = (host.dueRules index).map (·.1.handler) := by
  have hrules : host.hooks.rules.zipIdx.map Prod.fst = host.hooks.rules := List.zipIdx_map_fst 0 _
  unfold Registry.dueHandlers dueRules
  conv_lhs => rw [← hrules]
  rw [List.filter_map, List.map_map]
  rfl

/-- Only one rule stands at a place. -/
theorem filter_zipIdx {α : Type} (l : List α) (start k : Nat) :
    (l.zipIdx start).filter (fun x => x.2 = start + k) = (l[k]?.map (·, start + k)).toList := by
  induction l generalizing start k with
  | nil => rfl
  | cons a l ih =>
    rw [List.zipIdx_cons]
    cases k with
    | zero =>
      have hrest : (l.zipIdx (start + 1)).filter (fun x => x.2 = start + 0) = [] := by
        rw [List.filter_eq_nil_iff]
        intro x hx
        have hle := List.le_snd_of_mem_zipIdx hx
        rw [decide_eq_true_eq]
        omega
      rw [List.filter_cons_of_pos (by simp), hrest]
      rfl
    | succ k =>
      have hplace : start + (k + 1) = start + 1 + k := by omega
      rw [List.filter_cons_of_neg (by simp), hplace, ih]
      rfl

theorem Host.filter_dueRules {host : Host} {k : Nat} {rule : StepRule Handler}
    (h : host.hooks.rules[k]? = some rule) (index : Nat) :
    (host.dueRules index).filter (fun x => x.2 = k) =
      [(rule, k)].filter fun x => x.1.due index := by
  have hplace := filter_zipIdx host.hooks.rules 0 k
  rw [h, Nat.zero_add] at hplace
  unfold dueRules
  rw [List.filter_comm, hplace]
  rfl

theorem StepRule.due_iff {α : Type} (rule : StepRule α) (index : Nat) :
    rule.due index = decide (rule.interval ∣ index) := by
  unfold due
  exact decide_eq_decide.mpr Nat.dvd_iff_mod_eq_zero.symm

namespace Machine

/-- The rules that are called for a step: those due in turn, up to the first whose handler
fails. -/
def calledRules (context : StepContext) :
    List (StepRule Handler × Nat) → Machine → List (Nat × StepContext)
  | [], _ => []
  | x :: rest, m =>
    (x.2, context) ::
      match notify x.1.handler (.step context) m with
      | (.error _, _) => []
      | (.ok (), m) => calledRules context rest m

variable {context : StepContext} {rules : List (StepRule Handler × Nat)} {m : Machine}

/-- By induction on the rules that are due: those that count as called are the ones whose handlers
are. -/
theorem calledRules_inTurn (context : StepContext) (rules : List (StepRule Handler × Nat))
    (m : Machine) :
    ∃ called, called <+: rules ∧
      calledRules context rules m = called.map (fun x => (x.2, context)) ∧
      Notified (.step context) (called.map (·.1.handler)) m
        (notifyAll (rules.map (·.1.handler)) (.step context) m) ∧
      ((notifyAll (rules.map (·.1.handler)) (.step context) m).1 = .ok () → called = rules) := by
  induction rules generalizing m with
  | nil => exact ⟨[], List.prefix_rfl, rfl, .done m, fun _ => rfl⟩
  | cons x rest ih =>
    unfold calledRules
    rw [List.map_cons, notifyAll]
    rcases hn : notify x.1.handler (.step context) m with ⟨r, m'⟩
    cases r with
    | error f =>
      refine ⟨[x], ?_, rfl, .failed hn, ?_⟩
      · rw [List.cons_prefix_cons]
        exact ⟨rfl, List.nil_prefix⟩
      · intro hok
        cases hok
    | ok =>
      obtain ⟨called, hprefix, hcalled, hnotified, hall⟩ := ih m'
      refine ⟨x :: called, ?_, ?_, .next hn hnotified, fun hok => congrArg (x :: ·) (hall hok)⟩
      · rw [List.cons_prefix_cons]
        exact ⟨rfl, hprefix⟩
      · rw [List.map_cons]
        exact congrArg _ hcalled

theorem calledRules_isPrefix :
    calledRules context rules m <+: rules.map fun x => (x.2, context) := by
  obtain ⟨called, hprefix, hcalled, -⟩ := calledRules_inTurn context rules m
  rw [hcalled]
  exact hprefix.map _

/-- If no handler fails, all rules that are due are called. -/
theorem calledRules_of_ok
    (h : (notifyAll (rules.map (·.1.handler)) (.step context) m).1 = .ok ()) :
    calledRules context rules m = rules.map fun x => (x.2, context) := by
  obtain ⟨called, -, hcalled, -, hall⟩ := calledRules_inTurn context rules m
  rw [hcalled, hall h]

end Machine

namespace Moment

variable {x : Moment} {c : Nat × StepContext}

/-- The step rules that are called at a moment, by their places, and what they are told. -/
def calls (x : Moment) : List (Nat × StepContext) :=
  match x.action with
  | .log step location =>
    Machine.calledRules (x.machine.nextStep step location) (x.host.dueRules x.machine.log.size)
      (x.machine.record x.host step location)
  | _ => []

/-- What logging a step does once the step is in the log: it calls the handlers of just these rules,
one after another. -/
def CallsInTurn (x : Moment) : Prop :=
  ∀ step location, x.action = .log step location →
    ∃ (rules : List (StepRule Handler)) (out : Except Failure Unit × Machine),
      let context := x.machine.nextStep step location
      x.calls.map (fun c => (x.host.hooks.rules[c.1]?, c.2)) =
        rules.map (fun rule => (some rule, context)) ∧
      Machine.Notified (.step context) (rules.map (·.handler))
        (x.machine.record x.host step location) out ∧
      x.machine.logStep x.host step location = (Machine.judge "Step rule" location out.1, out.2)

theorem callsInTurn (x : Moment) : x.CallsInTurn := by
  obtain ⟨host, m, a⟩ := x
  rintro step location rfl
  obtain ⟨called, hprefix, hcalled, hnotified, -⟩ := Machine.calledRules_inTurn
    (m.nextStep step location) (host.dueRules m.log.size) (m.record host step location)
  rw [← Host.dueHandlers_eq] at hnotified
  refine ⟨called.map Prod.fst, Machine.notifyAll (host.hooks.dueHandlers m.log.size) _ _, ?_, ?_,
    rfl⟩
  · change (Machine.calledRules _ _ _).map _ = _
    rw [hcalled, List.map_map, List.map_map]
    refine List.map_congr_left fun y hy => ?_
    have hrule : y ∈ host.hooks.rules.zipIdx := List.mem_of_mem_filter <| hprefix.subset hy
    exact congrArg (·, m.nextStep step location) (List.mem_zipIdx_iff_getElem?.mp hrule)
  · rw [List.map_map]
    exact hnotified

/-- No step rule fails. -/
def Quiet (x : Moment) : Prop :=
  ∀ step location, x.action = .log step location →
    (x.machine.logStep x.host step location).1 = .ok ()

theorem judge_eq_ok {observer : String} {location : Option Location} {r : Except Failure Unit} :
    Machine.judge observer location r = .ok () ↔ r = .ok () := by
  constructor
  · intro h
    cases r with
    | ok => rfl
    | error f => cases f <;> cases h
  · rintro rfl
    rfl

theorem quiet_iff {host : Host} {m : Machine} {step : Step} {location : Option Location} :
    (m.logStep host step location).1 = .ok () ↔
      (Machine.notifyAll ((host.dueRules m.log.size).map (·.1.handler))
        (.step (m.nextStep step location)) (m.record host step location)).1 = .ok () := by
  rw [← Host.dueHandlers_eq]
  exact judge_eq_ok

/-- Handlers that neither assign nor fail are quiet. -/
theorem quiet_of_passive (h : x.host.hooks.All Handler.Passive) : x.Quiet := by
  intro step location _
  rw [quiet_iff, ← Host.dueHandlers_eq]
  exact (Machine.notifyAll_of_passive (h.dueHandlers _) _ _).1

/-- What is told of a step: its index and what its entry says, and how many calls are active. -/
theorem mem_calls (h : c ∈ x.calls) :
    ∃ e, x.logged? = some (c.2.index, e) ∧ c.2.index = x.machine.log.size ∧
      c.2.rule = e.step.rule ∧ c.2.location = e.location ∧ c.2.depth = x.machine.store.depth := by
  obtain ⟨host, m, a⟩ := x
  cases a with
  | log step location =>
    have hmem := Machine.calledRules_isPrefix.subset h
    obtain ⟨rule, -, rfl⟩ := List.mem_map.mp hmem
    exact ⟨_, rfl, rfl, rfl, rfl, rfl⟩
  | _ => cases h

/-- The rules called for one step are called in the order of their registration. -/
theorem calls_pairwise (x : Moment) : x.calls.Pairwise fun c d => c.1 < d.1 := by
  obtain ⟨host, m, a⟩ := x
  cases a with
  | log step location =>
    refine List.Pairwise.sublist Machine.calledRules_isPrefix.sublist ?_
    have hplaces : host.hooks.rules.zipIdx.Pairwise fun a b => a.2 < b.2 := by
      rw [← List.pairwise_map, List.zipIdx_map_snd]
      exact List.pairwise_lt_range'
    rw [List.pairwise_map]
    exact hplaces.filter _
  | _ => exact .nil

/-- A rule is called at a moment that logs a step it is due at, and then once. -/
theorem calls_of_rule (hq : x.Quiet) {k : Nat} {rule : StepRule Handler}
    (hr : x.host.hooks.rules[k]? = some rule) :
    (x.calls.filter (·.1 = k)).map (·.2.index) =
      (x.logged?.map Prod.fst).toList.filter (rule.interval ∣ ·) := by
  obtain ⟨host, m, a⟩ := x
  cases a with
  | log step location =>
    have hall := Machine.calledRules_of_ok (quiet_iff.mp (hq step location rfl))
    change ((Machine.calledRules _ _ _).filter _).map _ = [m.log.size].filter _
    rw [hall, List.filter_map, List.map_map]
    change ((host.dueRules m.log.size).filter fun x => x.2 = k).map (fun _ => m.log.size) = _
    rw [Host.filter_dueRules hr, List.filter_singleton, List.filter_singleton, rule.due_iff]
    cases decide (rule.interval ∣ m.log.size) <;> rfl
  | _ => rfl

end Moment

/-! The rules called in a session. -/

namespace Path

variable {m m' : Machine} {xs : List Moment}

/-- Later steps have higher indices. -/
theorem index_lt {x : Moment} (h : Path x.after xs m') {i : Nat} {e : LogEntry}
    (hx : x.logged? = some (i, e)) {y : Moment} (hy : y ∈ xs) {j : Nat} {e' : LogEntry}
    (hlogged : y.logged? = some (j, e')) : i < j := by
  obtain ⟨⟨before, hbefore⟩, -⟩ := h.split hy
  have hle : x.after.log.size ≤ y.machine.log.size := hbefore.entries_grow.length_le
  have hi := (Moment.size_after hx).2
  have hj := (Moment.size_after hlogged).1
  omega

/-- Rules are called step by step, and for one step in the order of their registration. -/
theorem calls_pairwise (h : Path m xs m') :
    (xs.flatMap Moment.calls).Pairwise fun c d =>
      c.2.index < d.2.index ∨ c.2.index = d.2.index ∧ c.1 < d.1 := by
  rw [List.pairwise_flatMap]
  constructor
  · intro x _
    refine x.calls_pairwise.imp_of_mem fun hc hd hlt => ?_
    obtain ⟨-, -, hc, -⟩ := Moment.mem_calls hc
    obtain ⟨-, -, hd, -⟩ := Moment.mem_calls hd
    exact .inr ⟨hc.trans hd.symm, hlt⟩
  · induction h with
    | nil => exact .nil
    | cons x htail ih =>
      refine List.pairwise_cons.mpr ⟨?_, ih⟩
      intro y hy c hc d hd
      obtain ⟨_, hx, -⟩ := Moment.mem_calls hc
      obtain ⟨_, hlogged, -⟩ := Moment.mem_calls hd
      exact .inl (htail.index_lt hx hy hlogged)

/-- A rule is called for just the steps that are logged and whose index its interval divides. -/
theorem calls_of_rule (h : Path m xs m') (hq : ∀ x ∈ xs, x.Quiet) {k : Nat}
    {rule : StepRule Handler} (hr : ∀ x ∈ xs, x.host.hooks.rules[k]? = some rule) :
    ((xs.flatMap Moment.calls).filter (·.1 = k)).map (·.2.index) =
      (List.range' m.log.size (m'.log.size - m.log.size)).filter (rule.interval ∣ ·) := by
  obtain ⟨hsize, hindices⟩ := h.indices
  rw [hsize, Nat.add_sub_cancel_left, ← hindices]
  clear h hsize hindices
  induction xs with
  | nil => rfl
  | cons x xs ih =>
    obtain ⟨hx, hxs⟩ := List.forall_mem_cons.mp hq
    obtain ⟨hrx, hrxs⟩ := List.forall_mem_cons.mp hr
    have hsplit : ((x :: xs).filterMap Moment.logged?).map Prod.fst =
        (x.logged?.map Prod.fst).toList ++ (xs.filterMap Moment.logged?).map Prod.fst := by
      cases hlogged : x.logged? with
      | none => rw [List.filterMap_cons_none hlogged]; rfl
      | some entry => rw [List.filterMap_cons_some hlogged]; rfl
    rw [hsplit, List.filter_append, ← ih hxs hrxs, ← Moment.calls_of_rule hx hrx,
      List.flatMap_cons, List.filter_append, List.map_append]

/-- An entry is found in every later log under the index at which it was made. -/
theorem getElem?_logged (h : Path m xs m') {x : Moment} (hx : x ∈ xs) {i : Nat} {e : LogEntry}
    (hlogged : x.logged? = some (i, e)) : m'.log.entries[i]? = some e := by
  obtain ⟨-, later, hlater⟩ := h.split hx
  have hafter := x.after_log
  obtain ⟨rfl, -⟩ := Moment.size_after hlogged
  rw [hlogged] at hafter
  have hnew : x.after.log.entries.toList[x.machine.log.size]? = some e := by
    rw [hafter]
    exact List.getElem?_concat_length
  obtain ⟨more, hmore⟩ := hlater.entries_grow
  obtain ⟨hbound, -⟩ := List.getElem?_eq_some_iff.mp hnew
  rw [← Array.getElem?_toList, ← hmore, List.getElem?_append_left hbound]
  exact hnew

end Path

/-! Sessions. -/

theorem Session.host_of_mem {s : Session} {m : Machine} {x : Moment} (h : x ∈ s.timeline m) :
    ∃ t ∈ s, x.host = t.host := by
  induction s generalizing m with
  | nil => cases h
  | cons t s ih =>
    rcases List.mem_append.mp h with hx | hx
    · obtain ⟨p, -, rfl⟩ := List.mem_map.mp hx
      exact ⟨t, List.mem_cons_self, rfl⟩
    · obtain ⟨t', ht', hhost⟩ := ih hx
      exact ⟨t', List.mem_cons_of_mem t ht', hhost⟩

/-- What a log says of itself: each entry starts from the state that the one before it leads to, no
state is met twice, and what is kept for a frame is the last entry that belongs to it. -/
structure StepLog.Coherent (log : StepLog) : Prop where
  chain : ∀ i a b, log.entries[i]? = some a → log.entries[i + 1]? = some b →
    (record (i + 1) b.step).lookup "from_state_id" = (record i a.step).lookup "to_state_id"
  states : ∀ i j a b, log.entries[i]? = some a → log.entries[j]? = some b →
    (record i a.step).lookup "to_state_id" = (record j b.step).lookup "to_state_id" → i = j
  last : ∀ f i e, log.lastOf? f = some (i, e) ↔ log.IsLast f i e
  none : ∀ f, log.lastOf? f = none ↔ ∀ a ∈ log.entries, a.frame ≠ some f
  latest : ∀ label i e, log.latest label = some (i, e) ↔
    ∃ f, label = Frame.label f ∧ log.lastOf? f = some (i, e)

theorem StepLog.coherent (log : StepLog) : log.Coherent where
  chain i a b _ _ := by rw [(lookup_record _ _).1, (lookup_record _ _).2]; rfl
  states i j a b _ _ h := by
    rw [(lookup_record _ _).1, (lookup_record _ _).1] at h
    exact stateLabel_injective (Text.Json.string.inj (Option.some.inj h))
  last _ _ _ := lastOf?_iff
  none _ := lastOf?_eq_none_iff
  latest label i e := by
    constructor
    · intro h
      obtain ⟨f, rfl⟩ := label_of_latest h
      rw [latest_label] at h
      exact ⟨f, rfl, h⟩
    · rintro ⟨f, rfl, h⟩
      rwa [latest_label]

/-- What moments add to the log and to the frames: an entry for each step, under the next index and
there for good, and frames under labels that were never used. -/
structure Machine.Grows (m : Machine) (xs : List Moment) (m' : Machine) : Prop where
  entries : m'.log.entries.toList =
    m.log.entries.toList ++ (xs.filterMap Moment.logged?).map Prod.snd
  indices : (xs.filterMap Moment.logged?).map Prod.fst =
    List.range' m.log.size (xs.filterMap Moment.logged?).length
  logs : (xs.map (·.machine.log.entries.toList) ++ [m'.log.entries.toList]).Pairwise (· <+: ·)
  frames : m'.store.frames.size = m.store.frames.size + (xs.filterMap Moment.made?).length
  labels : ((List.range m.store.frames.size ++ xs.filterMap Moment.made?).map Frame.label).Nodup

theorem Path.grows {m m' : Machine} {xs : List Moment} (h : Path m xs m') : m.Grows xs m' where
  entries := h.entries
  indices := h.indices.2
  logs := h.logs_pairwise
  frames := h.frames.1
  labels := by
    refine List.Nodup.map Frame.label_injective ?_
    have hall : List.range m.store.frames.size ++ xs.filterMap Moment.made? =
        List.range' 0 (m.store.frames.size + (xs.filterMap Moment.made?).length) := by
      rw [← List.range'_append_1, Nat.zero_add, ← h.frames.2, List.range_eq_range']
    rw [hall]
    exact List.nodup_range'

/-- A session of any number of runs on one machine. The log is a chain that only grows; step rules
are called in the order of steps and of registration, and told of the entry that was made; no others
are called when a step is logged; and a rule is called for just the steps whose index its interval
divides, if none fails. -/
theorem session_chronicle (s : Session) (m : Machine) :
    (∀ log : StepLog, log.Coherent) ∧ m.Grows (s.timeline m) (s.run m) ∧
    ((s.timeline m).flatMap Moment.calls).Pairwise (fun c d =>
      c.2.index < d.2.index ∨ c.2.index = d.2.index ∧ c.1 < d.1) ∧
    (∀ x ∈ s.timeline m, ∀ c ∈ x.calls, ∃ e, x.logged? = some (c.2.index, e) ∧
      (s.run m).log.entries[c.2.index]? = some e ∧ c.2.rule = e.step.rule ∧
      c.2.location = e.location ∧ c.2.depth = x.machine.store.depth) ∧
    (∀ x ∈ s.timeline m, x.CallsInTurn) ∧
    ((∀ x ∈ s.timeline m, x.Quiet) → ∀ k rule, (∀ t ∈ s, t.host.hooks.rules[k]? = some rule) →
      (((s.timeline m).flatMap Moment.calls).filter (·.1 = k)).map (·.2.index) =
        (List.range' m.log.size ((s.run m).log.size - m.log.size)).filter (rule.interval ∣ ·)) := by
  have hpath := s.path m
  refine ⟨StepLog.coherent, hpath.grows, hpath.calls_pairwise, ?_, fun x _ => x.callsInTurn, ?_⟩
  · intro x hx c hc
    obtain ⟨e, hlogged, -, hrule, hlocation, hdepth⟩ := Moment.mem_calls hc
    exact ⟨e, hlogged, hpath.getElem?_logged hx hlogged, hrule, hlocation, hdepth⟩
  · intro hq k rule hr
    refine hpath.calls_of_rule hq fun x hx => ?_
    obtain ⟨t, ht, hhost⟩ := Session.host_of_mem hx
    rw [hhost]
    exact hr t ht

/-- Surroundings with a rule for every second step. -/
def Host.ticking : Host where
  hooks := { rules := [⟨"tick", 2, Probe.handler { label := "tick" } 0⟩] }

/-- A program that is run twice. -/
def Session.encore : Session :=
  List.replicate 2 ⟨.ticking, Program.herald.execute 1⟩

/-- The second run fails, for its class is there already; the rule goes on from the step at which
the first run ended. -/
theorem session_chronicle_encore :
    (∀ x ∈ Session.encore.timeline {}, x.Quiet) ∧
      (((Session.encore.timeline {}).flatMap Moment.calls).filter (·.1 = 0)).map (·.2.index) =
        [2, 4, 6] := by
  have hpassive : Host.ticking.hooks.All Handler.Passive := by
    refine ⟨List.forall_mem_nil _, ?_⟩
    intro rule hrule
    rw [List.mem_singleton.mp hrule]
    intro count occasion m
    exact ⟨rfl, rfl⟩
  have hhost : ∀ t ∈ Session.encore, t.host = .ticking := by
    intro t ht
    rw [List.eq_of_mem_replicate ht]
  have hquiet : ∀ x ∈ Session.encore.timeline {}, x.Quiet := by
    intro x hx
    obtain ⟨t, ht, hx⟩ := Session.host_of_mem hx
    apply Moment.quiet_of_passive
    rw [hx, hhost t ht]
    exact hpassive
  have hrules : ∀ t ∈ Session.encore, t.host.hooks.rules[0]? = Host.ticking.hooks.rules[0]? := by
    intro t ht
    rw [hhost t ht]
  have hsize : (Session.encore.run {}).log.size = 7 := rfl
  obtain ⟨-, -, -, -, -, hcalls⟩ := session_chronicle .encore {}
  refine ⟨hquiet, (hcalls hquiet 0 _ hrules).trans ?_⟩
  rw [hsize]
  rfl

end ObjectPascal
