import ObjectPascal.Proofs.Activations

/-!
Handlers as a whole: what all handlers of a registry have in common, and what a store keeps while
they act on it.
-/

namespace ObjectPascal

namespace Registry

variable {α : Type} {P : α → Prop} {r r' : Registry α}

/-- Every handler is so, whatever it waits for. -/
structure All (P : α → Prop) (r : Registry α) : Prop where
  subscriptions : ∀ e ∈ r.subscriptions, ∀ sub ∈ e.2, P sub.handler
  rules : ∀ rule ∈ r.rules, P rule.handler

theorem All.empty : All P {} :=
  ⟨List.forall_mem_nil _, List.forall_mem_nil _⟩

theorem All.single {event : EventName} {sub : Subscription α} (h : P sub.handler) :
    All P { subscriptions := [(event, [sub])] } := by
  refine ⟨?_, List.forall_mem_nil _⟩
  intro e he s hs
  rw [List.mem_singleton.mp he] at hs
  rw [List.mem_singleton.mp hs]
  exact h

theorem All.mono {Q : α → Prop} (h : r.All P) (hq : ∀ a, P a → Q a) : r.All Q :=
  ⟨fun e he sub hsub => hq _ (h.subscriptions e he sub hsub),
    fun rule hrule => hq _ (h.rules rule hrule)⟩

theorem All.handlers (h : r.All P) (event : EventName) : ∀ a ∈ r.handlers event, P a := by
  intro a ha
  unfold Registry.handlers at ha
  split at ha
  · cases ha
  · next e subs hfound =>
    have he := List.mem_of_find?_eq_some hfound
    obtain ⟨sub, hsub, rfl⟩ := List.mem_map.mp ha
    exact h.subscriptions _ he sub hsub

theorem All.dueHandlers (h : r.All P) (index : Nat) : ∀ a ∈ r.dueHandlers index, P a := by
  intro a ha
  obtain ⟨rule, hrule, rfl⟩ := List.mem_map.mp ha
  have hmem := (List.mem_filter.mp hrule).1
  exact h.rules rule hmem

theorem forall_mem_place {sub : Subscription α} {subs : List (Subscription α)}
    (hs : ∀ s ∈ subs, P s.handler) (hp : P sub.handler) : ∀ s ∈ place sub subs, P s.handler := by
  induction subs with
  | nil =>
    intro s h
    rw [List.mem_singleton.mp h]
    exact hp
  | cons first rest ih =>
    obtain ⟨hfirst, hrest⟩ := List.forall_mem_cons.mp hs
    unfold place
    split
    · exact List.forall_mem_cons.mpr ⟨hfirst, ih hrest⟩
    · exact List.forall_mem_cons.mpr ⟨hp, hs⟩

theorem forall_mem_placeFor {event : EventName} {sub : Subscription α}
    {entries : List (EventName × List (Subscription α))}
    (he : ∀ e ∈ entries, ∀ s ∈ e.2, P s.handler) (hp : P sub.handler) :
    ∀ e ∈ placeFor event sub entries, ∀ s ∈ e.2, P s.handler := by
  induction entries with
  | nil =>
    intro e h
    rw [List.mem_singleton.mp h]
    exact List.forall_mem_singleton.mpr hp
  | cons first rest ih =>
    obtain ⟨hfirst, hrest⟩ := List.forall_mem_cons.mp he
    unfold placeFor
    split
    · exact List.forall_mem_cons.mpr ⟨forall_mem_place hfirst hp, hrest⟩
    · exact List.forall_mem_cons.mpr ⟨hfirst, ih hrest⟩

theorem All.subscribe (h : r.All P) {event : String} {sub : Subscription α} (hp : P sub.handler)
    (hr : r.subscribe event sub = .ok r') : r'.All P := by
  unfold Registry.subscribe at hr
  split at hr
  · cases hr
  · cases hr
    exact ⟨forall_mem_placeFor h.subscriptions hp, h.rules⟩

end Registry

namespace Machine

/-- Handlers are called in turn, each on the machine that the one before it has left. None but the
last fails. -/
inductive Notified (occasion : Occasion) :
    List Handler → Machine → Except Failure Unit × Machine → Prop
  | done (m : Machine) : Notified occasion [] m (.ok (), m)
  | failed {h : Handler} {m m' : Machine} {f : Failure}
      (hf : notify h occasion m = (.error f, m')) : Notified occasion [h] m (.error f, m')
  | next {h : Handler} {hs : List Handler} {m m' : Machine} {out : Except Failure Unit × Machine}
      (hh : notify h occasion m = (.ok (), m')) (hhs : Notified occasion hs m' out) :
      Notified occasion (h :: hs) m out

/-- Handlers are called in turn, up to and including the first that fails, and all of them if none
does. -/
def NotifiedInTurn (occasion : Occasion) (hs : List Handler) (m : Machine)
    (out : Except Failure Unit × Machine) : Prop :=
  ∃ called, called <+: hs ∧ Notified occasion called m out ∧ (out.1 = .ok () → called = hs)

theorem notifyAll_inTurn (occasion : Occasion) (hs : List Handler) (m : Machine) :
    NotifiedInTurn occasion hs m (notifyAll hs occasion m) := by
  induction hs generalizing m with
  | nil => exact ⟨[], List.prefix_rfl, .done m, fun _ => rfl⟩
  | cons h hs ih =>
    unfold notifyAll
    rcases hn : notify h occasion m with ⟨r, m'⟩
    cases r with
    | error f =>
      refine ⟨[h], ?_, .failed hn, ?_⟩
      · rw [List.cons_prefix_cons]
        exact ⟨rfl, List.nil_prefix⟩
      · intro hok
        cases hok
    | ok =>
      obtain ⟨called, hprefix, hcalled, hall⟩ := ih m'
      refine ⟨h :: called, ?_, .next hn hcalled, fun hok => congrArg (h :: ·) (hall hok)⟩
      rw [List.cons_prefix_cons]
      exact ⟨rfl, hprefix⟩

end Machine

/-- Assigning a value with `V` keeps what a store has by `P`. -/
def Store.AssignKeeps (P : Store → Prop) (V : Value → Prop) : Prop :=
  ∀ {s s' : Store} {name : String} {v : Value}, P s → V v → s.assign name v = .ok s' → P s'

/-- As long as stores have `P`, the handler assigns values with `V` only. -/
def Handler.Assigns (P : Store → Prop) (V : Value → Prop) (h : Handler) : Prop :=
  ∀ count occasion (m : Machine), P m.store →
    ∀ a ∈ (h.react count occasion m).assignments, V a.2

/-- The faults of the language that the handler raises itself have `Q`. -/
def Handler.Raises (Q : RuntimeError → Prop) (h : Handler) : Prop :=
  ∀ count occasion (m : Machine) (e : RuntimeError),
    (h.react count occasion m).failure = some (.fault e) → Q e

namespace Machine

variable {P : Store → Prop} {V : Value → Prop} {Q : RuntimeError → Prop}

theorem assignAll_keeps (hP : Store.AssignKeeps P V) {as : List (String × Value)} {s : Store}
    (hs : P s) (ha : ∀ a ∈ as, V a.2) :
    P (assignAll as s).2 ∧ ∀ s' ∈ assignedStores as s, P s' := by
  induction as generalizing s with
  | nil => exact ⟨hs, List.forall_mem_nil _⟩
  | cons a as ih =>
    obtain ⟨name, v⟩ := a
    obtain ⟨hv, has⟩ := List.forall_mem_cons.mp ha
    unfold assignAll assignedStores
    cases h : s.assign name v with
    | error c => exact ⟨hs, List.forall_mem_nil _⟩
    | ok s' =>
      have hs' := hP hs hv h
      obtain ⟨hend, hstores⟩ := ih hs' has
      exact ⟨hend, List.forall_mem_cons.mpr ⟨hs', hstores⟩⟩

/-- By induction on the handlers that are called: each acts on a store that those before it have
left with `P`. -/
theorem notifyAll_keeps (hP : Store.AssignKeeps P V) {hs : List Handler} {occasion : Occasion}
    {m : Machine} (hm : P m.store) (hh : ∀ h ∈ hs, h.Assigns P V) :
    P (notifyAll hs occasion m).2.store ∧ ∀ s ∈ notifiedStores hs occasion m, P s := by
  induction hs generalizing m with
  | nil => exact ⟨hm, List.forall_mem_nil _⟩
  | cons h hs ih =>
    obtain ⟨hfirst, hrest⟩ := List.forall_mem_cons.mp hh
    have hvalues : ∀ a ∈ (reaction h occasion m).assignments, V a.2 := by
      apply hfirst
      exact hm
    obtain ⟨hend, hstores⟩ := assignAll_keeps hP hm hvalues
    rw [← notify_store] at hend
    unfold notifyAll notifiedStores
    rcases hn : notify h occasion m with ⟨r, m'⟩
    rw [hn] at hend
    cases r with
    | error f =>
      refine ⟨hend, ?_⟩
      intro s hs
      rw [List.append_nil] at hs
      exact hstores s hs
    | ok =>
      obtain ⟨hlast, hmore⟩ := ih hend hrest
      exact ⟨hlast, List.forall_mem_append.mpr ⟨hstores, hmore⟩⟩

/-- What handlers do while an action is carried out keeps `P`. -/
theorem passing_keeps (hP : Store.AssignKeeps P V) {host : Host}
    (hh : host.hooks.All (Handler.Assigns P V)) {m : Machine} (hm : P m.store) (a : Action) :
    ∀ s ∈ m.passing host a, P s := by
  cases a with
  | log step location =>
    have hrecorded : P (m.record host step location).store := hm
    exact (notifyAll_keeps hP hrecorded (hh.dueHandlers _)).2
  | emit event => exact (notifyAll_keeps hP hm (hh.handlers _)).2
  | _ => exact List.forall_mem_nil _

theorem notify_input (h : Handler) (occasion : Occasion) (m : Machine) :
    (notify h occasion m).2.input = m.input := by
  rw [notify_eq]
  dsimp only
  split <;> rfl

/-- Handlers neither read nor are read to. -/
theorem notifyAll_input (hs : List Handler) (occasion : Occasion) (m : Machine) :
    (notifyAll hs occasion m).2.input = m.input := by
  induction hs generalizing m with
  | nil => rfl
  | cons h hs ih =>
    have hfirst := notify_input h occasion m
    unfold notifyAll
    rcases hn : notify h occasion m with ⟨r, m'⟩
    rw [hn] at hfirst
    cases r with
    | error f => exact hfirst
    | ok => exact (ih m').trans hfirst

theorem notify_raises (hQ : ∀ as s c, (assignAll as s).1 = .error c → Q { cause := c })
    {h : Handler} (hh : h.Raises Q) {occasion : Occasion} {m : Machine} {e : RuntimeError}
    (he : (notify h occasion m).1 = .error (.fault e)) : Q e := by
  rw [notify_eq] at he
  dsimp only at he
  split at he
  · next hr =>
    cases he
    exact hQ _ _ _ (congrArg Prod.fst hr)
  · cases hf : (reaction h occasion m).failure with
    | none =>
      rw [hf] at he
      cases he
    | some f =>
      rw [hf] at he
      cases he
      exact hh _ _ _ e hf

/-- What handlers fail with is raised by one of them or comes of an assignment. -/
theorem notifyAll_raises (hQ : ∀ as s c, (assignAll as s).1 = .error c → Q { cause := c })
    {hs : List Handler} (hh : ∀ h ∈ hs, h.Raises Q) {occasion : Occasion} {m : Machine}
    {e : RuntimeError} (he : (notifyAll hs occasion m).1 = .error (.fault e)) : Q e := by
  induction hs generalizing m with
  | nil => cases he
  | cons h hs ih =>
    obtain ⟨hfirst, hrest⟩ := List.forall_mem_cons.mp hh
    unfold notifyAll at he
    rcases hn : notify h occasion m with ⟨r, m'⟩
    rw [hn] at he
    cases r with
    | error f =>
      cases he
      exact notify_raises hQ hfirst (congrArg Prod.fst hn)
    | ok => exact ih hrest he

theorem logStep_keeps (hP : Store.AssignKeeps P V) {host : Host}
    (hh : host.hooks.All (Handler.Assigns P V)) {m : Machine} (hm : P m.store) (step : Step)
    (location : Option Location) : P (m.logStep host step location).2.store := by
  have hrecorded : P (m.record host step location).store := hm
  exact (notifyAll_keeps hP hrecorded (hh.dueHandlers _)).1

theorem emit_keeps (hP : Store.AssignKeeps P V) {host : Host}
    (hh : host.hooks.All (Handler.Assigns P V)) {m : Machine} (hm : P m.store) (event : Event) :
    P (m.emit host event).2.store :=
  (notifyAll_keeps hP hm (hh.handlers _)).1

end Machine

end ObjectPascal
