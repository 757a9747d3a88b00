import Mathlib.Data.List.Nodup
import ObjectPascal.Hook.Registration
import ObjectPascal.Proofs.StepRules

/-!
Precedence among handlers: those of an event are called from the highest priority to the lowest and,
within one priority, in the order of their registration; step rules are called in the order of
theirs. A handler that fails is the last to be called, and a registration that fails leaves no
trace.
-/

namespace ObjectPascal

variable {α : Type}

/-! The order of subscriptions. -/

/-- From the highest priority to the lowest. -/
def Descending (subs : List (Subscription α)) : Prop :=
  subs.Pairwise fun s t => t.priority ≤ s.priority

/-- The subscriptions of a priority. -/
def ofPriority (p : Int) (subs : List (Subscription α)) : List (Subscription α) :=
  subs.filter fun s => s.priority = p

theorem ofPriority_cons_self {s : Subscription α} {subs : List (Subscription α)} {p : Int}
    (h : s.priority = p) : ofPriority p (s :: subs) = s :: ofPriority p subs :=
  List.filter_cons_of_pos (decide_eq_true h)

theorem ofPriority_cons_of_ne {s : Subscription α} {subs : List (Subscription α)} {p : Int}
    (h : s.priority ≠ p) : ofPriority p (s :: subs) = ofPriority p subs :=
  List.filter_cons_of_neg (by rwa [decide_eq_true_eq])

theorem ofPriority_append (p : Int) (subs subs' : List (Subscription α)) :
    ofPriority p (subs ++ subs') = ofPriority p subs ++ ofPriority p subs' :=
  List.filter_append subs subs'

theorem mem_of_ofPriority {subs subs' : List (Subscription α)} {s : Subscription α}
    (h : ofPriority s.priority subs = ofPriority s.priority subs') (hs : s ∈ subs) : s ∈ subs' := by
  have hmem : s ∈ ofPriority s.priority subs := List.mem_filter.mpr ⟨hs, decide_eq_true rfl⟩
  rw [h] at hmem
  exact (List.mem_filter.mp hmem).1

theorem Descending.le_head {s t : Subscription α} {subs : List (Subscription α)}
    (h : Descending (t :: subs)) (hs : s ∈ t :: subs) : s.priority ≤ t.priority := by
  rcases List.mem_cons.mp hs with rfl | hs
  · exact Int.le_refl _
  · exact (List.pairwise_cons.mp h).1 s hs

/-- A descending list is known by what it has of each priority. By induction on the list: neither
head is of a higher priority than the other, so each is the first of that priority. -/
theorem Descending.eq_of_ofPriority {subs subs' : List (Subscription α)} (h : Descending subs)
    (h' : Descending subs') (hp : ∀ p, ofPriority p subs = ofPriority p subs') : subs = subs' := by
  induction subs generalizing subs' with
  | nil =>
    cases subs' with
    | nil => rfl
    | cons t subs' => exact nomatch mem_of_ofPriority (hp t.priority).symm List.mem_cons_self
  | cons s subs ih =>
    cases subs' with
    | nil => exact nomatch mem_of_ofPriority (hp s.priority) List.mem_cons_self
    | cons t subs' =>
      have hle := h'.le_head (mem_of_ofPriority (hp s.priority) List.mem_cons_self)
      have hge := h.le_head (mem_of_ofPriority (hp t.priority).symm List.mem_cons_self)
      have hhead := hp t.priority
      rw [ofPriority_cons_self (Int.le_antisymm hle hge), ofPriority_cons_self rfl] at hhead
      obtain ⟨rfl, -⟩ := List.cons.inj hhead
      refine congrArg (s :: ·) (ih h.of_cons h'.of_cons fun p => ?_)
      have htail := hp p
      by_cases hs : s.priority = p
      · rw [ofPriority_cons_self hs, ofPriority_cons_self hs] at htail
        exact (List.cons.inj htail).2
      · rwa [ofPriority_cons_of_ne hs, ofPriority_cons_of_ne hs] at htail

/-- Subscriptions in the order of their calls: those of a history, each as often as it is there,
from the highest priority to the lowest, and within a priority in the order of the history. -/
structure Ordered (history subs : List (Subscription α)) : Prop where
  perm : subs.Perm history
  descending : Descending subs
  stable : ∀ p, ofPriority p subs = ofPriority p history

namespace Subscription

/-- Whether one subscription may stand before another. -/
def ahead (s t : Subscription α) : Bool :=
  t.priority ≤ s.priority

theorem ahead_iff {s t : Subscription α} : s.ahead t = true ↔ t.priority ≤ s.priority :=
  decide_eq_true_iff

theorem ahead_trans (s t u : Subscription α) (hst : s.ahead t) (htu : t.ahead u) : s.ahead u := by
  rw [ahead_iff] at hst htu ⊢
  exact Int.le_trans htu hst

theorem ahead_total (s t : Subscription α) : s.ahead t || t.ahead s := by
  rw [Bool.or_eq_true, ahead_iff, ahead_iff]
  exact Int.le_total _ _

end Subscription

/-- A stable sort of the whole history is in order. -/
theorem Ordered.mergeSort (history : List (Subscription α)) :
    Ordered history (history.mergeSort Subscription.ahead) := by
  have hperm := List.mergeSort_perm history Subscription.ahead
  refine ⟨hperm, ?_, ?_⟩
  · have hsorted := List.pairwise_mergeSort Subscription.ahead_trans Subscription.ahead_total history
    exact hsorted.imp Subscription.ahead_iff.mp
  · intro p
    have hequal : (ofPriority p history).Pairwise fun s t => s.ahead t := by
      refine List.pairwise_of_forall_mem_list fun s hs t ht => ?_
      have hs := of_decide_eq_true (List.mem_filter.mp hs).2
      have ht := of_decide_eq_true (List.mem_filter.mp ht).2
      exact Subscription.ahead_iff.mpr (Int.le_of_eq (ht.trans hs.symm))
    -- Those of one priority are not moved past each other, and the sort has no others of it.
    have hsub := List.sublist_mergeSort Subscription.ahead_trans Subscription.ahead_total hequal
      List.filter_sublist
    have hkept := hsub.filter fun s => s.priority = p
    rw [ofPriority, List.filter_filter] at hkept
    simp only [Bool.and_self] at hkept
    exact (hkept.eq_of_length (hperm.filter _).length_eq.symm).symm

/-- There is only one order. -/
theorem Ordered.eq_mergeSort {history subs : List (Subscription α)} (h : Ordered history subs) :
    subs = history.mergeSort Subscription.ahead := by
  have hsort := Ordered.mergeSort history
  exact h.descending.eq_of_ofPriority hsort.descending fun p =>
    (h.stable p).trans (hsort.stable p).symm

namespace Registry

theorem place_perm (sub : Subscription α) (subs : List (Subscription α)) :
    (place sub subs).Perm (subs ++ [sub]) := by
  induction subs with
  | nil => exact .refl _
  | cons s subs ih =>
    unfold place
    split
    · exact ih.cons s
    · exact (List.perm_append_singleton sub (s :: subs)).symm

theorem descending_place {subs : List (Subscription α)} (h : Descending subs)
    (sub : Subscription α) : Descending (place sub subs) := by
  induction subs with
  | nil => exact List.pairwise_singleton _ _
  | cons s subs ih =>
    have hhead := (List.pairwise_cons.mp h).1
    unfold place
    split
    · next hle =>
      refine List.pairwise_cons.mpr ⟨?_, ih h.of_cons⟩
      intro t ht
      rcases List.mem_append.mp ((place_perm sub subs).subset ht) with ht | ht
      · exact hhead t ht
      · rwa [List.mem_singleton.mp ht]
    · next hlt =>
      refine List.pairwise_cons.mpr ⟨?_, h⟩
      intro t ht
      have hle := h.le_head ht
      omega

theorem ofPriority_place {subs : List (Subscription α)} (h : Descending subs)
    (sub : Subscription α) (p : Int) :
    ofPriority p (place sub subs) = ofPriority p (subs ++ [sub]) := by
  induction subs with
  | nil => rfl
  | cons s subs ih =>
    unfold place
    split
    · by_cases hs : s.priority = p
      · rw [List.cons_append, ofPriority_cons_self hs, ofPriority_cons_self hs, ih h.of_cons]
      · rw [List.cons_append, ofPriority_cons_of_ne hs, ofPriority_cons_of_ne hs, ih h.of_cons]
    · next hlt =>
      rw [ofPriority_append]
      by_cases hsub : sub.priority = p
      · -- All others have a lower priority.
        have hnone : ofPriority p (s :: subs) = [] := by
          refine List.filter_eq_nil_iff.mpr fun t ht => ?_
          have hle := h.le_head ht
          rw [decide_eq_true_eq]
          omega
        rw [ofPriority_cons_self hsub, hnone, List.nil_append, ofPriority_cons_self hsub]
        rfl
      · rw [ofPriority_cons_of_ne hsub, ofPriority_cons_of_ne hsub]
        exact (List.append_nil _).symm

end Registry

/-- A subscription that is placed takes its part in the history as the latest. -/
theorem Ordered.place {history subs : List (Subscription α)} (h : Ordered history subs)
    (sub : Subscription α) : Ordered (history ++ [sub]) (Registry.place sub subs) where
  perm := (Registry.place_perm sub subs).trans (h.perm.append_right [sub])
  descending := Registry.descending_place h.descending sub
  stable p := by
    rw [Registry.ofPriority_place h.descending, ofPriority_append, ofPriority_append, h.stable]

/-- To place a subscription is to append it and to sort all of them anew. -/
theorem Registry.place_eq_mergeSort {subs : List (Subscription α)} (h : Descending subs)
    (sub : Subscription α) : place sub subs = (subs ++ [sub]).mergeSort Subscription.ahead := by
  have hself : Ordered subs subs := ⟨.refl subs, h, fun _ => rfl⟩
  exact (hself.place sub).eq_mergeSort

/-! What registrations ask for. -/

namespace EventName

theorem ofText?_text (e : EventName) : ofText? e.text = some e := by
  cases e <;> rfl

theorem ofText?_eq_some {s : String} {e : EventName} : ofText? s = some e ↔ s = e.text := by
  constructor
  · intro h
    have htext := List.find?_some h
    exact (of_decide_eq_true htext).symm
  · rintro rfl
    exact ofText?_text e

theorem ofText?_eq_none {s : String} : ofText? s = none ↔ s ∉ all.map text := by
  simp only [ofText?, List.find?_eq_none, decide_eq_true_eq, List.mem_map, not_exists, not_and]

theorem text_mem (e : EventName) : e.text ∈ all.map text := by
  cases e <;> simp [all]

theorem text_inj {e e' : EventName} : e.text = e'.text ↔ e = e' := by
  rw [← ofText?_eq_some, ofText?_text, Option.some.injEq]

end EventName

namespace Purpose

/-- Why a purpose is refused: there is no such event, or the interval is below 1. -/
def fault? : Purpose → Option HookError
  | event name _ _ =>
    if name ∈ EventName.all.map EventName.text then none else some (.unknownEvent name)
  | steps name interval => if 1 ≤ interval then none else some (.shortInterval name interval)

/-- What a handler that is registered for a purpose is subscribed with to an event. -/
def subscription? (handler : α) (e : EventName) : Purpose → Option (Subscription α)
  | event name priority owner => if name = e.text then some { handler, priority, owner } else none
  | steps .. => none

/-- The step rule of a handler that is registered for a purpose. -/
def rule? (handler : α) : Purpose → Option (StepRule α)
  | event .. => none
  | steps name interval =>
    if 1 ≤ interval then some { name, interval := interval.toNat, handler } else none

end Purpose

namespace Registration

/-- The handler that a registration brings and what it is for. To ask for a decorator brings
none. -/
def request? (title : α → String) : Registration α → Option (Purpose × α)
  | direct purpose handler => some (purpose, handler)
  | service _ none => none
  | service purpose (some handler) | decorate purpose handler =>
    some (purpose.titled (title handler), handler)

variable (title : α → String) (c : Registration α)

def fault? : Option HookError :=
  (c.request? title).bind fun x => x.1.fault?

def subscription? (e : EventName) : Option (Subscription α) :=
  (c.request? title).bind fun x => x.1.subscription? x.2 e

def rule? : Option (StepRule α) :=
  (c.request? title).bind fun x => x.1.rule? x.2

end Registration

/-! What registrations leave. -/

/-- The subscriptions to an event among entries. -/
def subscribedIn (e : EventName) :
    List (EventName × List (Subscription α)) → List (Subscription α)
  | [] => []
  | (e', subs) :: entries => if e' = e then subs else subscribedIn e entries

namespace Registry

/-- The subscriptions to an event. -/
def subscribed (r : Registry α) (e : EventName) : List (Subscription α) :=
  subscribedIn e r.subscriptions

theorem handlers_eq (r : Registry α) (e : EventName) :
    r.handlers e = (r.subscribed e).map Subscription.handler := by
  unfold handlers subscribed
  induction r.subscriptions with
  | nil => rfl
  | cons entry entries ih =>
    obtain ⟨e', subs⟩ := entry
    rw [List.find?_cons, subscribedIn]
    by_cases h : e' = e
    · simp only [h, decide_true, if_true]
    · simpa only [h, decide_false, if_false] using ih

theorem subscribedIn_placeFor (e e' : EventName) (sub : Subscription α)
    (entries : List (EventName × List (Subscription α))) :
    subscribedIn e' (placeFor e sub entries) =
      if e = e' then place sub (subscribedIn e' entries) else subscribedIn e' entries := by
  induction entries with
  | nil => rfl
  | cons entry entries ih =>
    unfold placeFor
    split
    · next h =>
      obtain rfl := h
      rw [subscribedIn, subscribedIn]
      split <;> rfl
    · next h =>
      rw [subscribedIn, subscribedIn, ih]
      by_cases he : e = e'
      · obtain rfl := he
        rw [if_neg h, if_neg h]
      · rw [if_neg he, if_neg he]

theorem mem_keys_placeFor {e e' : EventName} {sub : Subscription α}
    {entries : List (EventName × List (Subscription α))}
    (h : e' ∈ (placeFor e sub entries).map Prod.fst) : e' = e ∨ e' ∈ entries.map Prod.fst := by
  induction entries with
  | nil => exact .inl (List.mem_singleton.mp h)
  | cons entry entries ih =>
    unfold placeFor at h
    split at h
    · exact .inr h
    · rcases List.mem_cons.mp h with rfl | h
      · exact .inr List.mem_cons_self
      · exact (ih h).imp_right (List.mem_cons_of_mem _)

/-- Each event has one entry at most, and one that shows a subscription. -/
structure Tidy (r : Registry α) : Prop where
  nodup : (r.subscriptions.map Prod.fst).Nodup
  nonempty : ∀ x ∈ r.subscriptions, x.2 ≠ []

theorem place_ne_nil (sub : Subscription α) (subs : List (Subscription α)) :
    place sub subs ≠ [] := by
  intro h
  have hperm := place_perm sub subs
  rw [h] at hperm
  exact List.append_ne_nil_of_right_ne_nil subs (List.cons_ne_nil sub []) hperm.nil_eq.symm

theorem nodup_placeFor {e : EventName} {sub : Subscription α}
    {entries : List (EventName × List (Subscription α))} (h : (entries.map Prod.fst).Nodup) :
    ((placeFor e sub entries).map Prod.fst).Nodup := by
  induction entries with
  | nil => exact List.nodup_singleton e
  | cons entry entries ih =>
    obtain ⟨hentry, hentries⟩ := List.nodup_cons.mp h
    unfold placeFor
    split
    · exact h
    · next hne =>
      refine List.nodup_cons.mpr ⟨fun hmem => ?_, ih hentries⟩
      rcases mem_keys_placeFor hmem with he | hmem
      · exact hne he
      · exact hentry hmem

theorem ne_nil_of_mem_placeFor {e : EventName} {sub : Subscription α}
    {entries : List (EventName × List (Subscription α))} (h : ∀ x ∈ entries, x.2 ≠ []) :
    ∀ x ∈ placeFor e sub entries, x.2 ≠ [] := by
  induction entries with
  | nil => exact List.forall_mem_singleton.mpr (List.cons_ne_nil sub [])
  | cons entry entries ih =>
    obtain ⟨hentry, hentries⟩ := List.forall_mem_cons.mp h
    unfold placeFor
    split
    · exact List.forall_mem_cons.mpr ⟨place_ne_nil sub _, hentries⟩
    · exact List.forall_mem_cons.mpr ⟨hentry, ih hentries⟩

/-- All that can come of the registration of a handler. -/
inductive Registers (r : Registry α) (handler : α) :
    Purpose → Except HookError (Answer α) × Registry α → Prop
  | subscribed (e : EventName) (priority : Int) (owner : String) :
      Registers r handler (.event e.text priority owner)
        (.ok (.subscription { handler, priority, owner }),
          { r with subscriptions := placeFor e { handler, priority, owner } r.subscriptions })
  | unknown {name : String} (h : name ∉ EventName.all.map EventName.text) (priority : Int)
      (owner : String) :
      Registers r handler (.event name priority owner) (.error (.unknownEvent name), r)
  | added {interval : Int} (h : 1 ≤ interval) (name : String) :
      Registers r handler (.steps name interval)
        (.ok (.rule ⟨name, interval.toNat, handler⟩),
          { r with rules := r.rules ++ [⟨name, interval.toNat, handler⟩] })
  | short {interval : Int} (h : ¬ 1 ≤ interval) (name : String) :
      Registers r handler (.steps name interval) (.error (.shortInterval name interval), r)

theorem registers (r : Registry α) (handler : α) (p : Purpose) :
    r.Registers handler p (r.register handler p) := by
  cases p with
  | event name priority owner =>
    cases h : EventName.ofText? name with
    | none =>
      simp only [register, subscribe, h]
      exact .unknown (EventName.ofText?_eq_none.mp h) priority owner
    | some e =>
      simp only [register, subscribe, h]
      obtain rfl := EventName.ofText?_eq_some.mp h
      exact .subscribed e priority owner
  | steps name interval =>
    unfold register addRule
    by_cases h : interval < 1
    · simp only [if_pos h]
      exact .short (Int.not_le.mpr h) name
    · simp only [if_neg h]
      exact .added (Int.not_lt.mp h) name

section

variable {r : Registry α} {handler : α} {p : Purpose}
  {out : Except HookError (Answer α) × Registry α}

/-- A handler that is refused leaves the registry as it was, and any other is registered. -/
theorem Registers.fault (h : r.Registers handler p out) :
    match p.fault? with
    | some e => out = (.error e, r)
    | none => ∃ a, out.1 = .ok a := by
  cases h with
  | subscribed e priority owner =>
    have hfault : (Purpose.event e.text priority owner).fault? = none := if_pos e.text_mem
    rw [hfault]
    exact ⟨_, rfl⟩
  | @unknown name hname priority owner =>
    have hfault : (Purpose.event name priority owner).fault? = some (.unknownEvent name) :=
      if_neg hname
    rw [hfault]
  | @added interval hinterval name =>
    have hfault : (Purpose.steps name interval).fault? = none := if_pos hinterval
    rw [hfault]
    exact ⟨_, rfl⟩
  | @short interval hinterval name =>
    have hfault : (Purpose.steps name interval).fault? = some (.shortInterval name interval) :=
      if_neg hinterval
    rw [hfault]

theorem Registers.subscribed_eq (h : r.Registers handler p out) (e : EventName) :
    out.2.subscribed e =
      (p.subscription? handler e).elim (r.subscribed e) (place · (r.subscribed e)) := by
  cases h with
  | subscribed e' priority owner =>
    refine (subscribedIn_placeFor e' e _ r.subscriptions).trans ?_
    by_cases he : e' = e
    · rw [if_pos he, Purpose.subscription?, if_pos (EventName.text_inj.mpr he)]
      rfl
    · rw [if_neg he, Purpose.subscription?, if_neg fun h => he (EventName.text_inj.mp h)]
      rfl
  | @unknown name hname priority owner =>
    have hne : name ≠ e.text := by
      rintro rfl
      exact hname e.text_mem
    rw [Purpose.subscription?, if_neg hne]
    rfl
  | added => rfl
  | short => rfl

theorem Registers.rules_eq (h : r.Registers handler p out) :
    out.2.rules = r.rules ++ (p.rule? handler).toList := by
  cases h with
  | subscribed => exact (List.append_nil _).symm
  | unknown => exact (List.append_nil _).symm
  | added hinterval =>
    rw [Purpose.rule?, if_pos hinterval]
    rfl
  | short hinterval =>
    rw [Purpose.rule?, if_neg hinterval]
    exact (List.append_nil _).symm

theorem Registers.tidy (h : r.Registers handler p out) (hr : r.Tidy) : out.2.Tidy := by
  cases h with
  | subscribed => exact ⟨nodup_placeFor hr.nodup, ne_nil_of_mem_placeFor hr.nonempty⟩
  | unknown => exact hr
  | added => exact ⟨hr.nodup, hr.nonempty⟩
  | short => exact hr

end

/-! Registrations one after another. -/

section

variable {title : α → String} {r : Registry α} {c : Registration α}

/-- A registration that brings a handler has it registered, and fails when that does. -/
theorem answer_of_request {p : Purpose} {handler : α} (h : c.request? title = some (p, handler)) :
    ∃ f, r.answer title c = ((r.register handler p).1.map f, (r.register handler p).2) := by
  cases c with
  | direct p' handler' =>
    cases h
    refine ⟨id, ?_⟩
    rw [Except.map_id]
    rfl
  | service p' handler' =>
    cases handler' with
    | none => cases h
    | some handler' =>
      cases h
      exact ⟨_, rfl⟩
  | decorate p' handler' =>
    cases h
    exact ⟨_, rfl⟩

/-- To ask for a decorator registers nothing. -/
theorem answer_of_no_request (h : c.request? title = none) :
    ∃ a, r.answer title c = (.ok a, r) := by
  cases c with
  | direct => cases h
  | service p handler =>
    cases handler with
    | none => exact ⟨_, rfl⟩
    | some => cases h
  | decorate => cases h

theorem answer_fault (title : α → String) (r : Registry α) (c : Registration α) :
    match c.fault? title with
    | some e => r.answer title c = (.error e, r)
    | none => ∃ a, (r.answer title c).1 = .ok a := by
  unfold Registration.fault?
  cases hrequest : c.request? title with
  | none =>
    obtain ⟨a, ha⟩ := answer_of_no_request (r := r) hrequest
    exact ⟨a, by rw [ha]⟩
  | some x =>
    obtain ⟨f, hf⟩ := answer_of_request (r := r) hrequest
    have hfault := (r.registers x.2 x.1).fault
    rw [Option.bind_some, hf]
    cases hx : x.1.fault? with
    | some e =>
      rw [hx] at hfault
      rw [hfault]
      rfl
    | none =>
      rw [hx] at hfault
      obtain ⟨a, ha⟩ := hfault
      exact ⟨f a, by rw [ha]; rfl⟩

/-- What a registration leaves of each event and of the rules. -/
theorem answer_leaves (title : α → String) (r : Registry α) (c : Registration α) :
    (∀ e, (r.answer title c).2.subscribed e =
      (c.subscription? title e).elim (r.subscribed e) (place · (r.subscribed e))) ∧
    (r.answer title c).2.rules = r.rules ++ (c.rule? title).toList ∧
    (r.Tidy → (r.answer title c).2.Tidy) := by
  unfold Registration.subscription? Registration.rule?
  cases hrequest : c.request? title with
  | none =>
    obtain ⟨a, ha⟩ := answer_of_no_request (r := r) hrequest
    rw [ha]
    exact ⟨fun _ => rfl, (List.append_nil _).symm, id⟩
  | some x =>
    obtain ⟨f, hf⟩ := answer_of_request (r := r) hrequest
    have hregisters := r.registers x.2 x.1
    rw [hf]
    exact ⟨hregisters.subscribed_eq, hregisters.rules_eq, hregisters.tidy⟩

end

theorem filterMap_concat {β γ : Type} (f : β → Option γ) (l : List β) (b : β) :
    (l ++ [b]).filterMap f = l.filterMap f ++ (f b).toList := by
  rw [List.filterMap_append, List.filterMap_cons]
  cases f b <;> rfl

/-- A registry holds what registrations have asked for and no more: for each event the
subscriptions in the order of their calls, and the step rules in the order of registration. -/
structure Records (title : α → String) (cs : List (Registration α)) (r : Registry α) : Prop where
  subscribed : ∀ e, Ordered (cs.filterMap (·.subscription? title e)) (r.subscribed e)
  rules : r.rules = cs.filterMap (·.rule? title)
  tidy : r.Tidy

theorem Records.empty (title : α → String) : Records title [] {} where
  subscribed _ := ⟨.nil, .nil, fun _ => rfl⟩
  rules := rfl
  tidy := ⟨.nil, List.forall_mem_nil _⟩

theorem Records.answer {title : α → String} {cs : List (Registration α)} {r : Registry α}
    (h : r.Records title cs) (c : Registration α) :
    (r.answer title c).2.Records title (cs ++ [c]) := by
  obtain ⟨hsubscribed, hrules, htidy⟩ := answer_leaves title r c
  refine ⟨?_, ?_, htidy h.tidy⟩
  · intro e
    rw [hsubscribed, filterMap_concat]
    cases c.subscription? title e with
    | none =>
      rw [Option.toList_none, List.append_nil]
      exact h.subscribed e
    | some sub => exact (h.subscribed e).place sub
  · rw [hrules, h.rules, filterMap_concat]

/-- By induction on the registrations to come, with those made so far on record. -/
theorem Records.answerAll {title : α → String} {before : List (Registration α)} {r : Registry α}
    (h : r.Records title before) (cs : List (Registration α)) :
    (Registry.answerAll title cs r).2.Records title (before ++ cs) := by
  induction cs generalizing before r with
  | nil =>
    rw [List.append_nil]
    exact h
  | cons c cs ih =>
    have hall := ih (h.answer c)
    rwa [List.append_assoc] at hall

/-- Just the registrations that are at fault fail, wherever they stand. -/
theorem answerAll_fault (title : α → String) (cs : List (Registration α)) (r : Registry α) :
    List.Forall₂ (fun c a => ∀ e, a = .error e ↔ c.fault? title = some e) cs
      (answerAll title cs r).1 := by
  induction cs generalizing r with
  | nil => exact .nil
  | cons c cs ih =>
    have hfirst : ∀ e, (r.answer title c).1 = .error e ↔ c.fault? title = some e := by
      intro e
      have hfault := answer_fault title r c
      cases hc : c.fault? title with
      | some e' =>
        rw [hc] at hfault
        rw [hfault, Except.error.injEq, Option.some.injEq]
      | none =>
        rw [hc] at hfault
        obtain ⟨a, ha⟩ := hfault
        rw [ha]
        exact ⟨nofun, nofun⟩
    exact .cons hfirst (ih _)

end Registry

/-! Calls. -/

/-- How a registry tells handlers: those of an event in the order of its subscriptions, and the step
rules that are due in the order in which they stand. It is in these ways that a run tells them. -/
structure Registry.TellsInTurn (r : Registry Handler) : Prop where
  event : ∀ (e : EventName) (occasion : Occasion) (m : Machine),
    Machine.NotifiedInTurn occasion ((r.subscribed e).map (·.handler)) m
      (r.emit e.text occasion m)
  noEvent : ∀ name ∉ EventName.all.map EventName.text, ∀ (occasion : Occasion) (m : Machine),
    r.emit name occasion m = (.ok (), m)
  step : ∀ (context : StepContext) (m : Machine),
    Machine.NotifiedInTurn (.step context)
      ((r.rules.filter (·.interval ∣ context.index)).map (·.handler)) m (r.afterStep context m)
  emitted : ∀ (host : Host) (event : Event) (m : Machine), host.hooks = r →
    (m.emit host event).2 = (r.emit event.name.text (.event event) m).2 ∧
    ((m.emit host event).1 = .ok () ↔ (r.emit event.name.text (.event event) m).1 = .ok ())
  logged : ∀ (host : Host) (step : Step) (location : Option Location) (m : Machine),
    host.hooks = r →
    (m.logStep host step location).2 =
      (r.afterStep (m.nextStep step location) (m.record host step location)).2 ∧
    ((m.logStep host step location).1 = .ok () ↔
      (r.afterStep (m.nextStep step location) (m.record host step location)).1 = .ok ())

theorem Registry.tellsInTurn (r : Registry Handler) : r.TellsInTurn where
  event e occasion m := by
    rw [emit, EventName.ofText?_text, ← handlers_eq]
    exact Machine.notifyAll_inTurn occasion (r.handlers e) m
  noEvent name h occasion m := by
    rw [emit, EventName.ofText?_eq_none.mpr h]
  step context m := by
    have hdue : r.dueHandlers context.index =
        (r.rules.filter (·.interval ∣ context.index)).map (·.handler) := by
      simp only [dueHandlers, StepRule.due_iff]
    rw [← hdue]
    exact Machine.notifyAll_inTurn (.step context) _ m
  emitted host event m h := by
    obtain rfl := h
    rw [Machine.emit_eq]
    exact ⟨rfl, Moment.judge_eq_ok⟩
  logged host step location m h := by
    obtain rfl := h
    rw [Machine.logStep_eq]
    exact ⟨rfl, Moment.judge_eq_ok⟩

/-- Registrations by whatever way, on a registry that is empty at first. Just those at fault fail,
and each leaves the registry as it was. All others are kept: for every event its subscriptions as
one stable sort of their whole history puts them, and the step rules in the order of registration.
Handlers are called in the order in which they are kept, up to and including the first that
fails. -/
theorem registrations_in_order (title : Handler → String) (cs : List (Registration Handler)) :
    (∀ (r : Registry Handler) (c : Registration Handler), match c.fault? title with
      | some e => r.answer title c = (.error e, r)
      | none => ∃ a, (r.answer title c).1 = .ok a) ∧
    List.Forall₂ (fun c a => ∀ e, a = .error e ↔ c.fault? title = some e) cs
      (Registry.answerAll title cs {}).1 ∧
    (Registry.answerAll title cs {}).2.Records title cs ∧
    (∀ e, (Registry.answerAll title cs {}).2.subscribed e =
      (cs.filterMap (·.subscription? title e)).mergeSort Subscription.ahead) ∧
    (Registry.answerAll title cs {}).2.TellsInTurn := by
  have hrecords := (Registry.Records.empty title).answerAll cs
  rw [List.nil_append] at hrecords
  exact ⟨Registry.answer_fault title, Registry.answerAll_fault title cs {}, hrecords,
    fun e => (hrecords.subscribed e).eq_mergeSort, Registry.tellsInTurn _⟩

/-- A negative priority and equal ones, a registration that fails, a decorator that is asked for
before it is applied, and a rule without a name. -/
example :
    let cs : List (Registration String) := [
      .direct (.event "program_end" (-1)) "last",
      .service (.event "program_end" 1) none,
      .service (.event "the_end" 9) (some "never"),
      .decorate (.event "program_end" 1) "first",
      .direct (.steps "idle" 0) "never",
      .direct (.event "program_end" 1) "second",
      .service (.steps "" 2) (some "even")]
    let r := (Registry.answerAll id cs {}).2
    r.handlers .programEnd = ["first", "second", "last"] ∧ r.dueHandlers 4 = ["even"] ∧
      r.rules.map (·.name) = ["even"] := by
  decide

end ObjectPascal
