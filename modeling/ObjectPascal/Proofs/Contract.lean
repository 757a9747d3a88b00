import ObjectPascal.Proofs.Moments

/-!
Contracts between scripts and machines. A script asks only for actions that are allowed, relies on
what they bring, and fails in accepted ways only; a machine keeps an invariant as long as it is
asked for allowed actions. Together they keep the invariant at every moment of a run.
-/

namespace ObjectPascal

structure Contract where
  allows : Action → Prop
  gives : (a : Action) → a.Result → Prop
  fails : Raised → Prop

namespace Contract

/-- A result with `Q`, or an accepted failure. -/
def Accepts (C : Contract) {α : Type} (Q : α → Prop) : Except Raised α → Prop
  | .ok a => Q a
  | .error e => C.fails e

/-- The machine's side: an allowed action keeps the invariant and brings what it should. -/
def Holds (C : Contract) (host : Host) (I : Machine → Prop) : Prop :=
  ∀ m a, I m → C.allows a →
    C.Accepts (C.gives a) (m.perform host a).1 ∧ I (m.perform host a).2

end Contract

namespace Script

/-- The script's side: every action it can come to is allowed, and its result has `Q`. -/
inductive Obeys (C : Contract) : {α : Type} → Script α → (α → Prop) → Prop
  | done {α : Type} {a : α} {Q : α → Prop} (h : Q a) : Obeys C (.done a) Q
  | fail {α : Type} {e : Raised} {Q : α → Prop} (h : C.fails e) : Obeys C (.fail e) Q
  | perform {a : Action} {Q : a.Result → Prop} (ha : C.allows a) (hq : ∀ r, C.gives a r → Q r) :
      Obeys C (.perform a) Q
  | andThen {α β : Type} {x : Script α} {f : α → Script β} {Q : α → Prop} {Q' : β → Prop}
      (hx : Obeys C x Q) (hf : ∀ a, Q a → Obeys C (f a) Q') : Obeys C (.andThen x f) Q'
  | attempt {α : Type} {x : Script α} {Q : α → Prop} {Q' : Except Raised α → Prop}
      (hx : Obeys C x Q) (hq : ∀ r, C.Accepts Q r → Q' r) : Obeys C (.attempt x) Q'

namespace Obeys

variable {C : Contract} {α β : Type} {Q : α → Prop}

theorem pure {a : α} (h : Q a) : Obeys C (Pure.pure a : Script α) Q :=
  .done h

theorem bind {x : Script α} {f : α → Script β} {Q' : β → Prop} (hx : Obeys C x Q)
    (hf : ∀ a, Q a → Obeys C (f a) Q') : Obeys C (x >>= f) Q' :=
  .andThen hx hf

/-- An allowed action, and then whatever its result leads to. -/
theorem bind_perform {a : Action} {f : a.Result → Script β} {Q' : β → Prop} (ha : C.allows a)
    (hf : ∀ r, C.gives a r → Obeys C (f r) Q') : Obeys C (.perform a >>= f) Q' :=
  .bind (.perform ha fun _ hr => hr) hf

theorem mono {x : Script α} {Q' : α → Prop} (h : Obeys C x Q) (hq : ∀ a, Q a → Q' a) :
    Obeys C x Q' := by
  induction h with
  | done h => exact .done (hq _ h)
  | fail h => exact .fail h
  | perform ha hr => exact .perform ha fun r hg => hq r (hr r hg)
  | andThen hx _ _ ihf => exact .andThen hx fun a ha => ihf a ha hq
  | attempt hx hr => exact .attempt hx fun r ha => hq r (hr r ha)

theorem mapError {x : Script α} {f : Raised → Raised} (h : Obeys C x Q)
    (hf : ∀ e, C.fails e → C.fails (f e)) : Obeys C (x.mapError f) Q := by
  refine .bind (.attempt h fun r hr => hr) ?_
  intro r hr
  cases r with
  | ok a => exact .pure hr
  | error e => exact .fail (hf e hr)

variable {host : Host} {I : Machine → Prop}

/-- A run keeps the invariant and ends as the script's side says. -/
theorem run {x : Script α} (h : Obeys C x Q) (hC : C.Holds host I) {m : Machine} (hm : I m) :
    C.Accepts Q (x.run host m).1 ∧ I (x.run host m).2 := by
  induction h generalizing m with
  | done h => exact ⟨h, hm⟩
  | fail h => exact ⟨h, hm⟩
  | @perform a _ ha hq =>
    obtain ⟨hr, hi⟩ := hC m a hm ha
    refine ⟨?_, hi⟩
    change C.Accepts _ (m.perform host a).1
    revert hr
    cases (m.perform host a).1 with
    | ok r => exact hq r
    | error e => exact fun he => he
  | @andThen _ _ x f Q Q' hx hf ihx ihf =>
    obtain ⟨hr, hi⟩ := ihx hm
    obtain ⟨a, m', hrun, hbind⟩ | ⟨e, m', hrun, hbind⟩ := run_bind_cases host x f m
    · change C.Accepts _ ((x >>= f).run host m).1 ∧ I ((x >>= f).run host m).2
      rw [hrun] at hr hi
      rw [hbind]
      exact ihf a hr hi
    · change C.Accepts _ ((x >>= f).run host m).1 ∧ I ((x >>= f).run host m).2
      rw [hrun] at hr hi
      rw [hbind]
      exact ⟨hr, hi⟩
  | attempt hx hq ih =>
    obtain ⟨hr, hi⟩ := ih hm
    rw [run_attempt]
    exact ⟨hq _ hr, hi⟩

/-- At every moment of a run the invariant holds and the action is allowed. -/
theorem moments {x : Script α} (h : Obeys C x Q) (hC : C.Holds host I) {m : Machine} (hm : I m) :
    ∀ p ∈ x.moments host m, I p.1 ∧ C.allows p.2 := by
  induction h generalizing m with
  | done =>
    intro p hp
    simp [Script.moments] at hp
  | fail =>
    intro p hp
    simp [Script.moments] at hp
  | perform ha =>
    intro p hp
    rw [List.mem_singleton.mp hp]
    exact ⟨hm, ha⟩
  | @andThen _ _ x f Q Q' hx hf ihx ihf =>
    intro p hp
    rcases mem_moments_bind.mp hp with hp | ⟨a, m', hrun, hp⟩
    · exact ihx hm p hp
    · obtain ⟨hr, hi⟩ := hx.run hC hm
      rw [hrun] at hr hi
      exact ihf a hr hi p hp
  | attempt _ _ ih =>
    rw [moments_attempt]
    exact ih hm

/-- What the actions of a run bring is all that its outcome depends on. -/
theorem accepts {x : Script α} (h : Obeys C x Q) {m : Machine}
    (hm : ∀ y ∈ x.moments host m, C.Accepts (C.gives y.2) (y.1.perform host y.2).1) :
    C.Accepts Q (x.run host m).1 := by
  induction h generalizing m with
  | done h => exact h
  | fail h => exact h
  | @perform a _ _ hq =>
    have hr := hm (m, a) List.mem_cons_self
    change C.Accepts _ (m.perform host a).1
    revert hr
    cases (m.perform host a).1 with
    | ok r => exact hq r
    | error e => exact fun he => he
  | @andThen _ _ x f Q Q' _ _ ihx ihf =>
    have hx := ihx fun y hy => hm y (mem_moments_bind.mpr (.inl hy))
    change C.Accepts _ ((x >>= f).run host m).1
    obtain ⟨a, m', hrun, hbind⟩ | ⟨e, m', hrun, hbind⟩ := run_bind_cases host x f m
    · rw [hrun] at hx
      rw [hbind]
      exact ihf a hx fun y hy => hm y (mem_moments_bind.mpr (.inr ⟨a, m', hrun, hy⟩))
    · rw [hrun] at hx
      rw [hbind]
      exact hx
  | attempt _ hq ih =>
    rw [moments_attempt] at hm
    rw [run_attempt]
    exact hq _ (ih hm)

end Obeys

end Script

end ObjectPascal
