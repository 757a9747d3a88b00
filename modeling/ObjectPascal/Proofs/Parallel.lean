import Mathlib.Order.Basic
import ObjectPascal.Proofs.Activations

/-!
Scripts side by side. Two scripts go in parallel if they ask for actions that match, as long as
the results they get match, and end in ways that match. What is known of the machines that carry
them out is a world; it only grows.
-/

namespace ObjectPascal

/-- The world of those who learn nothing on the way. -/
inductive Still where
  | still

instance : Preorder Still where
  le _ _ := True
  le_refl _ := trivial
  le_trans _ _ _ _ _ := trivial

/-- Which actions may be asked for side by side, with what their results then have in common, and
which failures match. -/
structure Pairing (W : Type) where
  asks : W → (a b : Action) → (W → a.Result → b.Result → Prop) → Prop
  fails : Raised → Raised → Prop

namespace Pairing

variable {W : Type}

/-- Two outcomes that match: results with `Q`, or failures. -/
def Agrees (C : Pairing W) {α β : Type} (Q : α → β → Prop) :
    Except Raised α → Except Raised β → Prop
  | .ok a, .ok b => Q a b
  | .error e, .error e' => C.fails e e'
  | _, _ => False

theorem Agrees.mono {C : Pairing W} {α β : Type} {Q Q' : α → β → Prop}
    {r : Except Raised α} {r' : Except Raised β} (h : C.Agrees Q r r')
    (hq : ∀ a b, Q a b → Q' a b) : C.Agrees Q' r r' := by
  cases r with
  | ok a =>
    cases r' with
    | ok b => exact hq a b h
    | error e' => exact h
  | error e =>
    cases r' with
    | ok b => exact h
    | error e' => exact h

/-- The side of the machines: related in a world, they carry out matching actions with matching
outcomes and are related in a world that follows. Their calls are the same. -/
structure Holds [Preorder W] (C : Pairing W) (host host' : Host)
    (R : W → Machine → Machine → Prop) : Prop where
  perform : ∀ {w m m' a b Q}, R w m m' → C.asks w a b Q →
    ∃ w', w ≤ w' ∧ R w' (m.perform host a).2 (m'.perform host' b).2 ∧
      C.Agrees (Q w') (m.perform host a).1 (m'.perform host' b).1
  leave : ∀ {w m m'}, R w m m' → R w m.left m'.left
  calls : ∀ {w m m'}, R w m m' → m'.store.calls = m.store.calls
  capture : ∀ {e e'} live, C.fails e e' → C.fails (e.capture live) (e'.capture live)

end Pairing

namespace Script

variable {W : Type} [Preorder W]

/-- The side of the scripts, for calls that nest at most `n` deep: every two actions they can come
to match, and so do their results, by `Q`. -/
inductive Parallel (C : Pairing W) : Nat → W → {α β : Type} → Script α → Script β →
    (W → α → β → Prop) → Prop
  | done {n : Nat} {w : W} {α β : Type} {a : α} {b : β} {Q : W → α → β → Prop} (h : Q w a b) :
      Parallel C n w (.done a) (.done b) Q
  | fail {n : Nat} {w : W} {α β : Type} {e e' : Raised} {Q : W → α → β → Prop}
      (h : C.fails e e') : Parallel C n w (.fail e) (.fail e') Q
  | perform {n : Nat} {w : W} {a b : Action} {P Q : W → a.Result → b.Result → Prop}
      (hk : a.keepsCalls = true) (ha : C.asks w a b P)
      (hq : ∀ w' r r', w ≤ w' → P w' r r' → Q w' r r') :
      Parallel C n w (.perform a) (.perform b) Q
  | andThen {n : Nat} {w : W} {α β α' β' : Type} {x : Script α} {y : Script β}
      {f : α → Script α'} {g : β → Script β'} {Q : W → α → β → Prop} {Q' : W → α' → β' → Prop}
      (hx : Parallel C n w x y Q)
      (hf : ∀ w' a b, w ≤ w' → Q w' a b → Parallel C n w' (f a) (g b) Q') :
      Parallel C n w (.andThen x f) (.andThen y g) Q'
  | attempt {n : Nat} {w : W} {α β : Type} {x : Script α} {y : Script β}
      {Q : W → α → β → Prop} {Q' : W → Except Raised α → Except Raised β → Prop}
      (hx : Parallel C n w x y Q)
      (hq : ∀ w' r r', w ≤ w' → C.Agrees (Q w') r r' → Q' w' r r') :
      Parallel C n w (.attempt x) (.attempt y) Q'
  | within {k n : Nat} {w : W} {frame frame' : FrameId} {receiver receiver' : ObjectId}
      {inside inside' : Script Unit} {Q Q' : W → Unit → Unit → Prop} (hk : k < n)
      (he : C.asks w (.enter frame receiver) (.enter frame' receiver') fun _ _ _ => True)
      (hx : ∀ w', w ≤ w' → Parallel C k w' inside inside' Q)
      (hq : ∀ w', w ≤ w' → Q' w' () ()) :
      Parallel C n w (within frame receiver inside) (within frame' receiver' inside') Q'

namespace Parallel

variable {C : Pairing W} {n : Nat} {w : W} {α β α' β' : Type} {Q : W → α → β → Prop}

theorem pure {a : α} {b : β} (h : Q w a b) :
    Parallel C n w (Pure.pure a : Script α) (Pure.pure b : Script β) Q :=
  .done h

theorem bind {x : Script α} {y : Script β} {f : α → Script α'} {g : β → Script β'}
    {Q' : W → α' → β' → Prop} (hx : Parallel C n w x y Q)
    (hf : ∀ w' a b, w ≤ w' → Q w' a b → Parallel C n w' (f a) (g b) Q') :
    Parallel C n w (x >>= f) (y >>= g) Q' :=
  .andThen hx hf

/-- A single action on each side. -/
theorem action {a b : Action} {P : W → a.Result → b.Result → Prop} (hk : a.keepsCalls = true)
    (ha : C.asks w a b P) : Parallel C n w (Script.perform a) (Script.perform b) P :=
  .perform hk ha fun _ _ _ _ h => h

/-- Matching actions, and then whatever their results lead to. -/
theorem bind_perform {a b : Action} {P : W → a.Result → b.Result → Prop}
    {f : a.Result → Script α'} {g : b.Result → Script β'} {Q' : W → α' → β' → Prop}
    (hk : a.keepsCalls = true) (ha : C.asks w a b P)
    (hf : ∀ w' r r', w ≤ w' → P w' r r' → Parallel C n w' (f r) (g r') Q') :
    Parallel C n w (Script.perform a >>= f) (Script.perform b >>= g) Q' :=
  .bind (.action hk ha) hf

theorem mapError {x : Script α} {y : Script β} {f g : Raised → Raised}
    (h : Parallel C n w x y Q) (hf : ∀ e e', C.fails e e' → C.fails (f e) (g e')) :
    Parallel C n w (x.mapError f) (y.mapError g) Q := by
  refine .bind (.attempt h fun _ _ _ _ hr => hr) ?_
  intro w' r r' _ hr
  cases r with
  | ok a =>
    cases r' with
    | ok b => exact .pure hr
    | error e' => exact hr.elim
  | error e =>
    cases r' with
    | ok b => exact hr.elim
    | error e' => exact .fail (hf e e' hr)

variable {host host' : Host} {R : W → Machine → Machine → Prop}

/-- What the runs of two scripts come to, from related machines. -/
structure Matched (C : Pairing W) (host host' : Host) (R : W → Machine → Machine → Prop) (w : W)
    (x : Script α) (y : Script β) (Q : W → α → β → Prop) (m m' : Machine) : Prop where
  outcome : ∃ w', w ≤ w' ∧ R w' (x.run host m).2 (y.run host' m').2 ∧
    C.Agrees (Q w') (x.run host m).1 (y.run host' m').1
  calls : (x.run host m).2.store.calls = m.store.calls

theorem Matched.andThen {x : Script α} {y : Script β} {f : α → Script α'} {g : β → Script β'}
    {Q' : W → α' → β' → Prop} {m m' : Machine} (hx : Matched C host host' R w x y Q m m')
    (hf : ∀ w' a b n n', w ≤ w' → Q w' a b → R w' n n' →
      Matched C host host' R w' (f a) (g b) Q' n n') :
    Matched C host host' R w (.andThen x f) (.andThen y g) Q' m m' := by
  obtain ⟨⟨w', hw, hrel, hagree⟩, hcalls⟩ := hx
  rcases hr : x.run host m with ⟨r, n⟩
  rcases hr' : y.run host' m' with ⟨r', n'⟩
  rw [hr, hr'] at hrel hagree
  rw [hr] at hcalls
  cases r with
  | error e =>
    cases r' with
    | ok b => exact hagree.elim
    | error e' =>
      have hb : (Script.andThen x f).run host m = (.error e, n) := by rw [Script.run, hr]
      have hb' : (Script.andThen y g).run host' m' = (.error e', n') := by rw [Script.run, hr']
      refine ⟨⟨w', hw, ?_, ?_⟩, ?_⟩
      · rw [hb, hb']
        exact hrel
      · rw [hb, hb']
        exact hagree
      · rw [hb]
        exact hcalls
  | ok a =>
    cases r' with
    | error e' => exact hagree.elim
    | ok b =>
      have hb : (Script.andThen x f).run host m = (f a).run host n := by rw [Script.run, hr]
      have hb' : (Script.andThen y g).run host' m' = (g b).run host' n' := by rw [Script.run, hr']
      obtain ⟨⟨w₂, hw₂, hrel₂, hagree₂⟩, hcalls₂⟩ := hf w' a b n n' hw hagree hrel
      refine ⟨⟨w₂, hw.trans hw₂, ?_, ?_⟩, ?_⟩
      · rw [hb, hb']
        exact hrel₂
      · rw [hb, hb']
        exact hagree₂
      · rw [hb]
        exact hcalls₂.trans hcalls

theorem Matched.within (hC : C.Holds host host' R) {frame frame' : FrameId}
    {receiver receiver' : ObjectId} {inside inside' : Script Unit}
    {Q Q' : W → Unit → Unit → Prop} {m m' : Machine} (hm : R w m m')
    (he : C.asks w (.enter frame receiver) (.enter frame' receiver') fun _ _ _ => True)
    (hx : ∀ w' n n', w ≤ w' → R w' n n' → Matched C host host' R w' inside inside' Q n n')
    (hq : ∀ w', w ≤ w' → Q' w' () ()) :
    Matched C host host' R w (ObjectPascal.within frame receiver inside)
      (ObjectPascal.within frame' receiver' inside') Q' m m' := by
  obtain ⟨w₁, hw₁, hin, -⟩ := hC.perform hm he
  have hentered : R w₁ (m.entered frame receiver) (m'.entered frame' receiver') := hin
  obtain ⟨⟨w₂, hw₂, hrel, hagree⟩, hcalls⟩ := hx w₁ _ _ hw₁ hentered
  have hw := hw₁.trans hw₂
  have hrun : (ObjectPascal.within frame receiver inside).run host m = _ :=
    run_within frame receiver inside m
  have hrun' : (ObjectPascal.within frame' receiver' inside').run host' m' = _ :=
    run_within frame' receiver' inside' m'
  rcases hr : inside.run host (m.entered frame receiver) with ⟨r, n⟩
  rcases hr' : inside'.run host' (m'.entered frame' receiver') with ⟨r', n'⟩
  rw [hr] at hrun hcalls
  rw [hr'] at hrun'
  rw [hr, hr'] at hrel hagree
  refine ⟨⟨w₂, hw, ?_, ?_⟩, ?_⟩
  · rw [hrun, hrun']
    exact hC.leave hrel
  · rw [hrun, hrun']
    have hlive : n'.store.liveFrames = n.store.liveFrames := by
      unfold Store.liveFrames
      rw [hC.calls hrel]
    cases r with
    | ok a =>
      cases r' with
      | ok b => exact hq w₂ hw
      | error e' => exact hagree.elim
    | error e =>
      cases r' with
      | ok b => exact hagree.elim
      | error e' =>
        change C.fails (e.capture _) (e'.capture n'.store.liveFrames)
        rw [hlive]
        exact hC.capture _ hagree
  · rw [hrun]
    have hcalls' : n.store.calls = (m.entered frame receiver).store.calls := hcalls
    change n.store.calls.tail = _
    rw [hcalls']
    rfl

/-- By induction on the two scripts: matching all the way, from related machines. -/
theorem run {x : Script α} {y : Script β} (h : Parallel C n w x y Q) (hC : C.Holds host host' R)
    {m m' : Machine} (hm : R w m m') : Matched C host host' R w x y Q m m' := by
  induction h generalizing m m' with
  | @done _ w _ _ _ _ _ h => exact ⟨⟨w, le_refl w, hm, h⟩, rfl⟩
  | @fail _ w _ _ _ _ _ h => exact ⟨⟨w, le_refl w, hm, h⟩, rfl⟩
  | @perform _ w a b P Q hk ha hq =>
    obtain ⟨w', hw, hrel, hagree⟩ := hC.perform hm ha
    exact ⟨⟨w', hw, hrel, hagree.mono fun r r' hr => hq w' r r' hw hr⟩,
      Machine.perform_calls host m a hk⟩
  | andThen _ _ ihx ihf =>
    apply (ihx hm).andThen
    intro w' a b n n' hw ha hn
    exact ihf w' a b hw ha hn
  | attempt _ hq ih =>
    obtain ⟨⟨w', hw, hrel, hagree⟩, hcalls⟩ := ih hm
    exact ⟨⟨w', hw, hrel, hq w' _ _ hw hagree⟩, hcalls⟩
  | within _ he _ hq ih =>
    exact Matched.within hC hm he (fun w' n n' hw hn => ih w' hw hn) hq

/-- At every moment of the first run the machine is related to one of the second kind, and the
calls nest within the bound. -/
theorem moments {x : Script α} {y : Script β} (h : Parallel C n w x y Q)
    (hC : C.Holds host host' R) {m m' : Machine} (hm : R w m m') :
    ∀ p ∈ x.moments host m,
      (∃ w' n', R w' p.1 n') ∧ p.1.store.depth ≤ m.store.depth + n := by
  induction h generalizing m m' with
  | done =>
    intro p hp
    simp [Script.moments] at hp
  | fail =>
    intro p hp
    simp [Script.moments] at hp
  | perform =>
    intro p hp
    rw [List.mem_singleton.mp hp]
    exact ⟨⟨_, _, hm⟩, Nat.le_add_right _ _⟩
  | @andThen _ _ _ _ _ _ x y f g Q Q' hx hf ihx ihf =>
    intro p hp
    rcases mem_moments_bind.mp hp with hp | ⟨a, n, hr, hp⟩
    · exact ihx hm p hp
    · obtain ⟨⟨w', hw, hrel, hagree⟩, hcalls⟩ := hx.run hC hm
      rw [hr] at hrel hagree hcalls
      rcases hr' : y.run host' m' with ⟨r', n'⟩
      rw [hr'] at hrel hagree
      cases r' with
      | error e' => exact hagree.elim
      | ok b =>
        obtain ⟨hsome, hdepth⟩ := ihf w' a b hw hagree hrel p hp
        have hsame : n.store.depth = m.store.depth := congrArg List.length hcalls
        rw [hsame] at hdepth
        exact ⟨hsome, hdepth⟩
  | attempt _ _ ih =>
    rw [moments_attempt]
    exact ih hm
  | @within k n w frame frame' receiver receiver' inside inside' Q Q' hk he hx hq ih =>
    obtain ⟨w₁, hw₁, hin, -⟩ := hC.perform hm he
    have hentered : R w₁ (m.entered frame receiver) (m'.entered frame' receiver') := hin
    have hend := (hx w₁ hw₁).run hC hentered
    have hdepth : (m.entered frame receiver).store.depth = m.store.depth + 1 := rfl
    obtain ⟨⟨w₂, -, hrel, -⟩, hcalls⟩ := hend
    -- the machine after the body, before the frames are noted or the call ends
    have hafter : (∃ w' n', R w' (inside.run host (m.entered frame receiver)).2 n') ∧
        (inside.run host (m.entered frame receiver)).2.store.depth ≤ m.store.depth + n := by
      have hsame : (inside.run host (m.entered frame receiver)).2.store.depth =
          (m.entered frame receiver).store.depth := congrArg List.length hcalls
      refine ⟨⟨_, _, hrel⟩, ?_⟩
      omega
    intro p hp
    rw [moments_within] at hp
    rcases List.mem_append.mp hp with hp | hp
    · rcases List.mem_cons.mp hp with rfl | hp
      · exact ⟨⟨_, _, hm⟩, Nat.le_add_right _ _⟩
      · obtain ⟨hsome, hle⟩ := ih w₁ hw₁ hentered p hp
        refine ⟨hsome, ?_⟩
        omega
    · rcases hr : inside.run host (m.entered frame receiver) with ⟨r, n'⟩
      rw [hr] at hafter hp
      cases r with
      | ok _ =>
        rw [List.mem_singleton.mp hp]
        exact hafter
      | error e =>
        rcases List.mem_cons.mp hp with rfl | hp
        · exact hafter
        · rw [List.mem_singleton.mp hp]
          exact hafter

end Parallel

end Script

end ObjectPascal
