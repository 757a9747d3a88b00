import ObjectPascal.Proofs.Trail

/-!
How a failure comes out of the calls it is raised in. Whatever the statement that fails, and however
deep in calls it stands, what is noted on the way out is what was so when the failure was raised.
Nothing here is about handlers: there are none.
-/

namespace ObjectPascal

open Script

/-! What is added to a failure, is added once. -/

namespace Raised

theorem capture_capture (frames frames' : List FrameId) (e : Raised) :
    (e.capture frames).capture frames' = e.capture frames := by
  cases e with
  | runtime e => cases hs : e.stack <;> simp [capture, hs]
  | host f => cases hs : f.stack <;> simp [capture, hs]
  | exhausted e => cases hs : e.stack <;> simp [capture, hs]

theorem locate_locate (l l' : Location) (e : Raised) :
    (e.locate l).locate l' = e.locate l := by
  cases e with
  | runtime e => cases hl : e.location <;> simp [locate, hl]
  | host f => rfl
  | exhausted e => rfl

theorem locate_capture (l : Location) (frames : List FrameId) (e : Raised) :
    (e.capture frames).locate l = (e.locate l).capture frames := by
  cases e <;> rfl

end Raised

/-! A call from its start to its end. -/

section

variable {host : Host} {m : Machine} {ok : Machine → Prop}
  {bad : Raised → Machine → Raised → Machine → Prop}

theorem renderAll_ends (host : Host) (m : Machine) (vs : List Value) :
    (renderAll vs).run host m = (.ok (vs.map m.store.render), m) ∧
      (renderAll vs).origin? host m = none := by
  induction vs with
  | nil => exact ⟨rfl, rfl⟩
  | cons v vs ih =>
    have hv : (perform (.render v)).run host m = (.ok (m.store.render v), m) := rfl
    have hrest : (do return m.store.render v :: (← renderAll vs) : Script (List String)).run host m =
        (.ok ((v :: vs).map m.store.render), m) := by
      rw [run_bind, ih.1]
      rfl
    constructor
    · unfold renderAll
      rw [run_bind, hv]
      exact hrest
    · unfold renderAll
      rw [origin?_bind_of_ok rfl hv, origin?_bind_of_ok ih.2 ih.1]
      rfl

theorem callResult_ends (host : Host) (m : Machine) (method : Method) (frame : FrameId) :
    ∃ v, (callResult method frame).run host m = (.ok v, m) ∧
      (callResult method frame).origin? host m = none := by
  unfold callResult
  split
  · exact ⟨_, rfl, rfl⟩
  · exact ⟨_, rfl, rfl⟩

/-- How a call ends is up to what is run inside it. -/
theorem within_ends {frame : FrameId} {receiver : ObjectId} {inside : Script Unit}
    (h : Ends host inside (m.entered frame receiver) ok bad) :
    Ends host (within frame receiver inside) m (fun m' => ∃ m₁, ok m₁ ∧ m' = m₁.left)
      fun raised n e m' => ∃ e₁ m₁, bad raised n e₁ m₁ ∧
        e = e₁.capture m₁.store.liveFrames ∧ m' = m₁.left := by
  refine .bind_perform (a := .enter frame receiver) rfl ?_
  change Ends host _ (m.entered frame receiver) _ _
  cases h with
  | @done a m₁ hr ho h =>
    have horigin : inside.attempt.origin? host (m.entered frame receiver) = none := ho
    have hattempt : inside.attempt.run host (m.entered frame receiver) = (.ok (.ok a), m₁) := by
      rw [run_attempt, hr]
    refine .done (a := ()) ?_ (origin?_bind_of_ok horigin hattempt) ⟨m₁, h, rfl⟩
    rw [run_bind, hattempt]
    rfl
  | @raised raised e n m₁ hr ho h =>
    have horigin : inside.attempt.origin? host (m.entered frame receiver) = some (raised, n) := ho
    have hattempt : inside.attempt.run host (m.entered frame receiver) = (.ok (.error e), m₁) := by
      rw [run_attempt, hr]
    refine .raised ?_ (origin?_bind_of_raised horigin) ⟨e, m₁, h, rfl, rfl⟩
    rw [run_bind, hattempt]
    rfl

variable (hh : host.hooks = {})

include hh

/-- Without handlers, nothing but the body of a method can fail in a call of it. -/
theorem runMethod_ends {body : List Statement → Script Unit} {kind : CallKind}
    {receiver : ObjectId} {method : Method} {args : List Value} {location : Option Location}
    (h : Ends host (body (method.body.getD []))
      (m.called host kind receiver method args location) ok bad) :
    Ends host (runMethod body kind receiver method args location) m
      (fun m' => ∃ m₁, ok m₁ ∧ m' = m₁.left) fun raised n e m' => ∃ e₁ m₁, bad raised n e₁ m₁ ∧
        e = e₁.capture m₁.store.liveFrames ∧ m' = m₁.left := by
  have hframed : m.perform host (.newFrame method args location) =
      (.ok m.store.frames.size, m.framed (method.frame args location)) := rfl
  refine .bind_perform hframed ?_
  obtain ⟨htexts, hno⟩ := renderAll_ends host (m.framed (method.frame args location)) args
  refine .bind_ok htexts hno ?_
  refine .bind_perform (Machine.logStep_of_no_hooks hh _ _ _) ?_
  refine .bind_perform (Machine.emit_of_no_hooks hh _ _) ?_
  refine (within_ends h).bind (fun _ _ _ _ h => h) ?_
  intro _ m' _ hm'
  obtain ⟨v, hv, hnone⟩ := callResult_ends host m' method m.store.frames.size
  refine .bind_ok hv hnone ?_
  refine .bind_perform (a := .render _) rfl ?_
  refine .bind_perform (Machine.emit_of_no_hooks hh _ _) ?_
  exact .pure _ hm'

end

/-! The statement that fails. -/

/-- Running a body comes to execute the statement `s` from `k`, in the body itself or in a method
that is called there. As in `runBody`, calls nest less than `depth` deep; around `s` there is room
for `d` of them. -/
inductive Reaches (host : Host) (s : Statement) (d : Nat) (k : Machine) :
    Nat → List Statement → Machine → Prop
  | head {ss : List Statement} : Reaches host s d k (d + 1) (s :: ss) k
  | tail {depth : Nat} {t : Statement} {ss : List Statement} {m m' : Machine}
      (ht : (t.execute (runBody depth)).run host m = (.ok (), m'))
      (h : Reaches host s d k (depth + 1) ss m') : Reaches host s d k (depth + 1) (t :: ss) m
  | call {depth : Nat} {t : Statement} {ss : List Statement} {m m' : Machine} {kind : CallKind}
      {receiver : ObjectId} {method : Method} {args : List Value} {location : Option Location}
      (ht : Subrun host (runMethod (runBody depth) kind receiver method args location) m'
        (t.execute (runBody depth)) m)
      (h : Reaches host s d k depth (method.body.getD [])
        (m'.called host kind receiver method args location)) :
      Reaches host s d k (depth + 1) (t :: ss) m

/-- When a body first fails, with `raised` on the machine `n`, the statement that is being executed
innermost is `s`: the failure is one of `s`, and no call that `s` has made is active. -/
def FailsIn (host : Host) (depth : Nat) (ss : List Statement) (m : Machine) (s : Statement)
    (raised : Raised) (n : Machine) : Prop :=
  ∃ d k, Reaches host s d k depth ss m ∧
    (s.execute (runBody d)).origin? host k = some (raised, n) ∧ n.store.calls = k.store.calls

/-- A failure of a statement at the time it was raised, and as it comes out of a script: the place
of the statement and the frames that were live are noted, or will be by whoever notes them next. -/
structure Unwound (s : Statement) (raised : Raised) (n : Machine) (e : Raised) (m' : Machine) :
    Prop where
  placed : raised.PlacedIn s.places
  trail : n.Trail
  last : n.LastIn s.callPlaces
  log : m'.log = n.log
  frames : m'.store.frames = n.store.frames
  noted : e.capture m'.store.liveFrames =
    (raised.locate s.location).capture n.store.liveFrames

namespace Unwound

variable {s : Statement} {raised e : Raised} {n m' : Machine}

/-- The call that a failure leaves notes the live frames. -/
theorem left (h : Unwound s raised n e m') :
    Unwound s raised n (e.capture m'.store.liveFrames) m'.left := by
  refine ⟨h.placed, h.trail, h.last, h.log, h.frames, ?_⟩
  rw [Raised.capture_capture]
  exact h.noted

/-- A statement further out adds nothing. -/
theorem locate (h : Unwound s raised n e m') (l : Location) :
    Unwound s raised n (e.locate l) m' := by
  refine ⟨h.placed, h.trail, h.last, h.log, h.frames, ?_⟩
  rw [← Raised.locate_capture, h.noted, Raised.locate_capture, Raised.locate_locate]

end Unwound

/-! Inside a statement. -/

/-- What a statement finds between its parts: the trail is in order, the last step in its frame is
at one of its places, and the calls are those of its start. -/
structure Stands (calls : List Location) (m m' : Machine) : Prop where
  trail : m'.Trail
  last : m'.LastIn calls
  same : m'.store.calls = m.store.calls

/-- How a part of a statement fails: for want of room, by itself, or in a method that it calls. -/
inductive Breaks (host : Host) (depth : Nat) (places calls : List Location) {α : Type}
    (x : Script α) (m : Machine) : Raised → Machine → Raised → Machine → Prop
  | exhausted {e e' : RuntimeError} {n m' : Machine} :
      Breaks host depth places calls x m (.exhausted e) n (.exhausted e') m'
  | own {raised : Raised} {n : Machine} (hp : raised.PlacedIn places) (hn : Stands calls m n) :
      Breaks host depth places calls x m raised n raised n
  | call {raised e : Raised} {n m' m₁ : Machine} {s : Statement} {kind : CallKind}
      {receiver : ObjectId} {method : Method} {args : List Value} {location : Option Location}
      (hx : Subrun host (runMethod (runBody depth) kind receiver method args location) m₁ x m)
      (hs : FailsIn host depth (method.body.getD [])
        (m₁.called host kind receiver method args location) s raised n)
      (hu : Unwound s raised n e m') : Breaks host depth places calls x m raised n e m'

/-- The part of a statement ends with all in order, or fails in one of these ways. -/
abbrev Accounted (host : Host) (depth : Nat) (places calls : List Location) {α : Type}
    (x : Script α) (m : Machine) : Prop :=
  Ends host x m (Stands calls m) (Breaks host depth places calls x m)

namespace Stands

variable {calls : List Location} {m m' m'' : Machine}

theorem self (ht : m.Trail) (hl : m.LastIn calls) : Stands calls m m :=
  ⟨ht, hl, rfl⟩

theorem trans (h : Stands calls m m') (h' : Stands calls m' m'') : Stands calls m m'' :=
  ⟨h'.trail, h'.last, h'.same.trans h.same⟩

theorem steady (h : Stands calls m m') (hs : m'.Steady m'') : Stands calls m m'' :=
  ⟨h.trail.of_steady hs, h.last.congr hs.log hs.calls, hs.calls.trans h.same⟩

end Stands

namespace Accounted

variable {host : Host} {depth : Nat} {places calls : List Location} {α β : Type} {m : Machine}

theorem silent {x : Script α} (h : Silent places x) (hm : Stands calls m m) :
    Accounted host depth places calls x m := by
  refine (h.ends host m).mono (fun _ hs => hm.steady hs) ?_
  rintro raised n e m' ⟨rfl, rfl, hplaced, hsteady⟩
  exact .own hplaced (hm.steady hsteady)

theorem bind {x : Script α} {f : α → Script β} (hx : Accounted host depth places calls x m)
    (hf : ∀ a m', Stands calls m' m' → Accounted host depth places calls (f a) m') :
    Accounted host depth places calls (x >>= f) m := by
  refine Ends.bind hx ?_ ?_
  · intro raised n e m' hb
    cases hb with
    | exhausted => exact .exhausted
    | own hp hn => exact .own hp hn
    | call hx hs hu => exact .call (.first hx) hs hu
  · intro a m' hr hm'
    refine (hf a m' (.self hm'.trail hm'.last)).mono (fun _ h => hm'.trans h) ?_
    intro raised n e m'' hb
    cases hb with
    | exhausted => exact .exhausted
    | own hp hn => exact .own hp (hm'.trans hn)
    | call hx hs hu => exact .call (.next hr hx) hs hu

theorem newObject (id : ClassId) (hm : Stands calls m m) :
    Accounted host depth places calls (perform (.newObject id)) m := by
  have htrail : Machine.Trail { m with store := (m.store.newObject id).1 } :=
    hm.trail.congr rfl rfl (le_refl _) fun _ _ => rfl
  exact .done rfl rfl ⟨htrail, hm.last.congr rfl rfl, rfl⟩

section

variable (hh : host.hooks = {})

include hh

theorem emit (event : Event) (hm : Stands calls m m) :
    Accounted host depth places calls (perform (.emit event)) m := by
  have htold : m.perform host (.emit event) = (.ok (), m) := Machine.emit_of_no_hooks hh event m
  exact .done htold (origin?_perform_of_ok htold) hm

theorem log (step : Step) {location : Location} (hc : location ∈ calls) (hm : Stands calls m m) :
    Accounted host depth places calls (perform (.log step (some location))) m := by
  have hlogged : m.perform host (.log step (some location)) =
      (.ok (), m.record host step (some location)) := Machine.logStep_of_no_hooks hh step _ m
  exact .done hlogged (origin?_perform_of_ok hlogged)
    ⟨hm.trail.record host step _, .record host m step hc, rfl⟩

end

end Accounted

/-! Bodies. -/

/-- How a body fails: for want of room, or in a statement. -/
inductive BodyBreaks (host : Host) (depth : Nat) (ss : List Statement) (m : Machine) :
    Raised → Machine → Raised → Machine → Prop
  | exhausted {e e' : RuntimeError} {n m' : Machine} :
      BodyBreaks host depth ss m (.exhausted e) n (.exhausted e') m'
  | statement {raised e : Raised} {n m' : Machine} {s : Statement}
      (hs : FailsIn host depth ss m s raised n) (hu : Unwound s raised n e m') :
      BodyBreaks host depth ss m raised n e m'

/-- What a body leaves: the trail is in order, and the calls are those of its start. -/
structure Returns (m m' : Machine) : Prop where
  trail : m'.Trail
  same : m'.store.calls = m.store.calls

section

variable {host : Host} {depth : Nat} {places calls : List Location} {m : Machine}
  (hh : host.hooks = {})
  (hb : ∀ ss m, m.Trail → Ends host (runBody depth ss) m (Returns m) (BodyBreaks host depth ss m))

include hh hb

namespace Accounted

theorem runMethod {location : Location} (hc : location ∈ calls) (hm : Stands calls m m)
    (kind : CallKind) (receiver : ObjectId) (method : Method) (args : List Value) :
    Accounted host depth places calls
      (runMethod (runBody depth) kind receiver method args (some location)) m := by
  have htrail := hm.trail.called host kind receiver method args location
  have hheader := Machine.header_called host m kind receiver method args (some location)
  have hsize : m.store.frames.size <
      (m.called host kind receiver method args (some location)).store.frames.size :=
    (Array.size_push (method.frame args (some location))).symm ▸ Nat.lt_succ_self _
  have hbody := (hb (method.body.getD []) _ htrail).and_run fun a m' hr =>
    (Evaluates.runBody depth _).extends m'.store (mem_stores.mpr (.inr (by rw [hr])))
  refine (runMethod_ends hh hbody).mono ?_ ?_
  · rintro _ ⟨m₁, ⟨hreturns, hextends⟩, rfl⟩
    have hplace : (m₁.store.frame m.store.frames.size).callLocation = some location :=
      congrArg Prod.snd ((hextends.header hsize).trans hheader)
    refine ⟨hreturns.trail.left hreturns.same, hreturns.trail.lastIn_left hreturns.same hc hplace, ?_⟩
    exact congrArg List.tail hreturns.same
  · rintro raised n _ _ ⟨e₁, m₁, hbreaks, rfl, rfl⟩
    cases hbreaks with
    | exhausted => exact .exhausted
    | statement hs hu => exact .call .refl hs hu.left

theorem construct {location : Location} (hp : location ∈ places) (hc : location ∈ calls)
    (hm : Stands calls m m) (id : ClassId) (member : String) (args : List Value) :
    Accounted host depth places calls
      (construct (runBody depth) id member args (some location)) m := by
  refine .bind (.silent (.actionHere hp rfl rfl) hm) ?_
  intro method m₁ hm₁
  refine .bind (.silent (.checkArity ?_ method args) hm₁) ?_
  · rintro l ⟨⟩
    exact hp
  intro _ m₂ hm₂
  refine .bind (.newObject id hm₂) ?_
  intro object m₃ hm₃
  refine .bind (.runMethod hh hb hc hm₃ .new object method args) ?_
  intro _ m₄ hm₄
  exact .silent (.pure _) hm₄

theorem invokeMethod {location : Location} (hp : location ∈ places) (hc : location ∈ calls)
    (hm : Stands calls m m) (receiver : ObjectId) (member : String) (args : List Value) :
    Accounted host depth places calls
      (invokeMethod (runBody depth) receiver member args (some location)) m := by
  refine .bind (.silent (.actionHere hp rfl rfl) hm) ?_
  intro found m₁ hm₁
  refine .bind (.silent (.checkArity ?_ found.1 args) hm₁) ?_
  · rintro l ⟨⟩
    exact hp
  intro _ m₂ hm₂
  exact .runMethod hh hb hc hm₂ found.2 receiver found.1 args

/-- By induction on how the part of a statement is put together. -/
theorem of_orderly {α : Type} {x : Script α} (hx : Orderly (runBody depth) places calls x)
    (hm : Stands calls m m) : Accounted host depth places calls x m := by
  induction hx generalizing m with
  | silent h => exact .silent h hm
  | andThen _ _ ihx ihf => exact .bind (ihx hm) fun a m' hm' => ihf a hm'
  | construct hp hc => exact .construct hh hb hp hc hm _ _ _
  | invokeMethod hp hc => exact .invokeMethod hh hb hp hc hm _ _ _
  | procedure _ texts h hc =>
    refine .bind (.emit hh _ hm) fun _ m₁ hm₁ => ?_
    refine .bind (.silent h hm₁) fun _ m₂ hm₂ => ?_
    refine .bind (.log hh _ hc hm₂) fun _ m₃ hm₃ => ?_
    exact .emit hh _ hm₃

end Accounted

/-- A statement: what fails in it by itself fails in this statement, and is placed there. -/
theorem execute_ends (s : Statement) (ss : List Statement) (hm : m.Trail) :
    Ends host (s.execute (runBody depth)) m (Returns m)
      (BodyBreaks host (depth + 1) (s :: ss) m) := by
  let start := m.record host (.statement s.form) (some s.location)
  have hlogged : m.perform host (.log (.statement s.form) (some s.location)) = (.ok (), start) :=
    Machine.logStep_of_no_hooks hh _ _ m
  have hstart : Stands s.callPlaces start start :=
    .self (hm.record host _ _) (.record host m _ s.location_mem_callPlaces)
  have heffect := Accounted.of_orderly hh hb (.effect s) hstart
  have hlocated : Ends host (s.execute (runBody depth)) m (Stands s.callPlaces start)
      fun raised n e m' => ∃ e₀, e = e₀.locate s.location ∧
        Breaks host depth s.places s.callPlaces (s.effect (runBody depth)) start raised n e₀ m' := by
    refine .bind_perform hlogged (heffect.mapError (Raised.locate s.location) ?_)
    intro raised n e m' hbreaks
    exact ⟨e, rfl, hbreaks⟩
  refine hlocated.with_origin.mono (fun m' h => ⟨h.trail, h.same⟩) ?_
  rintro raised n _ m' ⟨horigin, e, rfl, hbreaks⟩
  cases hbreaks with
  | exhausted => exact .exhausted
  | own hp hn =>
    have hcalls : n.store.calls = m.store.calls := hn.same
    exact .statement ⟨depth, m, .head, horigin, hcalls⟩ ⟨hp, hn.trail, hn.last, rfl, rfl, rfl⟩
  | call hx hs hu =>
    obtain ⟨d, k, hreaches, hfails⟩ := hs
    have hrun : (perform (.log (.statement s.form) (some s.location))).run host m =
        (.ok (), start) := hlogged
    have hsub := hx.mapError (Raised.locate s.location)
    exact .statement ⟨d, k, .call (.next hrun hsub) hreaches, hfails⟩ (hu.locate s.location)

end

/-- By induction on how deep calls may nest, and on the statements of a body. -/
theorem runBody_ends {host : Host} (hh : host.hooks = {}) (depth : Nat) (ss : List Statement)
    (m : Machine) (hm : m.Trail) :
    Ends host (runBody depth ss) m (Returns m) (BodyBreaks host depth ss m) := by
  induction depth generalizing ss m with
  | zero => exact .raised rfl rfl .exhausted
  | succ depth ih =>
    change Ends host (executeAll (runBody depth) ss) m _ _
    induction ss generalizing m with
    | nil => exact .pure () ⟨hm, rfl⟩
    | cons s ss ihss =>
      refine .bind_perform (Machine.emit_of_no_hooks hh _ m) ?_
      refine (execute_ends hh ih s ss hm).bind (fun _ _ _ _ h => h) ?_
      intro _ m₁ hr hm₁
      refine .bind_perform (Machine.emit_of_no_hooks hh _ m₁) ?_
      refine (ihss m₁ hm₁.trail).mono (fun m' h => ⟨h.trail, h.same.trans hm₁.same⟩) ?_
      intro raised n e m' hbreaks
      cases hbreaks with
      | exhausted => exact .exhausted
      | statement hs hu =>
        obtain ⟨d, k, hreaches, hfails⟩ := hs
        exact .statement ⟨d, k, .tail hr hreaches, hfails⟩ hu

end ObjectPascal
