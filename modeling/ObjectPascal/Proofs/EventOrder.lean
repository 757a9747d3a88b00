import ObjectPascal.Proofs.Extension

/-!
The order in which handlers are told of events. Statements and calls open and close like brackets:
between the two events of a statement lie those of the calls it makes, and between the two events of
a call those of the statements of the method. A run that fails leaves off somewhere in such a
sequence.
-/

namespace ObjectPascal

open Script

/-! Well-nested sequences. -/

/-- An event, and how many calls were active when it was told. -/
abbrev Signal := Event × Nat

mutual

/-- A statement opens, makes any number of calls, and closes. Events are told with `d` calls
active, and the methods that are called have `K`. -/
inductive StatementWord (K : Method → Prop) : Nat → Statement → List Signal → Prop
  | mk {d : Nat} (s : Statement) {calls : List (List Signal)}
      (h : ∀ w ∈ calls, CallWord K d w) :
      StatementWord K d s ((.beforeStatement s.form s.location.line, d) :: calls.flatten ++
        [(.afterStatement s.form s.location.line, d)])

/-- A call of a method holds its statements, one call deeper. A call of a procedure of the language
holds nothing. -/
inductive CallWord (K : Method → Prop) : Nat → List Signal → Prop
  | method {d : Nat} {w : List Signal} {m : Method} (hm : K m) (texts : List String)
      (result : String) (line : Option Nat) (h : BlockWord K (d + 1) (m.body.getD []) w) :
      CallWord K d ((.beforeCall m.qualifiedName texts line, d) :: w ++
        [(.afterCall m.qualifiedName result line, d)])
  | procedure {d : Nat} {name : String} (hn : (Builtin.ofName? name).isSome) (texts : List String)
      (result : String) (line : Option Nat) :
      CallWord K d [(.beforeCall name texts line, d), (.afterCall name result line, d)]

/-- The statements of a block in their order. -/
inductive BlockWord (K : Method → Prop) : Nat → List Statement → List Signal → Prop
  | nil {d : Nat} : BlockWord K d [] []
  | cons {d : Nat} {s : Statement} {ss : List Statement} {w w' : List Signal}
      (h : StatementWord K d s w) (h' : BlockWord K d ss w') : BlockWord K d (s :: ss) (w ++ w')

end

/-- Calls one after another. -/
def CallWords (K : Method → Prop) (d : Nat) (w : List Signal) : Prop :=
  ∃ calls : List (List Signal), (∀ u ∈ calls, CallWord K d u) ∧ w = calls.flatten

section

variable {K : Method → Prop} {d : Nat} {w w' : List Signal}

theorem CallWords.nil : CallWords K d [] :=
  ⟨[], List.forall_mem_nil _, rfl⟩

theorem CallWords.of_call (h : CallWord K d w) : CallWords K d w :=
  ⟨[w], List.forall_mem_singleton.mpr h, (List.append_nil w).symm⟩

theorem CallWords.append (h : CallWords K d w) (h' : CallWords K d w') :
    CallWords K d (w ++ w') := by
  obtain ⟨calls, hc, rfl⟩ := h
  obtain ⟨calls', hc', rfl⟩ := h'
  exact ⟨calls ++ calls', List.forall_mem_append.mpr ⟨hc, hc'⟩, List.flatten_append.symm⟩

/-- Whatever a block leaves undone can be done somehow. -/
theorem exists_blockWord (K : Method → Prop) (d : Nat) (ss : List Statement) :
    ∃ w, BlockWord K d ss w := by
  induction ss with
  | nil => exact ⟨[], .nil⟩
  | cons s ss ih =>
    obtain ⟨w, hw⟩ := ih
    exact ⟨_, .cons (.mk s (List.forall_mem_nil _)) hw⟩

end

/-! The events of a run. -/

/-- What an action tells the handlers. -/
def told : Machine × Action → Option Signal
  | (m, .emit event) => some (event, m.store.depth)
  | _ => none

namespace Script

variable {α β : Type} {host : Host}

/-- What a run tells the handlers, in order. -/
def events (host : Host) (x : Script α) (m : Machine) : List Signal :=
  (x.moments host m).filterMap told

theorem events_bind_of_ok {x : Script α} {f : α → Script β} {m m' : Machine} {a : α}
    (hr : x.run host m = (.ok a, m')) :
    (x >>= f).events host m = x.events host m ++ (f a).events host m' := by
  unfold events
  rw [moments_bind, hr, List.filterMap_append]

theorem events_bind_of_error {x : Script α} {f : α → Script β} {m m' : Machine} {e : Raised}
    (hr : x.run host m = (.error e, m')) : (x >>= f).events host m = x.events host m := by
  unfold events
  rw [moments_bind, hr, List.append_nil]

theorem events_mapError (x : Script α) (f : Raised → Raised) (m : Machine) :
    (x.mapError f).events host m = x.events host m :=
  congrArg (List.filterMap told) (moments_mapError x f m)

/-- Inside a call, what is told is what the inside tells. -/
theorem events_within (frame : FrameId) (receiver : ObjectId) (inside : Script Unit)
    (m : Machine) :
    (within frame receiver inside).events host m =
      inside.events host (m.entered frame receiver) := by
  unfold events
  rw [moments_within, List.filterMap_append]
  rcases inside.run host (m.entered frame receiver) with ⟨_ | _, m'⟩ <;> exact List.append_nil _

/-- A script that tells handlers nothing. -/
def Quiet (host : Host) (x : Script α) : Prop :=
  ∀ m, x.events host m = []

namespace Quiet

theorem pure (a : α) : Quiet host (Pure.pure a : Script α) :=
  fun _ => rfl

theorem perform {a : Action} (h : ∀ m, told (m, a) = none) : Quiet host (Script.perform a) := by
  intro m
  change [(m, a)].filterMap told = []
  rw [List.filterMap_cons_none (h m)]
  rfl

theorem bind {x : Script α} {f : α → Script β} (hx : Quiet host x)
    (hf : ∀ a, Quiet host (f a)) : Quiet host (x >>= f) := by
  intro m
  rcases hr : x.run host m with ⟨r, m'⟩
  cases r with
  | ok a => rw [events_bind_of_ok hr, hx m, hf a m']; rfl
  | error e => rw [events_bind_of_error hr, hx m]

theorem of_silent {places : List Location} {x : Script α} (h : Silent places x) :
    Quiet host x := by
  induction h with
  | done => exact fun _ => rfl
  | fail => exact fun _ => rfl
  | @perform a h =>
    refine .perform ?_
    intro m
    cases a <;> first | rfl | cases h
  | andThen _ _ ihx ihf => exact .bind ihx ihf

theorem checkArity (method : Method) (args : List Value) (location : Option Location) :
    Quiet host (checkArity method args location) := by
  unfold ObjectPascal.checkArity
  split
  · exact .pure _
  · exact fun _ => rfl

end Quiet

/-- A run tells all of a sequence with `W`, or fails before it is over. -/
inductive Tells (host : Host) (x : Script α) (m : Machine) (W : List Signal → Prop) : Prop
  | whole {a : α} {m' : Machine} (hr : x.run host m = (.ok a, m')) (h : W (x.events host m))
  | cut {e : Raised} {m' : Machine} {w : List Signal} (hr : x.run host m = (.error e, m'))
      (h : W w) (hp : x.events host m <+: w)

namespace Tells

variable {x : Script α} {f : α → Script β} {m : Machine} {W W' W'' : List Signal → Prop}

theorem mono (h : Tells host x m W) (hW : ∀ w, W w → W' w) : Tells host x m W' := by
  cases h with
  | whole hr h => exact .whole hr (hW _ h)
  | cut hr h hp => exact .cut hr (hW _ h) hp

theorem quiet (h : x.events host m = []) : Tells host x m (· = []) := by
  rcases hr : x.run host m with ⟨r, m'⟩
  cases r with
  | ok a => exact .whole hr h
  | error e => exact .cut hr h List.prefix_rfl

theorem emit (event : Event) : Tells host (perform (.emit event)) m
    (· = [(event, m.store.depth)]) := by
  rcases hr : (perform (.emit event)).run host m with ⟨r, m'⟩
  cases r with
  | ok a => exact .whole hr rfl
  | error e => exact .cut hr rfl List.prefix_rfl

/-- One script after another tells one sequence after another. If the first fails, the second is
left out, but something could have followed. -/
theorem bind (hx : Tells host x m W)
    (hf : ∀ a m', x.run host m = (.ok a, m') → Tells host (f a) m' W')
    (hmore : ∃ w, W' w) (hW : ∀ u v, W u → W' v → W'' (u ++ v)) :
    Tells host (x >>= f) m W'' := by
  cases hx with
  | @whole a m' hr h =>
    have hrun : (x >>= f).run host m = (f a).run host m' := by rw [run_bind, hr]
    have hevents := events_bind_of_ok (f := f) hr
    cases hf a m' hr with
    | whole hr' h' =>
      refine .whole (hrun.trans hr') ?_
      rw [hevents]
      exact hW _ _ h h'
    | cut hr' h' hp =>
      refine .cut (hrun.trans hr') (hW _ _ h h') ?_
      rw [hevents]
      exact (List.prefix_append_right_inj _).mpr hp
  | @cut e m' w hr h hp =>
    obtain ⟨v, hv⟩ := hmore
    have hrun : (x >>= f).run host m = (.error e, m') := by rw [run_bind, hr]
    refine .cut hrun (hW _ _ h hv) ?_
    rw [events_bind_of_error hr]
    exact hp.trans (List.prefix_append w v)

/-- After a script that tells nothing, it is up to what follows. -/
theorem after_quiet (hx : Quiet host x)
    (hf : ∀ a m', x.run host m = (.ok a, m') → Tells host (f a) m' W) (hmore : ∃ w, W w) :
    Tells host (x >>= f) m W := by
  refine (quiet (hx m)).bind hf hmore ?_
  rintro u v rfl hv
  exact hv

theorem mapError (g : Raised → Raised) (h : Tells host x m W) :
    Tells host (x.mapError g) m W := by
  cases h with
  | @whole a m' hr h =>
    have hrun : (x.mapError g).run host m = (.ok a, m') := by
      rw [run_mapError, hr]
      rfl
    refine .whole hrun ?_
    rw [events_mapError]
    exact h
  | @cut e m' w hr h hp =>
    have hrun : (x.mapError g).run host m = (.error (g e), m') := by
      rw [run_mapError, hr]
      rfl
    refine .cut hrun h ?_
    rw [events_mapError]
    exact hp

theorem within {frame : FrameId} {receiver : ObjectId} {inside : Script Unit}
    (h : Tells host inside (m.entered frame receiver) W) :
    Tells host (within frame receiver inside) m W := by
  cases h with
  | @whole a m' hr h =>
    have hrun : (ObjectPascal.within frame receiver inside).run host m = (.ok a, m'.left) := by
      rw [run_within, hr]
      rfl
    refine .whole hrun ?_
    rw [events_within]
    exact h
  | @cut e m' w hr h hp =>
    have hrun : (ObjectPascal.within frame receiver inside).run host m =
        (.error (e.capture m'.store.liveFrames), m'.left) := by
      rw [run_within, hr]
      rfl
    refine .cut hrun h ?_
    rw [events_within]
    exact hp

end Tells

end Script

/-! Calls. -/

/-- The method is one of a class. -/
def Store.Offers (s : Store) (method : Method) : Prop :=
  ∃ c ∈ s.classes, ∃ k e, c.methods.find? k = some e ∧ e.method = method

theorem Store.offers_of_classOf {s : Store} {id : ClassId} {k : Key} {method : Method}
    (h : ∃ e, (s.classOf id).methods.find? k = some e ∧ e.method = method) :
    s.Offers method := by
  obtain ⟨e, he, hmethod⟩ := h
  unfold classOf at he
  rw [Array.getD_eq_getD_getElem?] at he
  cases hc : s.classes[id]? with
  | none =>
    rw [hc] at he
    cases he
  | some c =>
    rw [hc] at he
    exact ⟨c, Array.mem_of_getElem? hc, k, e, he, hmethod⟩

/-- There are `d` active calls, and only methods with `K` can be called. -/
structure Machine.Ready (K : Method → Prop) (d : Nat) (m : Machine) : Prop where
  offers : ∀ method, m.store.Offers method → K method
  depth : m.store.depth = d

namespace Machine.Ready

variable {K : Method → Prop} {d : Nat} {host : Host} {m m' : Machine}

theorem congr (h : m.Ready K d) (hclasses : m'.store.classes = m.store.classes)
    (hcalls : m'.store.calls = m.store.calls) : m'.Ready K d := by
  refine ⟨?_, ?_⟩
  · intro method hoffers
    unfold Store.Offers at hoffers
    rw [hclasses] at hoffers
    exact h.offers method hoffers
  · unfold Store.depth
    rw [hcalls]
    exact h.depth

/-- Evaluation changes neither. -/
theorem run {α : Type} {x : Script α} (h : m.Ready K d) (hx : Evaluates x)
    {r : Except Raised α} (hr : x.run host m = (r, m')) : m'.Ready K d := by
  have hend : m'.store ∈ x.stores host m := mem_stores.mpr (.inr (by rw [hr]))
  have hbalanced : Balanced host x := balanced_of_nested (.of_evaluates hx)
  have hcalls := hbalanced.run m
  rw [hr] at hcalls
  exact h.congr (hx.extends _ hend).classes hcalls

theorem entered (h : m.Ready K d) (frame : FrameId) (receiver : ObjectId) :
    (m.entered frame receiver).Ready K (d + 1) :=
  ⟨h.offers, congrArg (· + 1) h.depth⟩

end Machine.Ready

/-- The event that closes a call of a method. -/
def Closes (method : Method) (line : Option Nat) (d : Nat) (w : List Signal) : Prop :=
  ∃ text, w = [(.afterCall method.qualifiedName text line, d)]

/-- What follows the event that opens a call of a method. -/
def Completes (K : Method → Prop) (method : Method) (line : Option Nat) (d : Nat)
    (w : List Signal) : Prop :=
  ∃ u v, BlockWord K (d + 1) (method.body.getD []) u ∧ Closes method line d v ∧ w = u ++ v

theorem exists_completes (K : Method → Prop) (method : Method) (line : Option Nat) (d : Nat) :
    ∃ w, Completes K method line d w := by
  obtain ⟨u, hu⟩ := exists_blockWord K (d + 1) (method.body.getD [])
  exact ⟨_, u, _, hu, ⟨"", rfl⟩, rfl⟩

theorem CallWord.of_completes {K : Method → Prop} {method : Method} {line : Option Nat} {d : Nat}
    {w : List Signal} (hk : K method) (h : Completes K method line d w) (texts : List String) :
    CallWord K d ((.beforeCall method.qualifiedName texts line, d) :: w) := by
  obtain ⟨u, v, hu, ⟨text, rfl⟩, rfl⟩ := h
  exact .method hk texts text line hu

namespace Script.Tells

variable {K : Method → Prop} {d : Nat} {host : Host}

theorem closes {m : Machine} (hm : m.Ready K d) (method : Method) (frame : FrameId)
    (line : Option Nat) :
    Tells host (do
      let result ← callResult method frame
      let text ← perform (.render result)
      perform (.emit (.afterCall method.qualifiedName text line))
      return result) m (Closes method line d) := by
  have hclose : ∃ w, Closes method line d w := ⟨_, "", rfl⟩
  have hsilent : Silent [] (callResult method frame) := .callResult method frame
  refine after_quiet (.of_silent hsilent) ?_ hclose
  intro result m₁ hr₁
  have hm₁ := hm.run (.of_silent hsilent) hr₁
  refine after_quiet (.perform fun _ => rfl) ?_ hclose
  intro text m₂ hr₂
  have hm₂ := hm₁.run (.perform rfl) hr₂
  refine (emit _).bind (fun _ _ _ => quiet rfl) ⟨[], rfl⟩ ?_
  rintro u v rfl rfl
  exact ⟨text, by rw [hm₂.depth, List.append_nil]⟩

variable {body : List Statement → Script Unit} (he : ∀ ss, Evaluates (body ss))
  (hb : ∀ d ss m, m.Ready K d → Tells host (body ss) m (BlockWord K d ss))

include he hb

theorem runMethod {m : Machine} (hm : m.Ready K d) {method : Method} (hk : K method)
    (kind : CallKind) (receiver : ObjectId) (args : List Value) (location : Option Location) :
    Tells host (runMethod body kind receiver method args location) m (CallWord K d) := by
  let line := location.map Location.line
  have hrest := exists_completes K method line d
  have hword : ∃ w, CallWord K d w := by
    obtain ⟨w, hw⟩ := hrest
    exact ⟨_, .of_completes hk hw []⟩
  refine after_quiet (.perform fun _ => rfl) ?_ hword
  intro frame m₁ hr₁
  have hm₁ := hm.run (.perform rfl) hr₁
  refine after_quiet (.of_silent (Silent.renderAll args : Silent [] _)) ?_ hword
  intro texts m₂ hr₂
  have hm₂ := hm₁.run (.renderAll args) hr₂
  refine after_quiet (.perform fun _ => rfl) ?_ hword
  intro _ m₃ hr₃
  have hm₃ := hm₂.run (.perform rfl) hr₃
  refine (emit _).bind ?_ hrest ?_
  · intro _ m₄ hr₄
    have hm₄ := hm₃.run (.perform rfl) hr₄
    have hinside := within (hb _ (method.body.getD []) _ (hm₄.entered frame receiver))
    refine hinside.bind ?_ ⟨_, "", rfl⟩ fun u v hu hv => ⟨u, v, hu, hv, rfl⟩
    intro _ m₅ hr₅
    have hm₅ := hm₄.run (.within (he _)) hr₅
    exact closes hm₅ method frame line
  · rintro u v rfl hv
    rw [hm₃.depth]
    exact .of_completes hk hv texts

theorem construct {m : Machine} (hm : m.Ready K d) (id : ClassId) (member : String)
    (args : List Value) (location : Option Location) :
    Tells host (construct body id member args location) m (CallWords K d) := by
  refine after_quiet (.perform fun _ => rfl) ?_ ⟨_, .nil⟩
  intro method m₁ hr₁
  have hm₁ := hm.run (.perform rfl) hr₁
  have hk : K method := by
    apply hm.offers
    have hfound := (Store.findConstructor_ok (faultAt_ok (congrArg Prod.fst hr₁))).2
    exact Store.offers_of_classOf hfound
  refine after_quiet (.checkArity method args location) ?_ ⟨_, .nil⟩
  intro _ m₂ hr₂
  have hm₂ := hm₁.run (.checkArity method args location) hr₂
  refine after_quiet (.perform fun _ => rfl) ?_ ⟨_, .nil⟩
  intro object m₃ hr₃
  have hm₃ : m₃.Ready K d := by
    cases hr₃
    exact hm₂.congr rfl rfl
  refine (runMethod he hb hm₃ hk .new object args location).bind (fun _ _ _ => quiet rfl) ⟨_, rfl⟩ ?_
  rintro u v hu rfl
  rw [List.append_nil]
  exact .of_call hu

theorem invokeMethod {m : Machine} (hm : m.Ready K d) (receiver : ObjectId) (member : String)
    (args : List Value) (location : Option Location) :
    Tells host (invokeMethod body receiver member args location) m (CallWords K d) := by
  refine after_quiet (.perform fun _ => rfl) ?_ ⟨_, .nil⟩
  rintro ⟨method, kind⟩ m₁ hr₁
  have hm₁ := hm.run (.perform rfl) hr₁
  have hk : K method := by
    apply hm.offers
    have hfound := (Store.findMethod_ok (faultAt_ok (congrArg Prod.fst hr₁))).2
    exact Store.offers_of_classOf hfound
  refine after_quiet (.checkArity method args location) ?_ ⟨_, .nil⟩
  intro _ m₂ hr₂
  have hm₂ := hm₁.run (.checkArity method args location) hr₂
  exact (runMethod he hb hm₂ hk kind receiver args location).mono fun w hw => .of_call hw

/-- By induction on how the part of a statement is put together: its calls come one after
another. -/
theorem of_orderly {α : Type} {places calls : List Location} {x : Script α}
    (hx : Orderly body places calls x) {m : Machine} (hm : m.Ready K d) :
    Tells host x m (CallWords K d) := by
  induction hx generalizing m with
  | silent h =>
    refine (quiet (Quiet.of_silent h m)).mono ?_
    rintro w rfl
    exact .nil
  | andThen hx _ ihx ihf =>
    refine (ihx hm).bind ?_ ⟨_, .nil⟩ fun u v hu hv => hu.append hv
    intro a m' hr
    exact ihf a (hm.run (.of_orderly he hx) hr)
  | construct => exact construct he hb hm _ _ _ _
  | invokeMethod => exact invokeMethod he hb hm _ _ _ _
  | @procedure inside procedure name location hn texts h hc =>
    let line := some location.line
    have hclose : ∃ w : List Signal, w = [(.afterCall name "nil" line, d)] := ⟨_, rfl⟩
    refine (emit _).bind ?_ hclose ?_
    · intro _ m₁ hr₁
      have hm₁ := hm.run (.perform rfl) hr₁
      refine after_quiet (.of_silent h) ?_ hclose
      intro _ m₂ hr₂
      have hm₂ := hm₁.run (.of_silent h) hr₂
      refine after_quiet (.perform fun _ => rfl) ?_ hclose
      intro _ m₃ hr₃
      have hm₃ := hm₂.run (.perform rfl) hr₃
      rw [← hm₃.depth]
      exact emit _
    · rintro u v rfl rfl
      have hname : (Builtin.ofName? name).isSome := by rw [hn]; rfl
      rw [hm.depth]
      exact .of_call (.procedure hname texts "nil" line)

theorem execute (s : Statement) {m : Machine} (hm : m.Ready K d) :
    Tells host (s.execute body) m (CallWords K d) := by
  refine after_quiet (.perform fun _ => rfl) ?_ ⟨_, .nil⟩
  intro _ m₁ hr₁
  have hm₁ := hm.run (.perform rfl) hr₁
  exact (of_orderly he hb (.effect s) hm₁).mapError _

theorem executeAll (ss : List Statement) {m : Machine} (hm : m.Ready K d) :
    Tells host (executeAll body ss) m (BlockWord K d ss) := by
  induction ss generalizing m with
  | nil => exact .whole rfl .nil
  | cons s ss ih =>
    let line := s.location.line
    -- the closing event of the statement, and the statements after it
    have hrest : ∃ w, ∃ v, BlockWord K d ss v ∧ w = (.afterStatement s.form line, d) :: v := by
      obtain ⟨v, hv⟩ := exists_blockWord K d ss
      exact ⟨_, v, hv, rfl⟩
    have hcalls : ∃ w, ∃ u v, CallWords K d u ∧ BlockWord K d ss v ∧
        w = u ++ (.afterStatement s.form line, d) :: v := by
      obtain ⟨v, hv⟩ := exists_blockWord K d ss
      exact ⟨_, [], v, .nil, hv, rfl⟩
    refine (emit _).bind ?_ hcalls ?_
    · intro _ m₁ hr₁
      have hm₁ := hm.run (.perform rfl) hr₁
      refine (execute he hb s hm₁).bind ?_ hrest ?_
      · intro _ m₂ hr₂
        have hm₂ := hm₁.run (.execute he s) hr₂
        refine (emit _).bind ?_ (exists_blockWord K d ss) ?_
        · intro _ m₃ hr₃
          exact ih (hm₂.run (.perform rfl) hr₃)
        · rintro u v rfl hv
          exact ⟨v, hv, by rw [hm₂.depth]; rfl⟩
      · rintro u w hu ⟨v, hv, rfl⟩
        exact ⟨u, v, hu, hv, rfl⟩
    · rintro u w rfl ⟨u', v, ⟨calls, hu', rfl⟩, hv, rfl⟩
      rw [hm.depth]
      have hword := BlockWord.cons (.mk s hu') hv
      rw [List.append_assoc] at hword
      exact hword

end Script.Tells

/-- By induction on how deep calls may nest. -/
theorem Script.Tells.runBody {K : Method → Prop} {host : Host} (depth : Nat) {d : Nat}
    (ss : List Statement) {m : Machine} (hm : m.Ready K d) :
    Tells host (runBody depth ss) m (BlockWord K d ss) := by
  induction depth generalizing d ss m with
  | zero =>
    obtain ⟨w, hw⟩ := exists_blockWord K d ss
    exact .cut rfl hw (List.nil_prefix)
  | succ depth ih => exact executeAll (.runBody depth) (fun d ss m hm => ih ss hm) ss hm

/-! Whole programs. -/

theorem Script.Quiet.of_declares {α : Type} {x : Script α} (h : Declares x) {host : Host} :
    Quiet host x := by
  induction h with
  | done => exact fun _ => rfl
  | fail => exact fun _ => rfl
  | @perform a h =>
    refine .perform ?_
    intro m
    cases a <;> first | rfl | cases h
  | log => exact .perform fun _ => rfl
  | andThen _ _ ihx ihf => exact .bind ihx ihf

theorem Script.Tells.congr {α : Type} {host : Host} {x y : Script α} {m : Machine}
    {W : List Signal → Prop} (h : Tells host x m W) (hrun : y.run host m = x.run host m)
    (hmoments : y.moments host m = x.moments host m) : Tells host y m W := by
  have hevents : y.events host m = x.events host m := congrArg (List.filterMap told) hmoments
  cases h with
  | whole hr h =>
    rw [← hevents] at h
    exact .whole (hrun.trans hr) h
  | cut hr h hp =>
    rw [← hevents] at hp
    exact .cut (hrun.trans hr) h hp

/-- The declarations tell nothing, and the main block its statements. -/
theorem Script.Tells.effect (host : Host) (depth : Nat) (p : Program) (m : Machine) :
    Tells host (p.effect depth) m (BlockWord ((p.effect depth).run host m).2.store.Offers
      m.store.depth p.block.statements) := by
  have hrun := Program.run_effect host depth p m
  refine Tells.congr ?_ hrun (Program.moments_effect host depth p m)
  refine after_quiet (.of_declares p.declares_declare) ?_ (exists_blockWord _ _ _)
  intro _ m₁ hr₁
  have hmain : Evaluates (p.main depth) := .executeAll (.runBody depth) _
  have hend : ((p.effect depth).run host m).2.store ∈ (p.main depth).stores host m₁ := by
    rw [hrun, run_bind, hr₁]
    exact mem_stores.mpr (.inr rfl)
  have hcalls := (balanced_of_nested (.of_declares p.declares_declare) : Balanced host _).run m
  rw [hr₁] at hcalls
  have hready : m₁.Ready ((p.effect depth).run host m).2.store.Offers m.store.depth := by
    refine ⟨?_, congrArg List.length hcalls⟩
    intro method hoffers
    unfold Store.Offers
    rw [(hmain.extends _ hend).classes]
    exact hoffers
  exact runBody (depth + 1) p.block.statements hready

/-- Whether or not a handler fails when told, it is told; the script after it fails anyway. -/
theorem Script.tell_bind_fails {α : Type} {host : Host} {event : Event} {x : Script Unit}
    {f : Unit → Script α} {m : Machine} (hx : x.events host m = [(event, m.store.depth)])
    (hm : (x.run host m).2 = (m.emit host event).2) (hq : ∀ a, Quiet host (f a))
    (hf : ∀ a m, ∃ e, (f a).run host m = (.error e, m)) :
    ∃ e, (x >>= f).events host m = [(event, m.store.depth)] ∧
      (x >>= f).run host m = (.error e, (m.emit host event).2) := by
  rw [← hm]
  rcases hr : x.run host m with ⟨r, m'⟩
  cases r with
  | ok a =>
    obtain ⟨e, he⟩ := hf a m'
    refine ⟨e, ?_, ?_⟩
    · rw [events_bind_of_ok hr, hq a m', hx]
      rfl
    · rw [run_bind_of_ok hr, he]
  | error e =>
    refine ⟨e, ?_, ?_⟩
    · rw [events_bind_of_error hr, hx]
    · rw [run_bind, hr]

/-- The report of a failure tells of it once, does nothing else, and fails. -/
theorem report_tells (host : Host) (raised : Raised) (m : Machine) :
    ∃ told e, (Program.report raised).events host m = [(.onError told, m.store.depth)] ∧
      (Program.report raised).run host m = (.error e, (m.emit host (.onError told)).2) := by
  unfold Program.report
  cases raised with
  | runtime error =>
    dsimp only
    rw [events_bind_of_ok (run_liveFrames host m), events_bind_of_ok (run_lastStep host m),
      run_bind_of_ok (run_liveFrames host m), run_bind_of_ok (run_lastStep host m)]
    exact ⟨_, tell_bind_fails rfl rfl (fun _ _ => rfl) fun _ _ => ⟨_, rfl⟩⟩
  | host fault =>
    refine ⟨_, tell_bind_fails rfl rfl (fun _ => ?_) fun _ m₁ => ?_⟩
    · exact .bind (.perform fun _ => rfl) fun _ => .bind (.perform fun _ => rfl) fun _ _ => rfl
    · rw [run_bind_of_ok (run_liveFrames host m₁), run_bind_of_ok (run_lastStep host m₁)]
      exact ⟨_, rfl⟩
  | exhausted error =>
    refine ⟨_, tell_bind_fails (events_mapError _ _ m) ?_ (fun _ => ?_) fun _ m₁ => ?_⟩
    · rw [run_mapError]
      rfl
    · exact .bind (.perform fun _ => rfl) fun _ => .bind (.perform fun _ => rfl) fun _ _ => rfl
    · rw [run_bind_of_ok (run_liveFrames host m₁), run_bind_of_ok (run_lastStep host m₁)]
      exact ⟨_, rfl⟩

/-- What is left to do once the declarations and the main block are over. -/
def Program.conclude : Except Raised Unit → Script Unit
  | .ok () => perform (.emit .programEnd)
  | .error raised => report raised

theorem Program.execute_eq (depth : Nat) (p : Program) :
    p.execute depth =
      perform (.emit (.programStart p.name)) >>= fun _ => (p.effect depth).attempt >>= conclude :=
  rfl

/-- A run whose start is told: what the effect does comes between the start and the conclusion. -/
theorem Program.execute_of_start {host : Host} {depth : Nat} {p : Program} {m m₁ m₂ : Machine}
    {r : Except Raised Unit}
    (hstart : (perform (.emit (.programStart p.name))).run host m = (.ok (), m₁))
    (hr : (p.effect depth).run host m₁ = (r, m₂)) :
    (p.execute depth).events host m = (.programStart p.name, m.store.depth) ::
        (p.effect depth).events host m₁ ++ (conclude r).events host m₂ ∧
      (p.execute depth).run host m = (conclude r).run host m₂ ∧
      ∀ x ∈ (conclude r).moments host m₂, x ∈ (p.execute depth).moments host m := by
  have hattempt : (p.effect depth).attempt.run host m₁ = (.ok r, m₂) := by rw [run_attempt, hr]
  rw [Program.execute_eq]
  refine ⟨?_, ?_, ?_⟩
  · rw [events_bind_of_ok hstart, events_bind_of_ok hattempt]
    rfl
  · rw [run_bind_of_ok hstart, run_bind_of_ok hattempt]
  · intro x hx
    refine mem_moments_bind.mpr (.inr ⟨(), m₁, hstart, ?_⟩)
    exact mem_moments_bind.mpr (.inr ⟨r, m₂, hattempt, hx⟩)

/-- Handlers that are told of an event make no methods. -/
theorem offers_emit (host : Host) (event : Event) (m : Machine) :
    (m.emit host event).2.store.Offers = m.store.Offers := by
  have hextends : m.store.Extends (m.perform host (.emit event)).2.store :=
    Machine.perform_extends rfl
  funext method
  unfold Store.Offers
  rw [show (m.emit host event).2.store.classes = m.store.classes from hextends.classes]

/-- The events of a whole run, if no handler fails when it is told of one: first the start of the
program, last its end or its failure, and between them the statements of the main block, as far as
they are executed. -/
theorem event_protocol (host : Host) (m : Machine) (p : Program) (depth : Nat)
    (hooks : ∀ n event, (n, .emit event) ∈ (p.execute depth).moments host m →
      (n.emit host event).1 = .ok ()) :
    ∃ w last, (p.execute depth).events host m =
        (.programStart p.name, m.store.depth) :: w ++ [(last, m.store.depth)] ∧
      match (p.execute depth).run host m with
      | (.ok _, m') => last = .programEnd ∧
        BlockWord m'.store.Offers m.store.depth p.block.statements w
      | (.error _, m') => (∃ raised, last = .onError raised) ∧
        ∃ whole, BlockWord m'.store.Offers m.store.depth p.block.statements whole ∧ w <+: whole := by
  obtain ⟨m₁, hstart⟩ : ∃ m₁, (perform (.emit (.programStart p.name))).run host m = (.ok (), m₁) := by
    have hok := hooks m _ (mem_moments_bind.mpr (.inl List.mem_cons_self))
    exact ⟨_, Prod.ext hok rfl⟩
  have hdepth₁ : m₁.store.depth = m.store.depth := by
    have hcalls := Machine.perform_calls host m (.emit (.programStart p.name)) rfl
    rw [show m.perform host (.emit (.programStart p.name)) = (.ok (), m₁) from hstart] at hcalls
    exact congrArg List.length hcalls
  have htells := Tells.effect host depth p m₁
  have hbalanced := (balanced_of_nested (.programEffect depth p) : Balanced host _).run m₁
  rcases hr : (p.effect depth).run host m₁ with ⟨r, m₂⟩
  rw [hr, hdepth₁] at htells
  rw [hr] at hbalanced
  have hdepth₂ : m₂.store.depth = m.store.depth := (congrArg List.length hbalanced).trans hdepth₁
  obtain ⟨hevents, hrun, hmoments⟩ := Program.execute_of_start hstart hr
  refine ⟨(p.effect depth).events host m₁, ?_⟩
  cases htells with
  | whole hr' hword =>
    rw [hr] at hr'
    cases hr'
    -- the main block is over, and the handlers of the end do not fail either
    have hok : (m₂.emit host .programEnd).1 = .ok () :=
      hooks m₂ _ (hmoments _ List.mem_cons_self)
    have hend : (Program.conclude (.ok ())).run host m₂ =
        (.ok (), (m₂.emit host .programEnd).2) := Prod.ext hok rfl
    refine ⟨.programEnd, ?_, ?_⟩
    · rw [hevents, ← hdepth₂]
      rfl
    · rw [hrun, hend]
      dsimp only
      rw [offers_emit]
      exact ⟨rfl, hword⟩
  | @cut raised _ whole hr' hword hprefix =>
    rw [hr] at hr'
    cases hr'
    obtain ⟨told, e, htold, hfails⟩ := report_tells host raised m₂
    refine ⟨.onError told, ?_, ?_⟩
    · rw [hevents, ← hdepth₂]
      exact congrArg (_ ++ ·) htold
    · rw [hrun, show (Program.conclude (.error raised)).run host m₂ = _ from hfails]
      dsimp only
      rw [offers_emit]
      exact ⟨⟨told, rfl⟩, whole, hword, hprefix⟩

/-- A program that makes an object, whose constructor writes a number. -/
def Program.herald : Program where
  location := default
  name := some "Herald"
  classes := some ⟨default,
    [⟨default, "THerald", [.member (.method ⟨default, .constructor, "Create", [], none⟩)]⟩]⟩
  vars := none
  methods := some ⟨default,
    [⟨default, .constructor, "THerald", "Create", [], none,
        ⟨default, [.procedureCall default "writeln" [.literal default 1]]⟩⟩]⟩
  block := ⟨default, [.methodCall default "THerald" "Create" []]⟩

/-- Surroundings with a handler that notes every call. -/
def Host.listening : Host where
  hooks := { subscriptions := [(.beforeCall, [{ handler := ⟨0, fun count _ _ => note count⟩ }])] }
where
  note (count : Nat) : Reaction := { observations := [.line (toString count)] }

/-- The calls are told with the handler listening, the inner one between the events of the outer. -/
theorem event_protocol_herald :
    let run := (Program.herald.execute 1).run .listening {}
    (∀ n event, (n, .emit event) ∈ (Program.herald.execute 1).moments .listening {} →
      (n.emit .listening event).1 = .ok ()) ∧
    ∃ w last, (Program.herald.execute 1).events .listening {} =
        (.programStart "Herald", 0) :: w ++ [(last, 0)] ∧
      last = .programEnd ∧ BlockWord run.2.store.Offers 0 Program.herald.block.statements w := by
  have hok : ((Program.herald.execute 1).run .listening {}).1 = .ok () := rfl
  have hooks : ∀ n event, (n, .emit event) ∈ (Program.herald.execute 1).moments .listening {} →
      (n.emit .listening event).1 = .ok () := by
    intro n event _
    cases event <;> rfl
  obtain ⟨w, last, hevents, hlast⟩ := event_protocol .listening {} Program.herald 1 hooks
  generalize (Program.herald.execute 1).run .listening {} = run at hok hlast
  obtain ⟨result, m'⟩ := run
  subst hok
  exact ⟨hooks, w, last, hevents, hlast⟩

end ObjectPascal
