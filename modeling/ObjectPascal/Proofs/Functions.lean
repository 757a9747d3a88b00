import ObjectPascal.Proofs.Results

/-!
What a function gives: the value that its statements assigned or read last to its name.
-/

namespace ObjectPascal

open Script

/-! The statements of a body. -/

/-- The value that is given to the name `own` when operands are read into. -/
def readGift? (own : Option Key) (input : Input) : List Expr → Option Value
  | [.ref d] =>
    if d.selectors = [] ∧ own = some (Key.of d.base) then
      input.nextWord.1.toOption.join.map fun word => .int (Text.signedValue word.toList)
    else none
  | _ => none

/-- The value that a statement assigns or reads, if it is to the name `own`: `m` is the machine that
the statement has its effect on. -/
def Statement.gift? (host : Host) (body : List Statement → Script Unit) (own : Option Key)
    (m : Machine) : Statement → Option Value
  | .assignment _ target value =>
    if target.selectors = [] ∧ own = some (Key.of target.base) then
      ((evaluate body value).run host m).1.toOption
    else none
  | .procedureCall _ name operands =>
    if Builtin.ofName? name = some .readln then readGift? own m.input operands else none
  | .methodCall .. | .bare _ => none

/-- The values that statements assign or read to the name, in order. -/
def gifts (host : Host) (body : List Statement → Script Unit) (own : Option Key)
    (ts : List (Machine × Statement)) : List Value :=
  ts.filterMap fun t => t.2.gift? host body own t.1

/-- Statements that are executed one after another, each with the machine that it has its effect on:
handlers are told of the statement, the step is logged, the statement has its effect, and handlers
are told again. -/
inductive Course (host : Host) (body : List Statement → Script Unit) :
    Machine → List (Machine × Statement) → Machine → Prop
  | nil (m : Machine) : Course host body m [] m
  | cons {m m₁ k k' m₂ m' : Machine} {s : Statement} {ts : List (Machine × Statement)}
      (hbefore : m.emit host (.beforeStatement s.form s.location.line) = (.ok (), m₁))
      (hlog : m₁.logStep host (.statement s.form) (some s.location) = (.ok (), k))
      (heffect : (s.effect body).run host k = (.ok (), k'))
      (hafter : k'.emit host (.afterStatement s.form s.location.line) = (.ok (), m₂))
      (h : Course host body m₂ ts m') : Course host body m ((k, s) :: ts) m'

/-- A frame that is there, and is the innermost; in it, the name `own` stands for the result. -/
structure Machine.RunsIn (m : Machine) (f : FrameId) (own : Option Key) : Prop where
  there : f < m.store.frames.size
  innermost : m.store.innermost.frame = f
  own : (m.store.frame f).own? = own

namespace Script

variable {α β : Type} {host : Host} {f : FrameId} {own : Option Key} {m : Machine}
  {vs : List Value}

theorem run_bind_ok {x : Script α} {g : α → Script β} {b : β} {m' : Machine}
    (h : (x >>= g).run host m = (.ok b, m')) :
    ∃ a k, x.run host m = (.ok a, k) ∧ (g a).run host k = (.ok b, m') := by
  obtain ⟨a, k, hx, hg⟩ | ⟨e, k, -, hg⟩ := run_bind_cases host x g m
  · exact ⟨a, k, hx, hg.symm.trans h⟩
  · cases hg.symm.trans h

theorem run_of_mapError {x : Script α} {g : Raised → Raised} {a : α} {m' : Machine}
    (h : (x.mapError g).run host m = (.ok a, m')) : x.run host m = (.ok a, m') := by
  rw [run_mapError] at h
  rcases hx : x.run host m with ⟨_ | _, k⟩
  · rw [hx] at h
    cases h
  · rw [hx] at h
    exact h

/-- After a script that ends the calls that it starts, the same frame is the innermost. -/
theorem Balanced.runsIn {x : Script α} (hx : Balanced host x) (hm : m.RunsIn f own)
    {r : Except Raised α} {k : Machine} (hr : x.run host m = (r, k)) : k.RunsIn f own := by
  have hcalls := hx.run m
  have hframes := x.frames_le host m
  have hown := x.run_own? host hm.there
  rw [hr] at hcalls hframes hown
  refine ⟨Nat.lt_of_lt_of_le hm.there hframes, ?_, hown.trans hm.own⟩
  rw [← hm.innermost]
  unfold Store.innermost
  rw [hcalls]

/-- If the script ends well, these are the values that it gives a frame. -/
def Gives (host : Host) (f : FrameId) (own : Option Key) (x : Script α) (m : Machine)
    (vs : List Value) : Prop :=
  ∀ a m', x.run host m = (.ok a, m') → (x.moments host m).filterMap (given? f own) = vs

namespace Gives

theorem of_spares {x : Script α} (hx : Spares host True x) (hm : m.RunsIn f own) :
    x.Gives host f own m [] :=
  fun _ _ _ => hx.none_given m f own hm.there fun _ => trivial

theorem fault (location : Option Location) (c : Cause) :
    (Script.fault location c : Script α).Gives host f own m vs :=
  fun _ _ hr => nomatch hr

theorem bind {x : Script α} {g : α → Script β} {us : List Value}
    (hx : x.Gives host f own m us)
    (hg : ∀ a k, x.run host m = (.ok a, k) → (g a).Gives host f own k vs) :
    (x >>= g).Gives host f own m (us ++ vs) := by
  intro b m' hr
  obtain ⟨a, k, hxr, hgr⟩ := run_bind_ok hr
  rw [filterMap_moments_bind, hx a k hxr, hxr]
  exact congrArg (us ++ ·) (hg a k hxr b m' hgr)

/-- After a script that gives nothing. -/
theorem after {x : Script α} {g : α → Script β} (hx : Spares host True x) (hm : m.RunsIn f own)
    (hg : ∀ a k, x.run host m = (.ok a, k) → k.RunsIn f own → (g a).Gives host f own k vs) :
    (x >>= g).Gives host f own m vs := by
  have hnone : x.Gives host f own m [] := of_spares hx hm
  exact bind hnone fun a k hk => hg a k hk (hx.runsIn hm hk)

/-- Before scripts that give nothing. -/
theorem before {x : Script α} {g : α → Script β} (hx : x.Gives host f own m vs)
    (hb : Balanced host x) (hm : m.RunsIn f own) (hg : ∀ a, Spares host True (g a)) :
    (x >>= g).Gives host f own m vs := by
  rw [← List.append_nil vs]
  exact bind hx fun a k hk => of_spares (hg a) (hb.runsIn hm hk)

theorem mapError {x : Script α} (g : Raised → Raised) (hx : x.Gives host f own m vs) :
    (x.mapError g).Gives host f own m vs := by
  intro a m' hr
  have hxr := run_of_mapError hr
  unfold Script.mapError
  rw [filterMap_moments_bind, moments_attempt, hx a m' hxr, run_attempt, hxr]
  exact List.append_nil vs

/-- Assigning in the frame gives it the value if it is the name that stands for the result. -/
theorem assign (name : String) (v : Value) (hm : m.RunsIn f own) :
    (perform (.assign name v)).Gives host f own m
      (if own = some (Key.of name) then some v else none).toList := by
  intro _ _ _
  rw [moments_perform]
  by_cases hown : own = some (Key.of name) <;> simp [given?, hm.innermost, hown]

theorem readInto (name : String) (location : Location) (hm : m.RunsIn f own) :
    (readInto name location).Gives host f own m
      (readGift? own m.input [.ref ⟨location, name, []⟩]).toList := by
  refine after (.perform rfl rfl) hm fun word k hword hk => ?_
  have hinput : m.input.nextWord.1 = .ok word := Machine.nextWord_ok hword
  cases word with
  | none => exact fault _ _
  | some word =>
    dsimp only
    split
    · exact fault _ _
    split
    · exact fun _ _ hr => nomatch hr
    split
    · refine after (.perform rfl rfl) hk fun _ k' _ hk' => ?_
      have hgift : readGift? own m.input [.ref ⟨location, name, []⟩] =
          if own = some (Key.of name) then some (.int (Text.signedValue word.toList))
          else none := by
        unfold readGift?
        rw [hinput]
        by_cases hown : own = some (Key.of name) <;> simp [hown, Except.toOption]
      rw [hgift]
      exact assign name _ hk'
    · exact fault _ _

theorem readln (operand : Expr) (location : Location) (hm : m.RunsIn f own) :
    (readln operand location).Gives host f own m (readGift? own m.input [operand]).toList := by
  unfold ObjectPascal.readln
  split
  · next d =>
    split
    · next hnone =>
      have hd : readGift? own m.input [.ref d] =
          readGift? own m.input [.ref ⟨location, d.base, []⟩] := by
        unfold readGift?
        simp [List.isEmpty_iff.mp hnone]
      rw [hd]
      exact readInto d.base location hm
    · exact fault _ _
  · exact fault _ _

theorem invokeBuiltin (name : String) (args : List Value) (operands : List Expr)
    (location : Location) (hm : m.RunsIn f own) :
    (invokeBuiltin name args operands location).Gives host f own m
      (if Builtin.ofName? name = some .readln then readGift? own m.input operands
        else none).toList := by
  unfold ObjectPascal.invokeBuiltin
  split
  · exact fault _ _
  · next hn =>
    rw [if_neg (by rw [hn]; exact nofun)]
    exact of_spares (.bind (.writeAll _) fun _ => .perform rfl rfl) hm
  · next hn =>
    rw [if_pos hn]
    split
    · exact readln _ location hm
    · exact fault _ _

end Gives

end Script

section

variable {host : Host} {body : List Statement → Script Unit} (hb : ∀ ss, Evaluates (body ss))
  (hs : ∀ ss, Spares host False (body ss)) {f : FrameId} {own : Option Key} {m m' : Machine}

include hb hs

/-- A statement that is executed in a frame gives it what it assigns or reads to the name of its
result, and nothing else. -/
theorem Statement.gives_effect (s : Statement) (hm : m.RunsIn f own) :
    (s.effect body).Gives host f own m (s.gift? host body own m).toList := by
  cases s with
  | assignment location target value =>
    refine .after (.evaluate hb hs value) hm fun v k hv hk => ?_
    have hgift : gift? host body own m (.assignment location target value) =
        if target.selectors = [] ∧ own = some (Key.of target.base) then some v else none := by
      change (if _ then ((evaluate body value).run host m).1.toOption else none) = _
      rw [hv]
      rfl
    rw [hgift]
    unfold writeDesignator
    split
    · next hnone =>
      simp only [hnone, true_and]
      exact .assign target.base v hk
    · next hfield =>
      rw [if_neg fun h => by rw [hfield] at h; cases h.1]
      exact .of_spares (.bind (.resolveObject _ _) fun _ => .perform rfl rfl) hk
    · exact .fault _ _
  | methodCall location left member args =>
    exact .of_spares (.bind (.evaluateAll hb hs args) fun vs =>
      .bind (.callMember hb hs location left member vs) fun _ => .pure _) hm
  | procedureCall location name args =>
    change (callProcedure body location name args).Gives host f own m _
    unfold callProcedure
    cases hn : Builtin.ofName? name with
    | none => exact .fault _ _
    | some procedure =>
      have hoperands : Spares host True (operandValues body procedure args) := by
        cases procedure with
        | writeln => exact .evaluateAll hb hs args
        | readln => exact .pure _
      refine .after hoperands hm fun vs k₁ hr₁ hk₁ => ?_
      refine .after (.renderAll vs) hk₁ fun texts k₂ hr₂ hk₂ => ?_
      refine .after (.perform rfl rfl) hk₂ fun _ k₃ hr₃ hk₃ => ?_
      have hgift : gift? host body own m (.procedureCall location name args) =
          if Builtin.ofName? name = some .readln then readGift? own k₃.input args else none := by
        change (if _ then readGift? own m.input args else none) = _
        rw [hn]
        cases procedure with
        | writeln => rfl
        | readln =>
          -- no operand is evaluated, and handlers do not read
          cases hr₁
          cases (renderAll_ends host m []).1.symm.trans hr₂
          have htold := congrArg (fun r => r.2.input) hr₃
          have hinput : k₃.input = m.input := htold.symm.trans (Machine.notifyAll_input _ _ _)
          rw [hinput]
      rw [hgift]
      have hbalanced : Balanced host (invokeBuiltin name vs args location) :=
        balanced_of_nested (.of_evaluates (.of_silent
          (Silent.invokeBuiltin List.mem_cons_self name vs args : Silent [location] _)))
      exact .before (.invokeBuiltin name vs args location hk₃) hbalanced hk₃ fun _ =>
        .bind (.perform rfl rfl) fun _ => .perform rfl rfl
  | bare location => exact .fault _ _

/-- A body that runs to its end executes all of its statements, and gives its frame what they
give. -/
theorem executeAll_course {ss : List Statement} (hm : m.RunsIn f own)
    (hr : (executeAll body ss).run host m = (.ok (), m')) :
    ∃ ts, Course host body m ts m' ∧ ts.map Prod.snd = ss ∧ (∀ t ∈ ts, t.1.RunsIn f own) ∧
      ((executeAll body ss).moments host m).filterMap (given? f own) = gifts host body own ts := by
  induction ss generalizing m with
  | nil =>
    cases hr
    exact ⟨[], .nil _, rfl, nofun, rfl⟩
  | cons s ss ih =>
    have hlogs {step : Step} {location : Option Location} :
        Spares host True (perform (.log step location)) := .perform rfl rfl
    have htells {event : Event} : Spares host True (perform (.emit event)) :=
      .perform rfl rfl
    have hbalanced : Balanced host (s.effect body) :=
      balanced_of_nested (.of_evaluates (.of_orderly hb (.effect s)))
    obtain ⟨_, m₁, hbefore, hr'⟩ := run_bind_ok hr
    obtain ⟨_, k', hexecute, hr'⟩ := run_bind_ok hr'
    obtain ⟨_, m₂, hafter, hrest⟩ := run_bind_ok hr'
    obtain ⟨_, k, hlog, heffect⟩ := run_bind_ok hexecute
    have hm₁ := htells.runsIn hm hbefore
    have hk := hlogs.runsIn hm₁ hlog
    have hk' := hbalanced.runsIn hk (run_of_mapError heffect)
    have hm₂ := htells.runsIn hk' hafter
    obtain ⟨ts, hcourse, hts, hruns, hgiven⟩ := ih hm₂ hrest
    have hgives : (executeAll body (s :: ss)).Gives host f own m
        ((s.gift? host body own k).toList ++ gifts host body own ts) := by
      refine .after htells hm fun _ _ hr₁ hm₁ => ?_
      cases hbefore.symm.trans hr₁
      refine .bind ?_ fun _ _ hr₂ => ?_
      · refine .after hlogs hm₁ fun _ _ hr₃ hk => ?_
        cases hlog.symm.trans hr₃
        exact .mapError _ (s.gives_effect hb hs hk)
      · cases hexecute.symm.trans hr₂
        refine .after htells hk' fun _ _ hr₄ hm₂ => ?_
        cases hafter.symm.trans hr₄
        exact fun _ _ _ => hgiven
    refine ⟨(k, s) :: ts, .cons hbefore hlog (run_of_mapError heffect) hafter hcourse, ?_, ?_, ?_⟩
    · rw [List.map_cons, hts]
    · exact List.forall_mem_cons.mpr ⟨hk, hruns⟩
    · rw [hgives _ _ hr, gifts, gifts, List.filterMap_cons]
      cases s.gift? host body own k <;> rfl

end

/-! Calls. -/

/-- The name that stands for the result, in a function. -/
def Method.own? (m : Method) : Option Key :=
  if m.isFunction then some (Key.of m.name) else none

/-- How a call of `m` went that gives `v`: what is in its body is done in the frame `f`, from the
machine `b` to the machine `e`, statement by statement. -/
structure CompletedCall (host : Host) (depth : Nat) (m : Method) (f : FrameId)
    (moments : List (Machine × Action)) (b : Machine) (ts : List (Machine × Statement))
    (e : Machine) (v : Value) : Prop where
  course : Course host (runBody depth) b ts e
  /-- All statements of the body are executed, in the frame. -/
  statements : ts.map Prod.snd = m.body.getD []
  runs : ∀ t ∈ ts, t.1.RunsIn f m.own?
  /-- The last of them that assigns or reads to the name of the function makes the result. -/
  value : v =
    if m.isFunction then (gifts host (runBody depth) m.own? ts).getLast?.getD (.int 0) else .nil
  /-- What is assigned to that name in the frame is what these statements assign or read. -/
  given : moments.filterMap (given? f m.own?) = gifts host (runBody depth) m.own? ts
  /-- Such an assignment records the value in the frame, and does nothing else. -/
  records : ∀ p name w, (p, Action.assign name w) ∈ moments → p.store.innermost.frame = f →
    m.own? = some (Key.of name) → p.perform host (.assign name w) =
      (.ok (), { p with store := p.store.updateFrame f (·.recordResult w) })
  /-- So does a statement, once the value is there. -/
  assignments : ∀ k location target value w, (k, .assignment location target value) ∈ ts →
    Statement.gift? host (runBody depth) m.own? k (.assignment location target value) = some w →
    ∃ p, (evaluate (runBody depth) value).run host k = (.ok w, p) ∧
      ((Statement.assignment location target value).effect (runBody depth)).run host k =
        (.ok (), { p with store := p.store.updateFrame f (·.recordResult w) })

/-- A frame whose result is changed by no activation but its own: not by calls, wherever they are
made, not by what bodies do in other frames, and not by any action there. -/
structure Secluded (f : FrameId) : Prop where
  calls : ∀ (host : Host) (p : Machine) (room : Nat) (kind : CallKind) (receiver : ObjectId)
    (m : Method) (args : List Value) (location : Option Location), f < p.store.frames.size →
    ∀ s ∈ (runMethod (runBody room) kind receiver m args location).stores host p,
      (s.frame f).outcome = (p.store.frame f).outcome
  bodies : ∀ (host : Host) (p : Machine) (room : Nat) (ss : List Statement),
    f < p.store.frames.size → p.store.innermost.frame ≠ f →
    ∀ s ∈ (runBody room ss).stores host p, (s.frame f).outcome = (p.store.frame f).outcome
  actions : ∀ (host : Host) (p : Machine) (a : Action),
    f < p.store.frames.size → p.store.innermost.frame ≠ f →
    ∀ s ∈ (p.perform host a).2.store :: p.passing host a,
      (s.frame f).outcome = (p.store.frame f).outcome

theorem secluded (f : FrameId) : Secluded f where
  calls host p room kind receiver m args location hf := by
    have hspares : Spares host True (runMethod (runBody room) kind receiver m args location) :=
      .runMethod (.runBody room) (.runBody room) kind receiver m args location
    exact stores_outcome hf fun own => hspares.none_given p f own hf fun _ => trivial
  bodies host p room ss hf hne :=
    stores_outcome hf fun own => (Spares.runBody room ss).none_given p f own hf hne
  actions host p a hf hne := by
    refine List.forall_mem_cons.mpr ⟨?_, Machine.passing_outcome a⟩
    rw [Machine.perform_outcome host a hf, given?_of_ne hne]
    rfl

theorem Frame.outcome_declareAll (f : Frame) (bindings : List (String × Value)) :
    (f.declareAll bindings).outcome = f.outcome := by
  induction bindings generalizing f with
  | nil => rfl
  | cons b bindings ih => exact ih (f.declare b.1 b.2)

/-- A call starts in a frame that has no result yet. -/
theorem Machine.announced {host : Host} {n k : Machine} {kind : CallKind} {m : Method}
    {args : List Value} {location : Option Location} {f : FrameId} (hf : f = n.store.frames.size)
    (h : n.announce host kind m args location = (.ok (), k)) (receiver : ObjectId) :
    (k.entered f receiver).RunsIn f m.own? ∧ (k.store.frame f).result = .int 0 := by
  have houtcome : (k.store.frame f).outcome =
      (if m.isFunction then some m.name else none, .int 0, false) := by
    have hframe : (n.framed (m.frame args location)).store.frame f = m.frame args location := by
      rw [hf]
      exact getD_push_size _ _
    have hsame : (k.store.frame f).outcome =
        ((n.framed (m.frame args location)).store.frame f).outcome :=
      getD_of_map_eq (announce_outcome h) f
    rw [hsame, hframe]
    exact Frame.outcome_declareAll _ _
  refine ⟨⟨?_, rfl, ?_⟩, congrArg (fun o => o.2.1) houtcome⟩
  · change f < k.store.frames.size
    rw [announce_frames h, hf]
    exact Nat.lt_succ_self _
  · have hname := congrArg (fun o => o.1.map Key.of) houtcome
    refine Eq.trans hname ?_
    unfold Method.own?
    cases m.isFunction <;> rfl

theorem Machine.conclude_ok {host : Host} {k n' : Machine} {f : FrameId} {m : Method}
    {location : Option Location} {v : Value} (h : k.conclude host f m location = (.ok v, n')) :
    v = if m.isFunction then (k.store.frame f).result else .nil := by
  unfold conclude at h
  dsimp only at h
  split at h
  · cases h
  · cases h
    rfl

/-- In the frame in which the name stands for the result, an assignment to it records the value. -/
theorem Machine.RunsIn.perform_assign {p : Machine} {f : FrameId} {name : String}
    (hp : p.RunsIn f (some (Key.of name))) (host : Host) (v : Value) :
    p.perform host (.assign name v) =
      (.ok (), { p with store := p.store.updateFrame f (·.recordResult v) }) := by
  obtain ⟨-, rfl, hown⟩ := hp
  change p.update none (p.store.assignName name v) = _
  rw [Store.assignName_of_own hown]
  rfl

section

variable {host : Host} {depth : Nat} {f : FrameId} {own : Option Key}

/-- A statement that assigns to the name evaluates what it assigns, and records the value. -/
theorem Statement.effect_of_gift? {k : Machine} (hk : k.RunsIn f own) {location : Location}
    {target : Designator} {value : Expr} {w : Value}
    (hw : gift? host (runBody depth) own k (.assignment location target value) = some w) :
    ∃ p, (evaluate (runBody depth) value).run host k = (.ok w, p) ∧
      ((Statement.assignment location target value).effect (runBody depth)).run host k =
        (.ok (), { p with store := p.store.updateFrame f (·.recordResult w) }) := by
  change (if _ then ((evaluate (runBody depth) value).run host k).1.toOption else none) = _ at hw
  split at hw
  · next hown =>
    obtain ⟨hnone, rfl⟩ := hown
    have hspares : Spares host True (evaluate (runBody depth) value) :=
      .evaluate (.runBody depth) (.runBody depth) value
    rcases hr : (evaluate (runBody depth) value).run host k with ⟨_ | v, p⟩
    · rw [hr] at hw
      cases hw
    · rw [hr] at hw
      cases hw
      refine ⟨p, rfl, ?_⟩
      change (evaluate (runBody depth) value >>= fun v => writeDesignator target v).run host k = _
      rw [run_bind_of_ok hr]
      unfold writeDesignator
      rw [hnone]
      exact (hspares.runsIn hk hr).perform_assign host w
  · cases hw

/-- The result after a run is the last value that is given. -/
theorem result_of_run {α : Type} {x : Script α} {b e : Machine} {r : Except Raised α}
    (hb : b.RunsIn f own) (hzero : (b.store.frame f).result = .int 0)
    (he : x.run host b = (r, e)) :
    (e.store.frame f).result =
      ((x.moments host b).filterMap (given? f own)).getLast?.getD (.int 0) := by
  have houtcome := run_outcome host x hb.there
  rw [he, hb.own, Frame.outcome_records, hzero] at houtcome
  exact congrArg (fun o => o.2.1) houtcome

end

/-- A call that completes. If its method is a function, it gives the value that was assigned last to
the name of the function, or zero if there was none, else it gives nothing; all statements of the
body are executed all the same. Such an assignment goes to the result and nowhere else, and nothing
that is done in other frames makes a difference to it. -/
theorem function_result {host : Host} {room : Nat} {kind : CallKind} {receiver : ObjectId}
    {m : Method} {args : List Value} {location : Option Location} {n n' : Machine} {v : Value}
    (h : (runMethod (runBody room) kind receiver m args location).run host n = (.ok v, n')) :
    let f := n.store.frames.size
    let moments := (runMethod (runBody room) kind receiver m args location).moments host n
    (∃ depth k ts e, room = depth + 1 ∧ n.announce host kind m args location = (.ok (), k) ∧
      CompletedCall host depth m f moments (k.entered f receiver) ts e v) ∧ Secluded f := by
  intro f moments
  refine ⟨?_, secluded f⟩
  rw [run_runMethod] at h
  rcases hk : n.announce host kind m args location with ⟨_ | _, k⟩
  · rw [hk] at h
    cases h
  rw [hk] at h
  dsimp only at h
  rcases he : (runBody room (m.body.getD [])).run host (k.entered f receiver) with ⟨_ | _, e⟩
  · rw [he] at h
    cases h
  rw [he] at h
  obtain ⟨depth, rfl⟩ : ∃ depth, room = depth + 1 := by
    cases room with
    | zero => cases he
    | succ depth => exact ⟨depth, rfl⟩
  obtain ⟨hb, hresult⟩ := Machine.announced rfl hk receiver
  obtain ⟨ts, hcourse, hts, hruns, hgiven⟩ :=
    executeAll_course (.runBody depth) (.runBody depth) hb he
  refine ⟨depth, k, ts, e, rfl, rfl, hcourse, hts, hruns, ?_, ?_, ?_, ?_⟩
  · have hlast := result_of_run hb hresult he
    have hleft : (e.left.store.frame f).result = (e.store.frame f).result := rfl
    rw [Machine.conclude_ok h, hleft, hlast]
    let given (vs : List Value) : Value :=
      if m.isFunction then vs.getLast?.getD (.int 0) else .nil
    exact congrArg given hgiven
  · rw [filterMap_moments_runMethod given?_of_attends, hk]
    exact hgiven
  · intro p name w hp hinner hname
    rcases mem_moments_runMethod hk hp rfl with hp | hp
    · cases hp
    · obtain ⟨hthere, hown⟩ := moments_own? hp hb.there
      have hruns : p.RunsIn f (some (Key.of name)) :=
        ⟨hthere, hinner, (hown.trans hb.own).trans hname⟩
      exact hruns.perform_assign host w
  · exact fun k location target value w hk hw => Statement.effect_of_gift? (hruns _ hk) hw

/-- A function with a parameter of its own name. It assigns three to its name, calls a method, and
reads to its name. -/
def Method.tally : Method where
  className := "TTally"
  name := "Count"
  kind := .function
  isFunction := true
  params := ["count"]
  body := some
    [.assignment default ⟨default, "Count", []⟩ (.literal default 3),
     .methodCall default "Self" "Spoil" [],
     .procedureCall default "readln" [.ref ⟨default, "COUNT", []⟩]]

/-- The method that it calls is a function as well, and assigns to the names of both. -/
def Method.spoil : Method where
  className := "TTally"
  name := "Spoil"
  kind := .function
  isFunction := true
  params := []
  body := some
    [.assignment default ⟨default, "spoil", []⟩ (.literal default 9),
     .assignment default ⟨default, "count", []⟩ (.literal default 4)]

/-- A machine with an object that has a field of the same name once more, and with a variable of
the program of that name. -/
def Machine.tally : Machine where
  store :=
    { classes := #[{
        name := "TTally"
        fields := ⟨[(Key.of "Count", ⟨.publ, "Count"⟩)]⟩
        methods := ⟨[(Key.of "Count", ⟨.tally, some .publ⟩),
          (Key.of "Spoil", ⟨.spoil, some .publ⟩)]⟩ }]
      catalog := ⟨[(Key.of "TTally", 0)]⟩
      objects := #[⟨0, ⟨[(Key.of "Count", .int 5)]⟩⟩]
      frames := #[{ name := "<program>", slots := ⟨[(Key.of "Count", ⟨.int 6, some "Count"⟩)]⟩ }] }
  input := { replies := [.line "7"] }

/-- The function gives what it read. The method that it called has set the field, and the parameter
and the variable of the program are as they were. -/
theorem function_result_tally :
    let x := runMethod (runBody 2) .call 0 .tally [.int 1] none
    ∃ n', x.run {} .tally = (.ok (.int 7), n') ∧
      (∃ k ts e, Machine.tally.announce {} .call .tally [.int 1] none = (.ok (), k) ∧
        CompletedCall {} 1 .tally 1 (x.moments {} .tally) (k.entered 1 0) ts e (.int 7)) ∧
      Secluded 1 ∧
      n'.store.held? (.frame 1) (Key.of "Count") = some (.int 1) ∧
      n'.store.held? (.object 0) (Key.of "Count") = some (.int 4) ∧
      n'.store.held? (.frame 0) (Key.of "Count") = some (.int 6) := by
  intro x
  have hvalue : (x.run {} .tally).1 = .ok (.int 7) := by
    decide +kernel
  have hheld : let s := (x.run {} .tally).2.store
      s.held? (.frame 1) (Key.of "Count") = some (.int 1) ∧
        s.held? (.object 0) (Key.of "Count") = some (.int 4) ∧
        s.held? (.frame 0) (Key.of "Count") = some (.int 6) := by
    decide +kernel
  have hrun : x.run {} .tally = (.ok (.int 7), (x.run {} .tally).2) := Prod.ext hvalue rfl
  obtain ⟨⟨depth, k, ts, e, hdepth, hk, hcall⟩, hsecluded⟩ := function_result hrun
  cases hdepth
  exact ⟨_, hrun, ⟨k, ts, e, hk, hcall⟩, hsecluded, hheld⟩

end ObjectPascal
