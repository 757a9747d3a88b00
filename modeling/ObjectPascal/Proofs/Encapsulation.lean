import ObjectPascal.Proofs.Activations
import ObjectPascal.Proofs.Concealment

/-!
Encapsulation: a run that never enters a class neither shows nor changes what its instances hold
in fields that are not public. Two runs that start from machines which differ in nothing else go
the same way, action by action.
-/

namespace ObjectPascal

namespace Machine

variable {C : ClassId} {host : Host} {m : Machine}

/-- Blots out what the instances of class `C` hide. -/
def conceal (C : ClassId) (m : Machine) : Machine :=
  { m with store := m.store.conceal C }

theorem conceal_update (location : Option Location) (r : Except Cause Store) :
    (m.conceal C).update location (r.map (Store.conceal C)) =
      ((m.update location r).1, (m.update location r).2.conceal C) := by
  cases r <;> rfl

theorem conceal_entered (frame : FrameId) (receiver : ObjectId) :
    (m.entered frame receiver).conceal C = (m.conceal C).entered frame receiver := by
  unfold entered conceal
  simp only [Store.conceal_object, Object.conceal_classId]
  rfl

/-- From outside the class, an action does the same whether or not its secrets are blotted out. -/
theorem perform_conceal (host : Host) (hh : host.hooks = {}) (hm : m.store.Outside C)
    {a : Action} (ha : a.evaluates = true) :
    (m.conceal C).perform host a = ((m.perform host a).1, (m.perform host a).2.conceal C) := by
  cases a with
  | log step location =>
    change (m.conceal C).logStep host step location =
      ((m.logStep host step location).1, (m.logStep host step location).2.conceal C)
    rw [logStep_of_no_hooks hh, logStep_of_no_hooks hh]
    simp [record, conceal]
  | emit event =>
    change (m.conceal C).emit host event =
      ((m.emit host event).1, (m.emit host event).2.conceal C)
    rw [emit_of_no_hooks hh, emit_of_no_hooks hh]
  | render value =>
    change (Except.ok ((m.store.conceal C).render value), m.conceal C) = _
    rw [Store.conceal_render]
    rfl
  | lookup name =>
    change (faultAt none ((m.store.conceal C).lookup name), m.conceal C) = _
    rw [hm.lookup]
    rfl
  | receiver => rfl
  | readField id field location =>
    change (faultAt (some location) ((m.store.conceal C).readField id field), m.conceal C) = _
    rw [hm.readField]
    rfl
  | writeField id field v location =>
    change (m.conceal C).update (some location) ((m.store.conceal C).writeField id field v) = _
    rw [hm.writeField]
    exact conceal_update _ _
  | assign name v =>
    change (m.conceal C).update none ((m.store.conceal C).assignName name v) = _
    rw [hm.assignName]
    exact conceal_update _ _
  | constructedClass left =>
    change (Except.ok ((m.store.conceal C).constructedClass left), m.conceal C) = _
    rw [hm.constructedClass]
    rfl
  | findConstructor id member location => rfl
  | findMethod id member location =>
    change (faultAt location ((m.store.conceal C).findMethod id member), m.conceal C) = _
    rw [Store.conceal_findMethod]
    rfl
  | newFrame method args location => rfl
  | liveFrames => rfl
  | result frame => rfl
  | write line =>
    change (m.conceal C).write host line = ((m.write host line).1, (m.write host line).2.conceal C)
    have houtput : (m.conceal C).output = m.output := rfl
    unfold write
    rw [houtput]
    cases host.refuse (m.output.size + 1) <;> rfl
  | nextWord =>
    change (m.conceal C).nextWord = (m.nextWord.1, m.nextWord.2.conceal C)
    have hinput : (m.conceal C).input = m.input := rfl
    unfold nextWord
    rw [hinput]
    obtain ⟨r, input⟩ := m.input.nextWord
    cases r <;> rfl
  | transcribe entry => rfl
  | newObject | enter | leave | defineClass | attachMethod | declareGlobal | lastStep => cases ha

/-- From outside the class, an action leaves its secrets as they are. -/
theorem perform_keepsSecrets (hh : host.hooks = {}) (hm : m.store.Outside C) {a : Action}
    (ha : a.evaluates = true) : m.store.KeepsSecrets C (m.perform host a).2.store := by
  cases a with
  | log step location =>
    change m.store.KeepsSecrets C (m.logStep host step location).2.store
    rw [logStep_of_no_hooks hh]
    exact .refl C m.store
  | emit event =>
    change m.store.KeepsSecrets C (m.emit host event).2.store
    rw [emit_of_no_hooks hh]
    exact .refl C m.store
  | writeField id field v location =>
    exact update_store (.refl C m.store) fun _ => hm.keepsSecrets_writeField
  | assign name v => exact update_store (.refl C m.store) fun _ => hm.keepsSecrets_assignName
  | newFrame method args location => exact .of_objects rfl rfl
  | write line =>
    change m.store.KeepsSecrets C (m.write host line).2.store
    rw [write_store]
    exact .refl C m.store
  | nextWord =>
    change m.store.KeepsSecrets C m.nextWord.2.store
    rw [nextWord_store]
    exact .refl C m.store
  | newObject | enter | leave | defineClass | attachMethod | declareGlobal | lastStep => cases ha
  | _ => exact .refl C m.store

end Machine

namespace Store

variable {C : ClassId} {s s' : Store}

/-- Stores that differ in secrets only have the same calls, on objects of the same classes. -/
theorem calls_of_conceal (h : s'.conceal C = s.conceal C) : s'.calls = s.calls := by
  have hc := congrArg Store.calls h
  exact hc

theorem classId_of_conceal (h : s'.conceal C = s.conceal C) (id : ObjectId) :
    (s'.object id).classId = (s.object id).classId := by
  have hid := congrArg (fun t => (t.object id).classId) h
  simpa using hid

theorem innermost_of_calls (h : s'.calls = s.calls) : s'.innermost = s.innermost := by
  unfold innermost
  rw [h]

theorem Outside.of_conceal (ho : s.Outside C) (h : s'.conceal C = s.conceal C) :
    s'.Outside C := by
  have hin := innermost_of_calls (calls_of_conceal h)
  refine ⟨by rw [hin]; exact ho.context, ?_⟩
  intro id hid
  rw [classId_of_conceal h]
  rw [hin] at hid
  exact ho.receiver id hid

/-- After code outside the class has run, and its calls have ended, the code is outside still. -/
theorem Outside.of_keepsSecrets (ho : s.Outside C) (h : KeepsSecrets C s s')
    (hc : s'.calls = s.calls) : s'.Outside C := by
  have hin := innermost_of_calls hc
  refine ⟨by rw [hin]; exact ho.context, ?_⟩
  intro id hid
  rw [hin] at hid
  exact h.outside id (ho.receiver id hid)

end Store

namespace Script

variable {α β : Type} {host : Host} {C : ClassId}

/-- A run from `m` calls a method on an instance of `C`. -/
def Enters (host : Host) (C : ClassId) (x : Script α) (m : Machine) : Prop :=
  ∃ p ∈ x.moments host m, ∃ frame receiver,
    p.2 = .enter frame receiver ∧ (p.1.store.object receiver).classId = C

theorem enters_bind {x : Script α} {f : α → Script β} {m : Machine} :
    (x >>= f).Enters host C m ↔
      x.Enters host C m ∨ ∃ a m', x.run host m = (.ok a, m') ∧ (f a).Enters host C m' := by
  constructor
  · rintro ⟨p, hp, he⟩
    rcases mem_moments_bind.mp hp with hp | ⟨a, m', hr, hp⟩
    · exact .inl ⟨p, hp, he⟩
    · exact .inr ⟨a, m', hr, p, hp, he⟩
  · rintro (⟨p, hp, he⟩ | ⟨a, m', hr, p, hp, he⟩)
    · exact ⟨p, mem_moments_bind.mpr (.inl hp), he⟩
    · exact ⟨p, mem_moments_bind.mpr (.inr ⟨a, m', hr, hp⟩), he⟩

theorem enters_within {frame : FrameId} {receiver : ObjectId} {inside : Script Unit}
    {m : Machine} :
    (within frame receiver inside).Enters host C m ↔
      (m.store.object receiver).classId = C ∨
        inside.Enters host C (m.entered frame receiver) := by
  unfold Enters
  rw [moments_within]
  constructor
  · rintro ⟨p, hp, frame', receiver', he, hc⟩
    rcases List.mem_append.mp hp with hp | hp
    · rcases List.mem_cons.mp hp with rfl | hp
      · cases he
        exact .inl hc
      · exact .inr ⟨p, hp, frame', receiver', he, hc⟩
    · -- what is left to do after the body starts no call
      split at hp
      · rw [List.mem_singleton.mp hp] at he
        cases he
      · rcases List.mem_cons.mp hp with rfl | hp
        · cases he
        · rw [List.mem_singleton.mp hp] at he
          cases he
  · rintro (hc | ⟨p, hp, he⟩)
    · exact ⟨_, List.mem_append_left _ List.mem_cons_self, frame, receiver, rfl, hc⟩
    · exact ⟨p, List.mem_append_left _ (List.mem_cons_of_mem _ hp), he⟩

/-- On the way to the body of a method nothing fails, and no object changes. -/
theorem run_of_preparesCall (hh : host.hooks = {}) {x : Script α} (hx : PreparesCall x)
    (m : Machine) :
    ∃ a m', x.run host m = (.ok a, m') ∧ m'.store.objects = m.store.objects := by
  induction hx generalizing m with
  | done a => exact ⟨a, m, rfl, rfl⟩
  | @perform a h =>
    cases a with
    | log step location => exact ⟨(), _, Machine.logStep_of_no_hooks hh step location m, rfl⟩
    | emit event => exact ⟨(), _, Machine.emit_of_no_hooks hh event m, rfl⟩
    | render value => exact ⟨_, m, rfl, rfl⟩
    | newFrame method args location => exact ⟨_, _, rfl, rfl⟩
    | _ => cases h
  | @andThen _ _ x f _ _ ihx ihf =>
    obtain ⟨a, m₁, hr, ho⟩ := ihx m
    obtain ⟨b, m₂, hr', ho'⟩ := ihf a m₁
    refine ⟨b, m₂, ?_, ho'.trans ho⟩
    change (x >>= f).run host m = _
    rw [run_bind, hr]
    exact hr'

/-- A script that calls a method of an instance of `C` first of all does enter `C`. -/
theorem enters_of_opens (hh : host.hooks = {}) {object : ObjectId} {x : Script α}
    (hx : Opens object x) {m : Machine} (hc : (m.store.object object).classId = C) :
    x.Enters host C m := by
  induction hx generalizing m with
  | within => exact enters_within.mpr (.inl hc)
  | @after _ _ x f hx _ ihf =>
    obtain ⟨a, m', hr, ho⟩ := run_of_preparesCall hh hx m
    have hc' : (m'.store.object object).classId = C := by
      unfold Store.object
      rw [ho]
      exact hc
    exact enters_bind.mpr (.inr ⟨a, m', hr, ihf a hc'⟩)
  | andThen _ ih => exact enters_bind.mpr (.inl (ih hc))

/-- What two runs have in common, and what each of them leaves as it was. -/
structure Indistinct (host : Host) (C : ClassId) (x : Script α) (m m' : Machine) : Prop where
  result : (x.run host m').1 = (x.run host m).1
  final : (x.run host m').2.conceal C = (x.run host m).2.conceal C
  outside : ¬ x.Enters host C m'
  secrets : m.store.KeepsSecrets C (x.run host m).2.store
  secrets' : m'.store.KeepsSecrets C (x.run host m').2.store

namespace Indistinct

variable {m m' : Machine}

/-- A script that does nothing. -/
theorem idle {x : Script α} {r : Except Raised α} (hs : m'.conceal C = m.conceal C)
    (hr : ∀ n, x.run host n = (r, n)) (hm : ∀ n, x.moments host n = []) :
    Indistinct host C x m m' := by
  refine ⟨by rw [hr, hr], by rwa [hr, hr], ?_, by rw [hr]; exact .refl C _,
    by rw [hr]; exact .refl C _⟩
  rintro ⟨p, hp, -⟩
  rw [hm] at hp
  cases hp

/-- An action that does the same with the secrets blotted out, and does not change them. -/
theorem action {a : Action} (hs : m'.conceal C = m.conceal C)
    (ha : ∀ frame receiver, a ≠ .enter frame receiver)
    (h : ∀ n : Machine, n.conceal C = m.conceal C →
      (n.conceal C).perform host a = ((n.perform host a).1, (n.perform host a).2.conceal C) ∧
        n.store.KeepsSecrets C (n.perform host a).2.store) :
    Indistinct host C (.perform a) m m' := by
  obtain ⟨hp, hk⟩ := h m rfl
  obtain ⟨hp', hk'⟩ := h m' hs
  rw [hs, hp] at hp'
  obtain ⟨hr, hf⟩ := Prod.mk.inj hp'
  refine ⟨hr.symm, hf.symm, ?_, hk, hk'⟩
  rintro ⟨p, hp, frame, receiver, he, -⟩
  rw [List.mem_singleton.mp hp] at he
  exact ha frame receiver he

theorem perform (hh : host.hooks = {}) {a : Action} (ha : a.evaluates = true)
    (hm : m.store.Outside C) (hs : m'.conceal C = m.conceal C) :
    Indistinct host C (.perform a) m m' := by
  refine action hs ?_ fun n hn => ?_
  · rintro frame receiver rfl
    cases ha
  · have ho : n.store.Outside C := hm.of_conceal (congrArg Machine.store hn)
    exact ⟨Machine.perform_conceal host hh ho ha, Machine.perform_keepsSecrets hh ho ha⟩

theorem newObject {id : ClassId} (h : id ≠ C) (hs : m'.conceal C = m.conceal C) :
    Indistinct host C (.perform (.newObject id)) m m' := by
  refine action hs nofun fun n _ => ⟨?_, Store.keepsSecrets_newObject h⟩
  have hnew := Store.conceal_newObject C n.store id
  change ((Except.ok ((n.store.conceal C).newObject id).2 : Except Raised ObjectId),
    { n.conceal C with store := ((n.store.conceal C).newObject id).1 }) = _
  rw [hnew]
  rfl

theorem bind {x : Script α} {f : α → Script β} (hx : Indistinct host C x m m')
    (hf : ∀ a n n', x.run host m = (.ok a, n) → x.run host m' = (.ok a, n') →
      Indistinct host C (f a) n n') : Indistinct host C (x >>= f) m m' := by
  obtain ⟨hresult, hfinal, houtside, hsecrets, hsecrets'⟩ := hx
  rcases hr : x.run host m with ⟨r, n⟩
  rcases hr' : x.run host m' with ⟨r', n'⟩
  rw [hr, hr'] at hresult hfinal
  rw [hr] at hsecrets
  rw [hr'] at hsecrets'
  obtain rfl : r' = r := hresult
  cases r' with
  | error e =>
    have hb : (x >>= f).run host m = (.error e, n) := by rw [run_bind, hr]
    have hb' : (x >>= f).run host m' = (.error e, n') := by rw [run_bind, hr']
    refine ⟨by rw [hb, hb'], by rw [hb, hb']; exact hfinal, ?_, by rwa [hb], by rwa [hb']⟩
    intro h
    rcases enters_bind.mp h with h | ⟨a, m₁, h, -⟩
    · exact houtside h
    · rw [hr'] at h
      cases h
  | ok a =>
    have hb : (x >>= f).run host m = (f a).run host n := by rw [run_bind, hr]
    have hb' : (x >>= f).run host m' = (f a).run host n' := by rw [run_bind, hr']
    have hnext := hf a n n' hr hr'
    refine ⟨?_, ?_, ?_, ?_, ?_⟩
    · rw [hb, hb']
      exact hnext.result
    · rw [hb, hb']
      exact hnext.final
    · intro h
      rcases enters_bind.mp h with h | ⟨a', m₁, h, hin⟩
      · exact houtside h
      · rw [hr'] at h
        cases h
        exact hnext.outside hin
    · rw [hb]
      exact hsecrets.trans hnext.secrets
    · rw [hb']
      exact hsecrets'.trans hnext.secrets'

theorem attempt {x : Script α} (hx : Indistinct host C x m m') :
    Indistinct host C x.attempt m m' :=
  ⟨congrArg Except.ok hx.result, hx.final, hx.outside, hx.secrets, hx.secrets'⟩

theorem within {frame : FrameId} {receiver : ObjectId} {inside : Script Unit}
    (hs : m'.conceal C = m.conceal C) (hc : (m.store.object receiver).classId ≠ C)
    (hx : Indistinct host C inside (m.entered frame receiver) (m'.entered frame receiver)) :
    Indistinct host C (within frame receiver inside) m m' := by
  have hclass := Store.classId_of_conceal (congrArg Machine.store hs) receiver
  have hin : m.store.KeepsSecrets C (m.entered frame receiver).store := .of_objects rfl rfl
  have hin' : m'.store.KeepsSecrets C (m'.entered frame receiver).store := .of_objects rfl rfl
  obtain ⟨hresult, hfinal, houtside, hsecrets, hsecrets'⟩ := hx
  have hrun : (ObjectPascal.within frame receiver inside).run host m = _ :=
    run_within frame receiver inside m
  have hrun' : (ObjectPascal.within frame receiver inside).run host m' = _ :=
    run_within frame receiver inside m'
  rcases hr : inside.run host (m.entered frame receiver) with ⟨r, n⟩
  rcases hr' : inside.run host (m'.entered frame receiver) with ⟨r', n'⟩
  rw [hr] at hsecrets hrun
  rw [hr'] at hsecrets' hrun'
  rw [hr, hr'] at hresult hfinal
  have hlive : n'.store.liveFrames = n.store.liveFrames := by
    unfold Store.liveFrames
    rw [Store.calls_of_conceal (congrArg Machine.store hfinal)]
  refine ⟨?_, ?_, ?_, ?_, ?_⟩
  · rw [hrun, hrun']
    change r'.mapError _ = r.mapError _
    rw [hlive]
    exact congrArg _ hresult
  · rw [hrun, hrun']
    exact congrArg Machine.left hfinal
  · intro h
    rcases enters_within.mp h with h | h
    · exact hc (hclass ▸ h)
    · exact houtside h
  · rw [hrun]
    exact (hin.trans hsecrets).trans (.of_objects rfl rfl)
  · rw [hrun']
    exact (hin'.trans hsecrets').trans (.of_objects rfl rfl)

end Indistinct

/-- By induction on how the script is put together: as long as the first run stays outside the
class, the second goes the same way. -/
theorem indistinct_of_evaluates (hh : host.hooks = {}) {x : Script α} (hx : Evaluates x)
    {m m' : Machine} (hm : m.store.Outside C) (hs : m'.conceal C = m.conceal C)
    (hn : ¬ x.Enters host C m) : Indistinct host C x m m' := by
  induction hx generalizing m m' with
  | done a => exact .idle hs (fun _ => rfl) fun _ => rfl
  | fail e => exact .idle hs (fun _ => rfl) fun _ => rfl
  | perform ha => exact .perform hh ha hm hs
  | @andThen _ _ x f hx _ ihx ihf =>
    have hbalanced : Balanced host x := balanced_of_nested (.of_evaluates hx)
    have hfirst := ihx hm hs fun h => hn (enters_bind.mpr (.inl h))
    refine hfirst.bind fun a n n' hr hr' => ?_
    have hsecrets := hfirst.secrets
    have hfinal := hfirst.final
    have hcalls := hbalanced.run m
    rw [hr] at hsecrets hfinal hcalls
    rw [hr'] at hfinal
    exact ihf a (hm.of_keepsSecrets hsecrets hcalls) hfinal fun h =>
      hn (enters_bind.mpr (.inr ⟨a, n, hr, h⟩))
  | attempt _ ih => exact (ih hm hs hn).attempt
  | @within frame receiver inside _ ih =>
    have hclass : (m.store.object receiver).classId ≠ C := fun h => hn (enters_within.mpr (.inl h))
    have houtside : (m.entered frame receiver).store.Outside C := by
      refine ⟨fun h => hclass (Option.some.inj h), ?_⟩
      intro id hid
      cases hid
      exact hclass
    have hentered : (m'.entered frame receiver).conceal C = (m.entered frame receiver).conceal C := by
      rw [Machine.conceal_entered, hs, Machine.conceal_entered]
    exact .within hs hclass (ih houtside hentered fun h => hn (enters_within.mpr (.inr h)))
  | @create _ id f hf ho ih =>
    -- an instance of the class would be entered at once
    have hne : id ≠ C := by
      rintro rfl
      refine hn (enters_bind.mpr (.inr ⟨_, _, rfl, enters_of_opens hh (ho _) ?_⟩))
      exact Store.newObject_classId m.store id
    have hfirst : Indistinct host C (.perform (.newObject id)) m m' := .newObject hne hs
    refine hfirst.bind fun o n n' hr hr' => ?_
    have hsecrets := hfirst.secrets
    have hfinal := hfirst.final
    rw [hr] at hsecrets hfinal
    rw [hr'] at hfinal
    have hcalls : n.store.calls = m.store.calls := by
      cases hr
      rfl
    exact ih o (hm.of_keepsSecrets hsecrets hcalls) hfinal fun h =>
      hn (enters_bind.mpr (.inr ⟨o, n, hr, h⟩))

end Script

/-- Every call runs a method of the class of its receiver. -/
def Store.Coherent (s : Store) : Prop :=
  ∀ a ∈ s.calls, a.context = a.receiver.map fun id => (s.object id).classId

theorem Store.Coherent.outside {s : Store} {C : ClassId} (h : s.Coherent)
    (hc : s.innermost.context ≠ some C) : s.Outside C := by
  refine ⟨hc, ?_⟩
  intro id hid hclass
  unfold Store.innermost at hc hid
  cases hcalls : s.calls with
  | nil =>
    rw [hcalls] at hid
    cases hid
  | cons a calls =>
    have ha := h a (by rw [hcalls]; exact List.mem_cons_self)
    rw [hcalls] at hc hid
    change a.receiver = some id at hid
    rw [hid] at ha
    exact hc (ha.trans (congrArg some hclass))

/-- Every instance of `C` that `m` has holds in `n` what it held in its non-public fields. -/
def Machine.SecretsKept (C : ClassId) (m n : Machine) : Prop :=
  ∀ id < m.store.objects.size, (m.store.object id).classId = C →
    ∀ name, (m.store.classOf C).fieldVisibility name ≠ .publ →
      (n.store.object id).fields.find? (Key.of name) =
        (m.store.object id).fields.find? (Key.of name)

theorem Machine.secretsKept {C : ClassId} {m n : Machine}
    (h : m.store.KeepsSecrets C n.store) : m.SecretsKept C n := by
  intro id hid hc name hv
  exact h.hidden id hid hc (Key.of name) (Class.hides_iff.mpr hv)

/-- Two machines that differ only in the non-public fields of the instances of a class, run on the
same statements from outside the class: if one run never enters the class, neither does the other,
both show the same and end alike, and what differed at the start is all that differs at the end. -/
theorem encapsulated (host : Host) (hh : host.hooks = {}) (C : ClassId) (depth : Nat)
    (ss : List Statement) (m m' : Machine) (hco : m.store.Coherent)
    (hs : m'.conceal C = m.conceal C) (hc : m.store.innermost.context ≠ some C)
    (hn : ¬ (executeAll (runBody depth) ss).Enters host C m) :
    ¬ (executeAll (runBody depth) ss).Enters host C m' ∧
    ((executeAll (runBody depth) ss).run host m').1 =
      ((executeAll (runBody depth) ss).run host m).1 ∧
    ((executeAll (runBody depth) ss).run host m').2.output =
      ((executeAll (runBody depth) ss).run host m).2.output ∧
    ((executeAll (runBody depth) ss).run host m').2.transcript =
      ((executeAll (runBody depth) ss).run host m).2.transcript ∧
    ((executeAll (runBody depth) ss).run host m').2.conceal C =
      ((executeAll (runBody depth) ss).run host m).2.conceal C ∧
    m.SecretsKept C ((executeAll (runBody depth) ss).run host m).2 ∧
    m'.SecretsKept C ((executeAll (runBody depth) ss).run host m').2 := by
  have hx : Evaluates (executeAll (runBody depth) ss) := .executeAll (.runBody depth) ss
  obtain ⟨hresult, hfinal, houtside, hsecrets, hsecrets'⟩ :=
    Script.indistinct_of_evaluates hh hx (hco.outside hc) hs hn
  have houtput := congrArg Machine.output hfinal
  have htranscript := congrArg Machine.transcript hfinal
  exact ⟨houtside, hresult, houtput, htranscript, hfinal, Machine.secretsKept hsecrets,
    Machine.secretsKept hsecrets'⟩

/-- A machine whose variable `o` holds an object with a private field. -/
def Machine.holding (secret : Int) : Machine where
  store :=
    { classes := #[{ name := "TBox", fields := ⟨[(⟨"secret"⟩, ⟨.priv, "secret"⟩)]⟩ }]
      objects := #[⟨0, ⟨[(⟨"secret"⟩, .int secret)]⟩⟩]
      frames := #[{ name := "<program>", slots := ⟨[(⟨"o"⟩, ⟨.object 0, some "o"⟩)]⟩ }] }

/-- An attempt to write a private field out, on machines that hold different values in it. -/
theorem encapsulated_writeln :
    let x := executeAll (runBody 1)
      [.procedureCall default "writeln" [.ref ⟨default, "o", ["secret"]⟩]]
    (x.run {} (.holding 2)).1 = (x.run {} (.holding 1)).1 ∧
      (x.run {} (.holding 2)).2.output = (x.run {} (.holding 1)).2.output := by
  intro x
  have halike : (Machine.holding 2).conceal 0 = (Machine.holding 1).conceal 0 := by
    simp [Machine.holding, Machine.conceal, Store.conceal, Object.conceal, Table.conceal,
      Store.classOf, Class.hides, Table.find?, Table.findIn]
  have hactions : (x.moments {} (.holding 1)).all (fun p => p.2.keepsCalls) = true := by
    decide
  have hn : ¬ x.Enters {} 0 (.holding 1) := by
    rintro ⟨p, hp, frame, receiver, he, -⟩
    have h := List.all_eq_true.mp hactions p hp
    rw [he] at h
    cases h
  have hcoherent : (Machine.holding 1).store.Coherent := List.forall_mem_nil _
  have hcontext : (Machine.holding 1).store.innermost.context ≠ some 0 := by
    intro h
    cases h
  have h := encapsulated {} rfl 0 1 _ (.holding 1) (.holding 2) hcoherent halike hcontext hn
  exact ⟨h.2.1, h.2.2.1⟩

end ObjectPascal
