import ObjectPascal.Proofs.Conduct
import ObjectPascal.Proofs.Extension

/-!
Where in a run a failure is raised, and what is being run at that moment. A failure is caught on its
way out only to be raised again with more known of it, so the first failure of a run is the one that
the run ends in.
-/

namespace ObjectPascal

namespace Script

variable {α β : Type} {host : Host}

/-- Where a run first fails: what is raised, and the machine at that moment. A failure that is
caught counts too. -/
def origin? (host : Host) : {α : Type} → Script α → Machine → Option (Raised × Machine)
  | _, done _, _ => none
  | _, fail e, m => some (e, m)
  | _, perform a, m =>
    match m.perform host a with
    | (.ok _, _) => none
    | (.error e, m) => some (e, m)
  | _, andThen x f, m =>
    match x.origin? host m, x.run host m with
    | some o, _ => some o
    | none, (.ok a, m) => (f a).origin? host m
    | none, (.error _, _) => none
  | _, attempt x, m => x.origin? host m

theorem origin?_bind_of_ok {x : Script α} {f : α → Script β} {m m' : Machine} {a : α}
    (ho : x.origin? host m = none) (hr : x.run host m = (.ok a, m')) :
    (x >>= f).origin? host m = (f a).origin? host m' := by
  change (andThen x f).origin? host m = _
  rw [origin?, ho, hr]

theorem origin?_bind_of_raised {x : Script α} {f : α → Script β} {m : Machine}
    {o : Raised × Machine} (ho : x.origin? host m = some o) :
    (x >>= f).origin? host m = some o := by
  change (andThen x f).origin? host m = _
  rw [origin?, ho]

theorem origin?_perform_of_ok {a : Action} {m m' : Machine} {r : a.Result}
    (h : m.perform host a = (.ok r, m')) : (perform a).origin? host m = none := by
  rw [origin?, h]

/-- Running the script from the machine comes to run `y` from `n`. -/
inductive Subrun (host : Host) {β : Type} (y : Script β) (n : Machine) :
    {α : Type} → Script α → Machine → Prop
  | refl : Subrun host y n y n
  | first {α γ : Type} {x : Script α} {f : α → Script γ} {m : Machine}
      (h : Subrun host y n x m) : Subrun host y n (.andThen x f) m
  | next {α γ : Type} {x : Script α} {f : α → Script γ} {m m' : Machine} {a : α}
      (hx : x.run host m = (.ok a, m')) (h : Subrun host y n (f a) m') :
      Subrun host y n (.andThen x f) m
  | attempt {α : Type} {x : Script α} {m : Machine} (h : Subrun host y n x m) :
      Subrun host y n x.attempt m

theorem Subrun.trans {γ : Type} {x : Script α} {y : Script β} {z : Script γ} {k m n : Machine}
    (hz : Subrun host z k y n) (hy : Subrun host y n x m) : Subrun host z k x m := by
  induction hy with
  | refl => exact hz
  | first _ ih => exact .first ih
  | next hx _ ih => exact .next hx ih
  | attempt _ ih => exact .attempt ih

theorem Subrun.mapError {y : Script β} {n m : Machine} {x : Script α} (f : Raised → Raised)
    (h : Subrun host y n x m) : Subrun host y n (x.mapError f) m :=
  .first (.attempt h)

/-- How a run ends: well, with `ok` of the machine it leaves, or in the failure that was raised
first, with `bad` of what was raised and when and of what comes out of it. -/
inductive Ends (host : Host) (x : Script α) (m : Machine) (ok : Machine → Prop)
    (bad : Raised → Machine → Raised → Machine → Prop) : Prop
  | done {a : α} {m' : Machine} (hr : x.run host m = (.ok a, m')) (ho : x.origin? host m = none)
      (h : ok m')
  | raised {raised e : Raised} {n m' : Machine} (hr : x.run host m = (.error e, m'))
      (ho : x.origin? host m = some (raised, n)) (h : bad raised n e m')

namespace Ends

variable {x : Script α} {f : α → Script β} {m : Machine} {ok ok' : Machine → Prop}
  {bad bad' : Raised → Machine → Raised → Machine → Prop}

theorem mono (h : Ends host x m ok bad) (hok : ∀ m', ok m' → ok' m')
    (hbad : ∀ raised n e m', bad raised n e m' → bad' raised n e m') :
    Ends host x m ok' bad' := by
  cases h with
  | done hr ho h => exact .done hr ho (hok _ h)
  | raised hr ho h => exact .raised hr ho (hbad _ _ _ _ h)

theorem pure (a : α) (h : ok m) : Ends host (Pure.pure a : Script α) m ok bad :=
  .done rfl rfl h

/-- What is known of every run that ends well. -/
theorem and_run {P : Machine → Prop} (h : Ends host x m ok bad)
    (hP : ∀ a m', x.run host m = (.ok a, m') → P m') :
    Ends host x m (fun m' => ok m' ∧ P m') bad := by
  cases h with
  | done hr ho h => exact .done hr ho ⟨h, hP _ _ hr⟩
  | raised hr ho h => exact .raised hr ho h

/-- A failure that is raised is where the run first fails. -/
theorem with_origin (h : Ends host x m ok bad) :
    Ends host x m ok fun raised n e m' => x.origin? host m = some (raised, n) ∧ bad raised n e m' := by
  cases h with
  | done hr ho h => exact .done hr ho h
  | raised hr ho h => exact .raised hr ho ⟨ho, h⟩

/-- One script after another: what the first leaves is where the second starts, and whichever
fails ends the whole. -/
theorem bind (hx : Ends host x m ok bad) (hbad : ∀ raised n e m', bad raised n e m' → bad' raised n e m')
    (hf : ∀ a m', x.run host m = (.ok a, m') → ok m' → Ends host (f a) m' ok' bad') :
    Ends host (x >>= f) m ok' bad' := by
  cases hx with
  | @done a m' hr ho h =>
    have hrun := run_bind_of_ok (f := f) hr
    have horigin := origin?_bind_of_ok (f := f) ho hr
    cases hf a m' hr h with
    | done hr' ho' h' => exact .done (hrun.trans hr') (horigin.trans ho') h'
    | raised hr' ho' h' => exact .raised (hrun.trans hr') (horigin.trans ho') h'
  | @raised raised e n m' hr ho h =>
    have hrun : (x >>= f).run host m = (.error e, m') := by rw [run_bind, hr]
    exact .raised hrun (origin?_bind_of_raised ho) (hbad _ _ _ _ h)

/-- Adding to what is known of a failure changes neither where it is raised nor how the run goes. -/
theorem mapError (g : Raised → Raised) (h : Ends host x m ok bad)
    (hbad : ∀ raised n e m', bad raised n e m' → bad' raised n (g e) m') :
    Ends host (x.mapError g) m ok bad' := by
  cases h with
  | @done a m' hr ho h =>
    have hrun : (x.mapError g).run host m = (.ok a, m') := by
      rw [run_mapError, hr]
      rfl
    have hattempt : x.attempt.run host m = (.ok (.ok a), m') := by rw [run_attempt, hr]
    have horigin : x.attempt.origin? host m = none := ho
    exact .done hrun (origin?_bind_of_ok horigin hattempt) h
  | @raised raised e n m' hr ho h =>
    have hrun : (x.mapError g).run host m = (.error (g e), m') := by
      rw [run_mapError, hr]
      rfl
    have horigin : x.attempt.origin? host m = some (raised, n) := ho
    exact .raised hrun (origin?_bind_of_raised horigin) (hbad _ _ _ _ h)

/-- After a script that is known to succeed, it is up to what follows. -/
theorem bind_ok {a : α} {m' : Machine} (hr : x.run host m = (.ok a, m'))
    (ho : x.origin? host m = none) (hf : Ends host (f a) m' ok' bad') :
    Ends host (x >>= f) m ok' bad' := by
  have hx : Ends host x m (· = m') bad' := .done hr ho rfl
  refine hx.bind (fun _ _ _ _ h => h) ?_
  intro a' m₁ hr' hm
  have hsame := hr'.symm.trans hr
  cases hsame
  exact hf

/-- An action that succeeds, and then whatever its result leads to. -/
theorem bind_perform {a : Action} {r : a.Result} {m' : Machine} {f : a.Result → Script β}
    (ha : m.perform host a = (.ok r, m')) (hf : Ends host (f r) m' ok' bad') :
    Ends host (perform a >>= f) m ok' bad' :=
  bind_ok ha (origin?_perform_of_ok ha) hf

end Ends

end Script

/-! Silent stretches. -/

/-- What reports show of a frame. -/
def Frame.header (f : Frame) : String × Option Location :=
  (f.name, f.callLocation)

/-- `m'` has the log and the calls of `m`, and its frames, up to their variables. -/
structure Machine.Steady (m m' : Machine) : Prop where
  log : m'.log = m.log
  calls : m'.store.calls = m.store.calls
  frames : m'.store.frames.map Frame.header = m.store.frames.map Frame.header

/-- Frames that look the same have the same headers. -/
theorem map_header_of_outline {frames frames' : Array Frame}
    (h : frames'.map Frame.outline = frames.map Frame.outline) :
    frames'.map Frame.header = frames.map Frame.header := by
  have hheader := congrArg (Array.map Frame.header) h
  rw [Array.map_map, Array.map_map] at hheader
  exact hheader

/-- Frames that are there keep their headers when more are made. -/
theorem Store.Extends.header {s s' : Store} (h : s.Extends s') {id : FrameId}
    (hid : id < s.frames.size) : (s'.frame id).header = (s.frame id).header := by
  obtain ⟨more, hmore⟩ := h.frames
  have hlist : id < (s.frames.map Frame.outline).toList.length := by
    rw [Array.length_toList, Array.size_map]
    exact hid
  have hsame : (s'.frames.map Frame.outline)[id]? = (s.frames.map Frame.outline)[id]? := by
    rw [← Array.getElem?_toList, ← Array.getElem?_toList, ← hmore, List.getElem?_append_left hlist]
  rw [Array.getElem?_map, Array.getElem?_map, Array.getElem?_eq_getElem hid] at hsame
  obtain ⟨f, hf, houtline⟩ := Option.map_eq_some_iff.mp hsame
  rw [frame_eq hf, frame_eq (Array.getElem?_eq_getElem hid)]
  have hheader := congrArg Frame.header houtline
  exact hheader

namespace Machine

variable {host : Host} {m : Machine}

theorem Steady.refl (m : Machine) : m.Steady m :=
  ⟨rfl, rfl, rfl⟩

theorem Steady.trans {m₁ m₂ m₃ : Machine} (h : m₁.Steady m₂) (h' : m₂.Steady m₃) :
    m₁.Steady m₃ :=
  ⟨h'.log.trans h.log, h'.calls.trans h.calls, h'.frames.trans h.frames⟩

theorem Steady.update {location : Option Location} {r : Except Cause Store}
    (h : ∀ s, r = .ok s → m.store.Rewrites s) : m.Steady (m.update location r).2 := by
  cases r with
  | error c => exact .refl m
  | ok s =>
    have hs := h s rfl
    exact ⟨rfl, hs.calls, map_header_of_outline hs.frames⟩

theorem perform_steady {a : Action} (h : a.silent = true) : m.Steady (m.perform host a).2 := by
  cases a with
  | writeField id field v location => exact .update fun s hs => .writeField hs
  | assign name v => exact .update fun s hs => .assignName hs
  | write line =>
    change m.Steady (m.write host line).2
    unfold write
    split <;> exact ⟨rfl, rfl, rfl⟩
  | nextWord =>
    change m.Steady m.nextWord.2
    unfold nextWord
    split <;> exact ⟨rfl, rfl, rfl⟩
  | transcribe entry => exact ⟨rfl, rfl, rfl⟩
  | log => cases h
  | emit => cases h
  | newObject => cases h
  | newFrame => cases h
  | enter => cases h
  | leave => cases h
  | liveFrames => cases h
  | defineClass => cases h
  | attachMethod => cases h
  | declareGlobal => cases h
  | lastStep => cases h
  | _ => exact .refl m

/-- Whatever a silent action fails with is raised as new. -/
theorem perform_placed {places : List Location} {a : Action} {e : Raised} (h : a.silent = true)
    (hp : ∀ l, a.place? = some l → l ∈ places) (he : (m.perform host a).1 = .error e) :
    e.PlacedIn places := by
  have hfault : ∀ {α : Type} {r : Except Cause α}, faultAt a.place? r = .error e →
      e.PlacedIn places := by
    intro α r hr
    cases r with
    | ok => cases hr
    | error c =>
      cases hr
      exact ⟨rfl, hp⟩
  have hupdate : ∀ {r : Except Cause Store}, (m.update a.place? r).1 = .error e →
      e.PlacedIn places := by
    intro r hr
    cases r with
    | ok => cases hr
    | error c =>
      cases hr
      exact ⟨rfl, hp⟩
  cases a with
  | lookup name => exact hfault he
  | receiver => exact hfault he
  | readField id field location => exact hfault he
  | findConstructor id member location => exact hfault he
  | findMethod id member location => exact hfault he
  | writeField id field v location => exact hupdate he
  | assign name v => exact hupdate he
  | write line =>
    change (m.write host line).1 = _ at he
    unfold write at he
    split at he
    · cases he
      rfl
    · cases he
  | nextWord =>
    change m.nextWord.1 = _ at he
    unfold nextWord at he
    split at he
    · cases he
    · cases he
      rfl
  | render => cases he
  | constructedClass => cases he
  | result => cases he
  | transcribe => cases he
  | _ => cases h

end Machine

/-- What a silent stretch raises, it ends in at once. -/
theorem Silent.ends {places : List Location} {α : Type} {x : Script α} (h : Silent places x)
    (host : Host) (m : Machine) :
    Script.Ends host x m (m.Steady ·) fun raised n e m' =>
      e = raised ∧ m' = n ∧ raised.PlacedIn places ∧ m.Steady n := by
  induction h generalizing m with
  | done a => exact .done rfl rfl (.refl m)
  | fail h _ => exact .raised rfl rfl ⟨rfl, rfl, h, .refl m⟩
  | @perform a h hp =>
    have hsteady : m.Steady (m.perform host a).2 := Machine.perform_steady h
    have hplaced : ∀ e, (m.perform host a).1 = .error e → e.PlacedIn places :=
      fun _ => Machine.perform_placed h hp
    rcases hr : m.perform host a with ⟨r, m'⟩
    rw [hr] at hsteady hplaced
    cases r with
    | ok r => exact .done hr (Script.origin?_perform_of_ok hr) hsteady
    | error e =>
      have horigin : (Script.perform a).origin? host m = some (e, m') := by
        rw [Script.origin?, hr]
      exact .raised hr horigin ⟨rfl, rfl, hplaced e rfl, hsteady⟩
  | andThen _ _ ihx ihf =>
    refine (ihx m).bind (fun _ _ _ _ h => h) ?_
    intro a m' _ hm
    refine (ihf a m').mono (fun _ hm' => hm.trans hm') ?_
    rintro raised n e m'' ⟨he, hm'', hplaced, hn⟩
    exact ⟨he, hm'', hplaced, hm.trans hn⟩

end ObjectPascal
