import Mathlib.Data.List.Chain
import ObjectPascal.Proofs.Raising

/-!
The trail that calls leave in the log. The last step of a frame that waits for a call is the step
that started the call, so the last steps of the live frames lead from the program to the innermost
call.
-/

namespace ObjectPascal

/-! The last entry of a frame. -/

namespace StepLog

variable {log : StepLog} {f : FrameId} {i n : Nat} {e : LogEntry}

/-- The entry at an index is the last that belongs to a frame. -/
structure IsLast (log : StepLog) (f : FrameId) (i : Nat) (e : LogEntry) : Prop where
  entry : log.entries[i]? = some e
  frame : e.frame = some f
  last : ∀ j a, log.entries[j]? = some a → a.frame = some f → j ≤ i

theorem lastBelow?_eq_some (h : log.lastBelow? f n = some i) :
    i < n ∧ (log.entries[i]?.bind LogEntry.frame) = some f ∧
      ∀ j, i < j → j < n → (log.entries[j]?.bind LogEntry.frame) ≠ some f := by
  induction n with
  | zero => cases h
  | succ n ih =>
    unfold lastBelow? at h
    split at h
    · next hn =>
      cases h
      refine ⟨Nat.lt_succ_self _, hn, ?_⟩
      intro j hj hjn
      omega
    · next hn =>
      obtain ⟨hi, hframe, hlast⟩ := ih h
      refine ⟨Nat.lt_succ_of_lt hi, hframe, ?_⟩
      intro j hj hjn
      rcases Nat.lt_succ_iff_lt_or_eq.mp hjn with hlt | rfl
      · exact hlast j hj hlt
      · exact hn

theorem lastOf?_eq_some (h : log.lastOf? f = some (i, e)) :
    log.lastBelow? f log.size = some i ∧ log.entries[i]? = some e := by
  unfold lastOf? at h
  cases hi : log.lastBelow? f log.size with
  | none =>
    rw [hi] at h
    cases h
  | some k =>
    rw [hi] at h
    cases he : log.entries[k]? with
    | none =>
      simp only [Option.bind_eq_bind, Option.bind_some, he] at h
      cases h
    | some a =>
      simp only [Option.bind_eq_bind, Option.bind_some, he] at h
      cases h
      exact ⟨rfl, he⟩

theorem isLast_of_lastOf? (h : log.lastOf? f = some (i, e)) : log.IsLast f i e := by
  obtain ⟨hbelow, hentry⟩ := lastOf?_eq_some h
  obtain ⟨-, hframe, hlast⟩ := lastBelow?_eq_some hbelow
  rw [hentry] at hframe
  refine ⟨hentry, hframe, ?_⟩
  intro j a ha hj
  by_contra hlt
  obtain ⟨hsize, -⟩ := Array.getElem?_eq_some_iff.mp ha
  apply hlast j (by omega) hsize
  rw [ha]
  exact hj

theorem lastOf?_lt (h : log.lastOf? f = some (i, e)) : i < log.size :=
  (lastBelow?_eq_some (lastOf?_eq_some h).1).1

theorem lastOf?_eq_none (h : ∀ a ∈ log.entries, a.frame ≠ some f) : log.lastOf? f = none := by
  rcases hlast : log.lastOf? f with _ | ⟨i, e⟩
  · rfl
  · have hl := isLast_of_lastOf? hlast
    exact absurd hl.frame (h e (Array.mem_of_getElem? hl.entry))

theorem lastBelow?_push (log : StepLog) (e : LogEntry) (f : FrameId) (h : n ≤ log.size) :
    (log.push e).lastBelow? f n = log.lastBelow? f n := by
  induction n with
  | zero => rfl
  | succ n ih =>
    have hold : (log.push e).entries[n]? = log.entries[n]? := by
      unfold push
      rw [Array.getElem?_push_lt h, Array.getElem?_eq_getElem h]
    rw [lastBelow?, lastBelow?, hold, ih (by omega)]

theorem lastOf?_push_self (h : e.frame = some f) :
    (log.push e).lastOf? f = some (log.size, e) := by
  have hnew : (log.push e).entries[log.size]? = some e := Array.getElem?_push_size
  have hbelow : (log.push e).lastBelow? f (log.push e).size = some log.size := by
    rw [show (log.push e).size = log.size + 1 from Array.size_push _, lastBelow?, hnew]
    exact if_pos h
  rw [lastOf?, hbelow]
  simp only [Option.bind_eq_bind, Option.bind_some, hnew]
  rfl

theorem lastOf?_push_of_ne (h : e.frame ≠ some f) :
    (log.push e).lastOf? f = log.lastOf? f := by
  have hnew : (log.push e).entries[log.size]? = some e := Array.getElem?_push_size
  have hbelow : (log.push e).lastBelow? f (log.push e).size = log.lastBelow? f log.size := by
    rw [show (log.push e).size = log.size + 1 from Array.size_push _, lastBelow?, hnew]
    rw [lastBelow?_push log e f (le_refl _)]
    exact if_neg h
  rw [lastOf?, hbelow, lastOf?]
  cases hi : log.lastBelow? f log.size with
  | none => rfl
  | some i =>
    have hlt : i < log.entries.size := (lastBelow?_eq_some hi).1
    have hold : (log.push e).entries[i]? = log.entries[i]? := by
      unfold push
      rw [Array.getElem?_push_lt hlt, Array.getElem?_eq_getElem hlt]
    simp only [Option.bind_eq_bind, Option.bind_some, hold]

/-- After an entry more, the last entry of a frame is what it was, or the new one. -/
theorem lastOf?_push_cases {a : LogEntry} (h : (log.push e).lastOf? f = some (i, a)) :
    log.lastOf? f = some (i, a) ∨ i = log.size := by
  by_cases hf : e.frame = some f
  · rw [lastOf?_push_self hf] at h
    cases h
    exact .inr rfl
  · rw [lastOf?_push_of_ne hf] at h
    exact .inl h

end StepLog

/-! The trail. -/

/-- The live frames, innermost first. -/
def Store.stack (s : Store) : List FrameId :=
  s.calls.map Activation.frame ++ [globalFrame]

theorem Store.stack_reverse (s : Store) : s.stack.reverse = s.liveFrames := by
  unfold stack liveFrames
  rw [List.reverse_append]
  rfl

theorem Store.stack_eq (s : Store) : ∃ outer, s.stack = s.innermost.frame :: outer := by
  unfold stack innermost
  cases s.calls with
  | nil => exact ⟨[], rfl⟩
  | cons a rest => exact ⟨rest.map Activation.frame ++ [globalFrame], rfl⟩

/-- The innermost frame is the last of the live ones. -/
theorem Store.getLast?_liveFrames (s : Store) :
    s.liveFrames.getLast? = some s.innermost.frame := by
  obtain ⟨outer, houter⟩ := s.stack_eq
  rw [← stack_reverse, List.getLast?_reverse, houter]
  rfl

namespace Machine

variable {host : Host} {m m' : Machine} {f g : FrameId} {places : List Location}

/-- The last step of `f` is the call that `g` is the frame of, and what is done in `g` comes
later. -/
def Leads (m : Machine) (f g : FrameId) : Prop :=
  ∃ i e kind args l, m.log.lastOf? f = some (i, e) ∧
    e.step = .enter kind (m.store.frame g).name args ∧ e.location = some l ∧
    (m.store.frame g).callLocation = some l ∧ ∀ j a, m.log.lastOf? g = some (j, a) → i < j

/-- The live frames are in the order in which they were made, and each leads to the next. -/
structure Trail (m : Machine) : Prop where
  known : ∀ e ∈ m.log.entries, ∀ f, e.frame = some f → f < m.store.frames.size
  live : ∀ f ∈ m.store.stack, f < m.store.frames.size
  order : m.store.stack.Pairwise (· > ·)
  links : m.store.stack.IsChain fun g f => m.Leads f g

/-- The last step of the innermost frame was taken at one of some places. -/
def LastIn (places : List Location) (m : Machine) : Prop :=
  ∃ i e l, m.log.lastOf? m.store.innermost.frame = some (i, e) ∧ e.location = some l ∧ l ∈ places

theorem LastIn.congr (h : m.LastIn places) (hlog : m'.log = m.log)
    (hcalls : m'.store.calls = m.store.calls) : m'.LastIn places := by
  unfold LastIn Store.innermost
  rw [hlog, hcalls]
  exact h

theorem LastIn.record (host : Host) (m : Machine) (step : Step) {location : Location}
    (h : location ∈ places) : (m.record host step (some location)).LastIn places :=
  ⟨_, _, location, StepLog.lastOf?_push_self rfl, rfl, h⟩

/-- More steps elsewhere, and more frames, leave the way from frame to frame as it was. -/
theorem Leads.congr (h : m.Leads f g) (hf : m'.log.lastOf? f = m.log.lastOf? f)
    (hg : ∀ j a, m'.log.lastOf? g = some (j, a) →
      m.log.lastOf? g = some (j, a) ∨ m.log.size ≤ j)
    (hheader : (m'.store.frame g).header = (m.store.frame g).header) : m'.Leads f g := by
  obtain ⟨i, e, kind, args, l, hlast, hstep, hplace, hcall, hlater⟩ := h
  obtain ⟨hname, hsame⟩ := Prod.mk.inj hheader
  refine ⟨i, e, kind, args, l, hf.trans hlast, ?_, hplace, hsame.trans hcall, ?_⟩
  · rw [hname]
    exact hstep
  · intro j a hj
    rcases hg j a hj with hold | hnew
    · exact hlater j a hold
    · exact (StepLog.lastOf?_lt hlast).trans_le hnew

namespace Trail

theorem innermost_lt (h : m.Trail) : m.store.innermost.frame < m.store.frames.size := by
  obtain ⟨outer, hstack⟩ := m.store.stack_eq
  apply h.live
  rw [hstack]
  exact List.mem_cons_self

theorem congr (h : m.Trail) (hlog : m'.log = m.log) (hcalls : m'.store.calls = m.store.calls)
    (hsize : m.store.frames.size ≤ m'.store.frames.size)
    (hheader : ∀ id < m.store.frames.size,
      (m'.store.frame id).header = (m.store.frame id).header) : m'.Trail := by
  have hstack : m'.store.stack = m.store.stack := by
    unfold Store.stack
    rw [hcalls]
  constructor
  · intro e he f hf
    rw [hlog] at he
    exact (h.known e he f hf).trans_le hsize
  · intro f hf
    rw [hstack] at hf
    exact (h.live f hf).trans_le hsize
  · rw [hstack]
    exact h.order
  · rw [hstack]
    refine h.links.imp_of_mem_imp ?_
    intro g f hg _ hleads
    refine hleads.congr ?_ ?_ (hheader g (h.live g hg))
    · rw [hlog]
    · intro j a hj
      rw [hlog] at hj
      exact .inl hj

theorem of_steady (h : m.Trail) (hs : m.Steady m') : m'.Trail := by
  have hsize := congrArg Array.size hs.frames
  rw [Array.size_map, Array.size_map] at hsize
  exact h.congr hs.log hs.calls hsize.ge fun id _ => getD_of_map_eq hs.frames id

/-- A step in the innermost frame: no other frame's last step changes. -/
theorem record (h : m.Trail) (host : Host) (step : Step) (location : Option Location) :
    (m.record host step location).Trail := by
  obtain ⟨outer, hstack⟩ := m.store.stack_eq
  have horder := h.order
  constructor
  · intro e he f hf
    rcases Array.mem_push.mp he with he | rfl
    · exact h.known e he f hf
    · cases hf
      exact h.innermost_lt
  · exact h.live
  · exact h.order
  · refine h.links.imp_of_mem_tail_imp ?_
    intro g f _ hf hleads
    -- the frame that leads is not the innermost one
    have hne : m.store.innermost.frame ≠ f := by
      rw [hstack] at hf horder
      exact ((List.pairwise_cons.mp horder).1 f hf).ne'
    refine hleads.congr (StepLog.lastOf?_push_of_ne ?_) ?_ rfl
    · intro hsame
      exact hne (Option.some.inj hsame)
    · intro j a hj
      exact (StepLog.lastOf?_push_cases hj).imp_right fun hj => hj.ge

theorem left (h : m.Trail) {a : Activation} {outer : List Activation}
    (hcalls : m.store.calls = a :: outer) : m.left.Trail := by
  have hstack : m.store.stack = a.frame :: m.left.store.stack := by
    change _ = a.frame :: (m.store.calls.tail.map Activation.frame ++ [globalFrame])
    unfold Store.stack
    rw [hcalls]
    rfl
  obtain ⟨hknown, hlive, horder, hlinks⟩ := h
  rw [hstack] at hlive horder hlinks
  exact ⟨hknown, fun f hf => hlive f (List.mem_cons_of_mem _ hf), (List.pairwise_cons.mp horder).2,
    hlinks.tail⟩

/-- After a call, the last step of the frame that made it is the call. -/
theorem lastIn_left (h : m.Trail) {a : Activation} {outer : List Activation} {l : Location}
    (hcalls : m.store.calls = a :: outer) (hl : l ∈ places)
    (hplace : (m.store.frame a.frame).callLocation = some l) : m.left.LastIn places := by
  have hstack : ∃ rest, m.store.stack = a.frame :: m.left.store.innermost.frame :: rest := by
    obtain ⟨rest, hrest⟩ := m.left.store.stack_eq
    refine ⟨rest, ?_⟩
    rw [← hrest]
    change _ = a.frame :: (m.store.calls.tail.map Activation.frame ++ [globalFrame])
    unfold Store.stack
    rw [hcalls]
    rfl
  obtain ⟨rest, hstack⟩ := hstack
  have hlinks := h.links
  rw [hstack] at hlinks
  obtain ⟨i, e, kind, args, l', hlast, -, hstep, hcall, -⟩ := (List.isChain_cons_cons.mp hlinks).1
  exact ⟨i, e, l, hlast, hstep.trans (hcall.symm.trans hplace), hl⟩

end Trail

/-! Calls. -/

/-- The machine with a frame more. -/
def framed (m : Machine) (frame : Frame) : Machine :=
  { m with store := (m.store.newFrame frame).1 }

/-- The machine at the start of the body of a method: the frame is made, and the call is logged. -/
def called (host : Host) (m : Machine) (kind : CallKind) (receiver : ObjectId) (method : Method)
    (args : List Value) (location : Option Location) : Machine :=
  ((m.framed (method.frame args location)).record host
    (.enter kind method.qualifiedName (args.map m.store.render)) location).entered
      m.store.frames.size receiver

end Machine

theorem Frame.header_declareAll (f : Frame) (bindings : List (String × Value)) :
    (f.declareAll bindings).header = f.header := by
  unfold declareAll
  induction bindings generalizing f with
  | nil => rfl
  | cons b bindings ih => exact ih (f.declare b.1 b.2)

/-- The frame of a call goes by the name of the method and the place of the call. -/
theorem Method.header_frame (method : Method) (args : List Value) (location : Option Location) :
    (method.frame args location).header = (method.qualifiedName, location) :=
  Frame.header_declareAll _ _

namespace Machine

variable {m : Machine}

theorem Trail.framed (h : m.Trail) (frame : Frame) : (m.framed frame).Trail := by
  refine h.congr rfl rfl ?_ ?_
  · exact (Array.size_push frame).symm ▸ Nat.le_succ _
  · intro id hid
    exact congrArg Frame.header (getD_push_of_lt frame hid)

/-- A call of a frame that is newer than the live ones, once the innermost leads to it. -/
theorem Trail.entered (h : m.Trail) {id : FrameId} (receiver : ObjectId)
    (hid : id < m.store.frames.size) (hnew : ∀ f ∈ m.store.stack, f < id)
    (hleads : m.Leads m.store.innermost.frame id) : (m.entered id receiver).Trail := by
  obtain ⟨outer, hstack⟩ := m.store.stack_eq
  have hentered : (m.entered id receiver).store.stack = id :: m.store.stack := rfl
  refine ⟨h.known, ?_, ?_, ?_⟩
  · rw [hentered]
    exact List.forall_mem_cons.mpr ⟨hid, h.live⟩
  · rw [hentered]
    exact List.pairwise_cons.mpr ⟨hnew, h.order⟩
  · have hlinks := h.links
    rw [hentered]
    rw [hstack] at hlinks ⊢
    exact List.isChain_cons_cons.mpr ⟨hleads, hlinks⟩

theorem header_called (host : Host) (m : Machine) (kind : CallKind) (receiver : ObjectId)
    (method : Method) (args : List Value) (location : Option Location) :
    ((m.called host kind receiver method args location).store.frame m.store.frames.size).header =
      (method.qualifiedName, location) := by
  have hframe := getD_push_size m.store.frames (method.frame args location)
  exact (congrArg Frame.header hframe).trans (method.header_frame args location)

theorem Trail.called (h : m.Trail) (host : Host) (kind : CallKind) (receiver : ObjectId)
    (method : Method) (args : List Value) (location : Location) :
    (m.called host kind receiver method args (some location)).Trail := by
  have hframed := h.framed (method.frame args (some location))
  have hheader := header_called host m kind receiver method args (some location)
  obtain ⟨hname, hplace⟩ := Prod.mk.inj hheader
  have hlive := h.innermost_lt
  -- the new frame appears in no entry, the one of the call included
  have hunused : ∀ e ∈ ((m.framed (method.frame args (some location))).record host
      (.enter kind method.qualifiedName (args.map m.store.render)) (some location)).log.entries,
      e.frame ≠ some m.store.frames.size := by
    intro e he hf
    rcases Array.mem_push.mp he with he | rfl
    · exact lt_irrefl _ (h.known e he _ hf)
    · exact hlive.ne (Option.some.inj hf)
  refine (hframed.record host _ (some location)).entered receiver ?_ h.live ?_
  · exact (Array.size_push (method.frame args (some location))).symm ▸ Nat.lt_succ_self _
  · refine ⟨_, _, kind, args.map m.store.render, location, StepLog.lastOf?_push_self rfl, ?_, rfl,
      hplace, ?_⟩
    · exact congrArg (Step.enter kind · _) hname.symm
    · intro j a hj
      rw [StepLog.lastOf?_eq_none hunused] at hj
      cases hj

/-- At the start of a run nothing has been logged in any frame. -/
theorem Trail.of_start (hstore : m.store = {}) (hlog : m.log = {}) : m.Trail := by
  refine ⟨?_, ?_, ?_, ?_⟩
  · intro e he f hf
    rw [hlog] at he
    rw [Array.mem_singleton.mp he] at hf
    cases hf
  · rw [hstore]
    exact List.forall_mem_singleton.mpr (Nat.lt_succ_self 0)
  · rw [hstore]
    exact List.pairwise_singleton _ _
  · rw [hstore]
    exact .singleton _

/-- Declarations change neither the calls nor the headers of frames. -/
theorem Trail.perform_declares {host : Host} {a : Action} (ha : a.declares = true) (h : m.Trail) :
    (m.perform host a).2.Trail := by
  cases a with
  | defineClass c location =>
    dsimp only [perform, update]
    split
    · next store hs =>
      obtain ⟨-, rfl⟩ := Store.defineNew_ok hs
      exact h.congr rfl rfl (le_refl _) fun _ _ => rfl
    · exact h
  | attachMethod impl =>
    dsimp only [perform]
    split
    · next store method hs =>
      obtain ⟨id, -, rfl, rfl⟩ := Store.attachMethod_ok hs
      exact h.congr rfl rfl (le_refl _) fun _ _ => rfl
    · exact h
  | declareGlobal name v =>
    have hheaders : (m.store.frames.modify globalFrame (·.declare name v)).map Frame.header =
        m.store.frames.map Frame.header := by
      apply map_modify_of_eq
      intro f _
      rfl
    exact h.of_steady ⟨rfl, rfl, hheaders⟩
  | _ => cases ha

end Machine

end ObjectPascal
