import ObjectPascal.Proofs.Trail

/-!
What a machine keeps for good while it serves one run after another: the log grows by one entry for
every step that is logged, frames are made one by one, and no label is used twice.
-/

namespace ObjectPascal

open Script

/-! Labels. -/

theorem Text.ofDigitChars_padded (width n : Nat) :
    Nat.ofDigitChars 10 (Text.padded width n).toList 0 = n := by
  unfold Text.padded
  rw [String.toList_append, String.toList_ofList, Nat.ofDigitChars_append,
    Nat.ofDigitChars_replicate_zero, Nat.mul_zero, Nat.toString_eq_ofList_toDigits,
    String.toList_ofList, Nat.ofDigitChars_ten_toDigits]

/-- A numeral that is too long for its width keeps all its digits. -/
theorem Text.padded_injective (width : Nat) : Function.Injective (Text.padded width) := by
  intro n n' h
  rw [← Text.ofDigitChars_padded width n, h, Text.ofDigitChars_padded]

theorem stateLabel_injective : Function.Injective stateLabel := by
  intro i j h
  unfold stateLabel at h
  exact Text.padded_injective 6 ((String.append_right_inj _).mp h)

theorem Frame.label_injective : Function.Injective Frame.label := by
  intro f g h
  unfold Frame.label at h
  exact Text.padded_injective 4 ((String.append_right_inj _).mp h)

/-! The log. -/

namespace StepLog

variable {log : StepLog} {f : FrameId} {i : Nat} {e : LogEntry}

/-- The state that a step leads to, and the one that it starts from. -/
theorem lookup_record (i : Nat) (step : Step) :
    (record i step).lookup "to_state_id" = some (.string (stateLabel i)) ∧
      (record i step).lookup "from_state_id" =
        some (.string (if i = 0 then "seed" else stateLabel (i - 1))) := by
  cases step <;> exact ⟨rfl, rfl⟩

/-- By induction on the entries, the last one added last. -/
theorem push_induction {P : StepLog → Prop} (hempty : P ⟨#[]⟩)
    (hpush : ∀ log e, P log → P (log.push e)) (log : StepLog) : P log := by
  obtain ⟨⟨entries⟩⟩ := log
  induction entries using List.reverseRecOn with
  | nil => exact hempty
  | append_singleton entries e ih =>
    have h := hpush _ e ih
    unfold push at h
    rwa [List.push_toArray] at h

/-- A frame that entries belong to has a last one. -/
theorem lastOf?_isSome (h : ∃ a ∈ log.entries, a.frame = some f) : (log.lastOf? f).isSome := by
  induction log using push_induction with
  | hempty =>
    obtain ⟨a, ha, -⟩ := h
    cases (Array.not_mem_empty a) ha
  | hpush log e ih =>
    by_cases he : e.frame = some f
    · rw [lastOf?_push_self he]
      rfl
    · rw [lastOf?_push_of_ne he]
      apply ih
      obtain ⟨a, ha, hframe⟩ := h
      rcases Array.mem_push.mp ha with hold | rfl
      · exact ⟨a, hold, hframe⟩
      · exact absurd hframe he

theorem lastOf?_iff : log.lastOf? f = some (i, e) ↔ log.IsLast f i e := by
  constructor
  · exact isLast_of_lastOf?
  · intro h
    have hmem : e ∈ log.entries := Array.mem_of_getElem? h.entry
    obtain ⟨⟨j, a⟩, hlast⟩ := Option.isSome_iff_exists.mp (lastOf?_isSome ⟨e, hmem, h.frame⟩)
    have hfound := isLast_of_lastOf? hlast
    obtain rfl : j = i :=
      Nat.le_antisymm (h.last j a hfound.entry hfound.frame) (hfound.last i e h.entry h.frame)
    have hentry := hfound.entry
    rw [h.entry] at hentry
    cases hentry
    exact hlast

theorem lastOf?_eq_none_iff : log.lastOf? f = none ↔ ∀ a ∈ log.entries, a.frame ≠ some f := by
  constructor
  · intro h a ha hframe
    have hsome := lastOf?_isSome ⟨a, ha, hframe⟩
    rw [h] at hsome
    cases hsome
  · exact lastOf?_eq_none

/-- Puts an entry in the place of the last one of its frame. -/
def note (d : String → Option (Nat × LogEntry)) (i : Nat) (e : LogEntry) :
    String → Option (Nat × LogEntry) :=
  match e.frame with
  | some f => Function.update d (Frame.label f) (some (i, e))
  | none => d

/-- The last entries by the labels of their frames, kept up to date entry by entry. -/
def latest (log : StepLog) : String → Option (Nat × LogEntry) :=
  log.entries.toList.zipIdx.foldl (fun d x => note d x.2 x.1) fun _ => none

theorem latest_push (log : StepLog) (e : LogEntry) :
    (log.push e).latest = note log.latest log.size e := by
  unfold latest push
  rw [Array.toList_push, List.zipIdx_append, List.foldl_append, Nat.zero_add,
    Array.length_toList]
  rfl

/-- What is kept up to date is what a search of the log finds. -/
theorem latest_label (log : StepLog) (f : FrameId) :
    log.latest (Frame.label f) = log.lastOf? f := by
  induction log using push_induction with
  | hempty => rfl
  | hpush log e ih =>
    rw [latest_push, note]
    cases he : e.frame with
    | none =>
      have hne : e.frame ≠ some f := by
        rw [he]
        exact nofun
      rw [lastOf?_push_of_ne hne]
      exact ih
    | some g =>
      dsimp only
      by_cases hg : g = f
      · subst hg
        rw [Function.update_self, lastOf?_push_self he]
      · have hne : e.frame ≠ some f := by
          rw [he]
          exact fun h => hg (Option.some.inj h)
        rw [Function.update_of_ne (Frame.label_injective.ne (Ne.symm hg)), lastOf?_push_of_ne hne]
        exact ih

/-- Nothing is kept under a text that is no label of a frame. -/
theorem label_of_latest {label : String} (h : log.latest label = some (i, e)) :
    ∃ f, label = Frame.label f := by
  induction log using push_induction with
  | hempty => cases h
  | hpush log a ih =>
    rw [latest_push, note] at h
    cases ha : a.frame with
    | none =>
      rw [ha] at h
      exact ih h
    | some g =>
      rw [ha] at h
      dsimp only at h
      by_cases hg : label = Frame.label g
      · exact ⟨g, hg⟩
      · rw [Function.update_of_ne hg] at h
        exact ih h

end StepLog

/-! What actions add. -/

namespace Machine

variable {host : Host} {m : Machine}

theorem notify_log (h : Handler) (occasion : Occasion) (m : Machine) :
    (notify h occasion m).2.log = m.log := by
  unfold notify
  dsimp only
  split
  · rfl
  · split <;> rfl

/-- Handlers have no access to the log. -/
theorem notifyAll_log (hs : List Handler) (occasion : Occasion) (m : Machine) :
    (notifyAll hs occasion m).2.log = m.log := by
  induction hs generalizing m with
  | nil => rfl
  | cons h hs ih =>
    have hfirst := notify_log h occasion m
    unfold notifyAll
    rcases hn : notify h occasion m with ⟨r, m'⟩
    rw [hn] at hfirst
    cases r with
    | error f => exact hfirst
    | ok => exact (ih m').trans hfirst

theorem update_log (m : Machine) (location : Option Location) (r : Except Cause Store) :
    (m.update location r).2.log = m.log := by
  cases r <;> rfl

theorem write_log (host : Host) (line : String) (m : Machine) :
    (m.write host line).2.log = m.log := by
  unfold write
  split <;> rfl

theorem nextWord_log (m : Machine) : m.nextWord.2.log = m.log := by
  unfold nextWord
  split <;> rfl

/-- The entry that a step makes. -/
def entry (host : Host) (step : Step) (location : Option Location) (m : Machine) : LogEntry where
  step := step
  frame := some m.store.innermost.frame
  location := location
  snapshot := if host.verbose then some (m.store.snapshot m.store.innermost.frame) else none

theorem logStep_log (host : Host) (step : Step) (location : Option Location) (m : Machine) :
    (m.logStep host step location).2.log = m.log.push (m.entry host step location) :=
  notifyAll_log _ _ _

end Machine

theorem Store.Rewrites.frames_size {s s' : Store} (h : s.Rewrites s') :
    s'.frames.size = s.frames.size := by
  have hsize := congrArg Array.size h.frames
  rwa [Array.size_map, Array.size_map] at hsize

/-- An action that is about to be carried out. -/
structure Moment where
  host : Host
  machine : Machine
  action : Action

namespace Moment

def after (x : Moment) : Machine :=
  (x.machine.perform x.host x.action).2

/-- The entry that is made, with its index. -/
def logged? (x : Moment) : Option (Nat × LogEntry) :=
  match x.action with
  | .log step location => some (x.machine.log.size, x.machine.entry x.host step location)
  | _ => none

/-- The frame that is made. -/
def made? (x : Moment) : Option FrameId :=
  match x.action with
  | .newFrame method args location => some (x.machine.store.newFrame (method.frame args location)).2
  | _ => none

/-- Logging a step adds its entry, and nothing else changes the log. -/
theorem after_log (x : Moment) :
    x.after.log.entries.toList =
      x.machine.log.entries.toList ++ (x.logged?.map Prod.snd).toList := by
  obtain ⟨host, m, a⟩ := x
  have same (h : (m.perform host a).2.log = m.log) :
      (m.perform host a).2.log.entries.toList = m.log.entries.toList ++ [] := by
    rw [h, List.append_nil]
  cases a with
  | log step location =>
    change (m.logStep host step location).2.log.entries.toList = _
    rw [Machine.logStep_log]
    exact Array.toList_push
  | emit event => exact same (Machine.notifyAll_log _ _ _)
  | writeField => exact same (Machine.update_log _ _ _)
  | assign => exact same (Machine.update_log _ _ _)
  | write line => exact same (Machine.write_log host line m)
  | nextWord => exact same (Machine.nextWord_log m)
  | defineClass => exact same (Machine.update_log _ _ _)
  | attachMethod impl =>
    refine same ?_
    dsimp only [Machine.perform]
    split <;> rfl
  | _ => exact same rfl

/-- Entries are numbered as they are made. -/
theorem logged?_next (x : Moment) :
    (x.logged?.map Prod.fst = none ∧ x.after.log.size = x.machine.log.size) ∨
      (x.logged?.map Prod.fst = some x.machine.log.size ∧
        x.after.log.size = x.machine.log.size + 1) := by
  have hsize := congrArg List.length x.after_log
  rw [List.length_append, Array.length_toList, Array.length_toList] at hsize
  obtain ⟨host, m, a⟩ := x
  cases a with
  | log step location => exact .inr ⟨rfl, hsize⟩
  | _ => exact .inl ⟨rfl, hsize⟩

theorem size_after {x : Moment} {i : Nat} {e : LogEntry} (h : x.logged? = some (i, e)) :
    x.machine.log.size = i ∧ x.after.log.size = i + 1 := by
  obtain ⟨hx, -⟩ | ⟨hx, hnext⟩ := x.logged?_next
  · rw [h] at hx
    cases hx
  · rw [h] at hx
    cases hx
    exact ⟨rfl, hnext⟩

/-- Making a frame adds one to their number, and nothing else changes it. -/
theorem after_frames (x : Moment) :
    x.after.store.frames.size = x.machine.store.frames.size + x.made?.toList.length := by
  obtain ⟨host, m, a⟩ := x
  change (m.perform host a).2.store.frames.size = m.store.frames.size + _
  have update {location : Option Location} {r : Except Cause Store}
      (h : ∀ s, r = .ok s → s.frames.size = m.store.frames.size) :
      (m.update location r).2.store.frames.size = m.store.frames.size :=
    Machine.update_store (P := fun s => s.frames.size = m.store.frames.size) rfl h
  have assigns : Store.AssignKeeps (fun s => s.frames.size = m.store.frames.size) fun _ => True :=
    fun hs _ hassign => (Store.Rewrites.assign hassign).frames_size.trans hs
  cases a with
  | log step location =>
    exact Machine.logStep_keeps assigns (Machine.all_assigns _ _) rfl step location
  | emit event => exact Machine.emit_keeps assigns (Machine.all_assigns _ _) rfl event
  | writeField => exact update fun _ hs => (Store.Rewrites.writeField hs).frames_size
  | assign => exact update fun _ hs => (Store.Rewrites.assignName hs).frames_size
  | newFrame => exact Array.size_push _
  | write line =>
    change (m.write host line).2.store.frames.size = _
    rw [Machine.write_store]
    rfl
  | nextWord =>
    change m.nextWord.2.store.frames.size = _
    rw [Machine.nextWord_store]
    rfl
  | defineClass =>
    refine update fun s hs => ?_
    obtain ⟨-, rfl⟩ := Store.defineNew_ok hs
    rfl
  | attachMethod impl =>
    dsimp only [Machine.perform]
    split
    · next hs =>
      obtain ⟨id, -, -, rfl⟩ := Store.attachMethod_ok hs
      rfl
    · rfl
  | declareGlobal => exact Array.size_modify
  | _ => rfl

/-- Frames are numbered as they are made. -/
theorem made?_next (x : Moment) :
    (x.made? = none ∧ x.after.store.frames.size = x.machine.store.frames.size) ∨
      (x.made? = some x.machine.store.frames.size ∧
        x.after.store.frames.size = x.machine.store.frames.size + 1) := by
  have hsize := x.after_frames
  obtain ⟨host, m, a⟩ := x
  cases a with
  | newFrame => exact .inr ⟨rfl, hsize⟩
  | _ => exact .inl ⟨rfl, hsize⟩

end Moment

/-! Runs and sessions. -/

/-- Moments that follow one another, from one machine to another. -/
inductive Path : Machine → List Moment → Machine → Prop
  | nil (m : Machine) : Path m [] m
  | cons (x : Moment) {xs : List Moment} {m' : Machine} (h : Path x.after xs m') :
      Path x.machine (x :: xs) m'

theorem Path.append {m m' m'' : Machine} {xs ys : List Moment} (h : Path m xs m')
    (h' : Path m' ys m'') : Path m (xs ++ ys) m'' := by
  induction h with
  | nil => exact h'
  | cons x _ ih => exact .cons x (ih h')

/-- The moments of a script in its surroundings. -/
def Script.timeline {α : Type} (host : Host) (x : Script α) (m : Machine) : List Moment :=
  (x.moments host m).map fun p => ⟨host, p.1, p.2⟩

theorem Script.path {α : Type} (host : Host) (x : Script α) (m : Machine) :
    Path m (x.timeline host m) (x.run host m).2 := by
  induction x generalizing m with
  | done a => exact .nil m
  | fail e => exact .nil m
  | perform a => exact .cons ⟨host, m, a⟩ (.nil _)
  | andThen x f ihx ihf =>
    change Path m ((x >>= f).timeline host m) ((x >>= f).run host m).2
    have hfirst := ihx m
    unfold timeline
    rw [moments_bind, run_bind, List.map_append]
    rcases hr : x.run host m with ⟨r, m'⟩
    rw [hr] at hfirst
    cases r with
    | ok a => exact hfirst.append (ihf a m')
    | error e => exact hfirst.append (.nil m')
  | attempt x ih => exact ih m

/-- A script to be carried out in its surroundings. -/
structure Task where
  host : Host
  script : Script Unit

/-- Tasks one after another on the same machine; the failure of one ends that one only. -/
abbrev Session := List Task

namespace Session

def run : Session → Machine → Machine
  | [], m => m
  | t :: s, m => run s (t.script.run t.host m).2

def timeline : Session → Machine → List Moment
  | [], _ => []
  | t :: s, m => t.script.timeline t.host m ++ timeline s (t.script.run t.host m).2

theorem path (s : Session) (m : Machine) : Path m (s.timeline m) (s.run m) := by
  induction s generalizing m with
  | nil => exact .nil m
  | cons t s ih => exact (t.script.path t.host m).append (ih _)

end Session

namespace Path

variable {m m' : Machine} {xs : List Moment}

/-- The log has the entries that were there and then those that the moments made. -/
theorem entries (h : Path m xs m') :
    m'.log.entries.toList =
      m.log.entries.toList ++ (xs.filterMap Moment.logged?).map Prod.snd := by
  induction h with
  | nil => exact (List.append_nil _).symm
  | @cons x xs m' _ ih =>
    rw [ih, x.after_log, List.append_assoc]
    cases hx : x.logged? with
    | none =>
      rw [List.filterMap_cons_none hx]
      rfl
    | some entry =>
      rw [List.filterMap_cons_some hx]
      rfl

/-- What is numbered as it is made is numbered without gaps. -/
theorem numbered (count : Machine → Nat) (number? : Moment → Option Nat)
    (hnext : ∀ x : Moment, (number? x = none ∧ count x.after = count x.machine) ∨
      (number? x = some (count x.machine) ∧ count x.after = count x.machine + 1))
    (h : Path m xs m') :
    count m' = count m + (xs.filterMap number?).length ∧
      xs.filterMap number? = List.range' (count m) (xs.filterMap number?).length := by
  induction h with
  | nil => exact ⟨rfl, rfl⟩
  | @cons x xs m' _ ih =>
    obtain ⟨hcount, hnumbers⟩ := ih
    obtain ⟨hx, hsame⟩ | ⟨hx, hmore⟩ := hnext x
    · rw [List.filterMap_cons_none hx, ← hsame]
      exact ⟨hcount, hnumbers⟩
    · rw [hmore] at hcount hnumbers
      rw [List.filterMap_cons_some hx, List.length_cons, List.range'_succ, ← hnumbers]
      refine ⟨?_, rfl⟩
      omega

/-- Each entry is made under the next index. -/
theorem indices (h : Path m xs m') :
    m'.log.size = m.log.size + (xs.filterMap Moment.logged?).length ∧
      (xs.filterMap Moment.logged?).map Prod.fst =
        List.range' m.log.size (xs.filterMap Moment.logged?).length := by
  have hnumbers :=
    h.numbered (fun m => m.log.size) (fun x => x.logged?.map Prod.fst) Moment.logged?_next
  rwa [← List.map_filterMap, List.length_map] at hnumbers

/-- Frames are made one by one. -/
theorem frames (h : Path m xs m') :
    m'.store.frames.size = m.store.frames.size + (xs.filterMap Moment.made?).length ∧
      xs.filterMap Moment.made? =
        List.range' m.store.frames.size (xs.filterMap Moment.made?).length :=
  h.numbered (fun m => m.store.frames.size) Moment.made? Moment.made?_next

/-- An entry that was made stays as it is. -/
theorem entries_grow (h : Path m xs m') : m.log.entries.toList <+: m'.log.entries.toList := by
  rw [h.entries]
  exact List.prefix_append _ _

/-- A moment on the way: what leads to it, and what comes of it. -/
theorem split (h : Path m xs m') {x : Moment} (hx : x ∈ xs) :
    (∃ before, Path m before x.machine) ∧ ∃ later, Path x.after later m' := by
  induction h with
  | nil => cases hx
  | cons y htail ih =>
    rcases List.mem_cons.mp hx with rfl | hx
    · exact ⟨⟨[], .nil _⟩, ⟨_, htail⟩⟩
    · obtain ⟨⟨before, hbefore⟩, hlater⟩ := ih hx
      exact ⟨⟨_, .cons y hbefore⟩, hlater⟩

/-- Each log on the way is the beginning of those after it. -/
theorem logs_pairwise (h : Path m xs m') :
    (xs.map (·.machine.log.entries.toList) ++ [m'.log.entries.toList]).Pairwise (· <+: ·) := by
  induction h with
  | nil => exact List.pairwise_singleton _ _
  | @cons x xs m' htail ih =>
    have hfirst : x.machine.log.entries.toList <+: x.after.log.entries.toList :=
      (Path.cons x (.nil _)).entries_grow
    have hlater : ∀ entries ∈ xs.map (·.machine.log.entries.toList) ++ [m'.log.entries.toList],
        x.after.log.entries.toList <+: entries := by
      rw [List.forall_mem_append]
      constructor
      · intro entries he
        obtain ⟨y, hy, rfl⟩ := List.mem_map.mp he
        obtain ⟨⟨_, hbefore⟩, -⟩ := htail.split hy
        exact hbefore.entries_grow
      · exact List.forall_mem_singleton.mpr htail.entries_grow
    exact List.pairwise_cons.mpr ⟨fun entries he => hfirst.trans (hlater entries he), ih⟩

end Path

end ObjectPascal
