import ObjectPascal.Proofs.Contract
import ObjectPascal.Proofs.Handlers
import ObjectPascal.Proofs.Wellformed

/-!
The terms on which programs are run: which words there are to read, and which failures may come of
a run. On any terms, scripts hand on numbers of the Integer type only, and plain bodies; and
machines that are asked for nothing else keep to such.
-/

namespace ObjectPascal

structure Terms where
  /-- The words that are read. -/
  words : String → Prop
  /-- What a fault of the program may be. -/
  causes : Cause → Prop
  /-- What may fail in the surroundings of the program. -/
  outside : HostCause → Prop
  proper : ∀ {c}, c.isProper = true → causes c
  digits : ∀ {word : String}, words word → Text.isSignedNumeral word.toList = true →
    Text.maxDigits < (Text.splitSign word.toList).2.length →
      outside (.tooManyDigits (Text.splitSign word.toList).2.length)
  internal : ∀ {c}, outside c → causes (.internal c.message)

/-- A line that writing gives: the text of a value, or nothing. -/
def Printed (line : String) : Prop :=
  line = "" ∨ ∃ v : Value, v.Fits ∧ line = v.printed

namespace Terms

variable (t : Terms)

/-- How a run may fail; calls may always be nested too deep. -/
def Fails : Raised → Prop
  | .runtime e => t.causes e.cause
  | .host f => t.outside f.cause
  | .exhausted _ => True

variable {t}

/-- Where a fault came from and what was live then does not matter. -/
theorem Fails.locate {raised : Raised} (h : t.Fails raised) (location : Location) :
    t.Fails (raised.locate location) := by
  cases raised <;> exact h

theorem Fails.capture {raised : Raised} (h : t.Fails raised) (frames : List FrameId) :
    t.Fails (raised.capture frames) := by
  cases raised <;> exact h

variable (t)

/-- Scripts hand on numbers of the Integer type and plain bodies, and get such. -/
def contract : Contract where
  allows
    | .render v | .assign _ v | .writeField _ _ v _ | .declareGlobal _ v => v.Fits
    | .newFrame m args _ => m.Runnable ∧ Every Value.Fits args
    | .defineClass c _ => c.Wellformed
    | .attachMethod impl => impl.Plain
    | .write line => Printed line
    | _ => True
  gives
    | .lookup _, v => Value.Fits v
    | .readField .., v => Value.Fits v
    | .result _, v => Value.Fits v
    | .findConstructor .., m => Method.Runnable m
    | .findMethod .., r => Method.Runnable r.1
    | .nextWord, word => ∀ w, word = some w → t.words w
    | _, _ => True
  fails := t.Fails

/-- What asking for a word may come to. -/
def Reads : Except String (Option String) → Prop
  | .ok word => ∀ w, word = some w → t.words w
  | .error text => t.outside (.inputFailed text)

/-- The surroundings do not interfere beyond what may fail: handlers assign numbers of the Integer
type only, and where there are handlers, they may raise any fault. -/
structure Suits (host : Host) : Prop where
  handlers : host.hooks.All (Handler.Assigns Store.Wellformed Value.Fits)
  faults : host.hooks ≠ {} → ∀ c, t.causes c
  output : ∀ n text, host.refuse n = some text → t.outside (.outputRefused text)

end Terms

/-! Input. -/

/-- Asking brings words that may be read, or fails in a way that may be. -/
def Reply.Wellformed (t : Terms) : Reply → Prop
  | .line text => Every t.words (Text.words text)
  | .nothing => True
  | .failure text => t.outside (.inputFailed text)

structure Input.Wellformed (t : Terms) (input : Input) : Prop where
  pending : Every t.words input.pending
  replies : Every (Reply.Wellformed t) input.replies

theorem Input.refill_wellformed {t : Terms} (asked : Nat) {replies : List Reply}
    (h : Every (Reply.Wellformed t) replies) :
    t.Reads (Input.refill asked replies).1 ∧ (Input.refill asked replies).2.Wellformed t := by
  induction replies generalizing asked with
  | nil => exact ⟨nofun, nofun, nofun⟩
  | cons reply replies ih =>
    obtain ⟨hfirst, hrest⟩ := List.forall_mem_cons.mp h
    cases reply with
    | nothing => exact ⟨nofun, nofun, hrest⟩
    | failure => exact ⟨hfirst, nofun, hrest⟩
    | line text =>
      rw [Input.refill]
      change Every t.words (Text.words text) at hfirst
      split
      · exact ih (asked + 1) hrest
      · next word more hw =>
        rw [hw] at hfirst
        obtain ⟨hword, hmore⟩ := List.forall_mem_cons.mp hfirst
        refine ⟨?_, hmore, hrest⟩
        intro w hw'
        cases hw'
        exact hword

theorem Input.nextWord_wellformed {t : Terms} {input : Input} (h : input.Wellformed t) :
    t.Reads input.nextWord.1 ∧ input.nextWord.2.Wellformed t := by
  unfold Input.nextWord
  split
  · next word more hp =>
    have hpending := h.pending
    rw [hp] at hpending
    obtain ⟨hword, hmore⟩ := List.forall_mem_cons.mp hpending
    refine ⟨?_, hmore, h.replies⟩
    intro w hw
    cases hw
    exact hword
  · exact Input.refill_wellformed _ h.replies

/-! Machines. -/

structure Machine.Wellformed (t : Terms) (m : Machine) : Prop where
  store : m.store.Wellformed
  input : m.input.Wellformed t

theorem Store.Wellformed.assignKeeps : Store.AssignKeeps Store.Wellformed Value.Fits := by
  intro s s' name v hs hv h
  have hassign := hs.assign name hv
  rw [h] at hassign
  exact hassign

namespace Terms

variable {t : Terms} {host : Host} {m : Machine}

/-- A fault that a program can be blamed for may be, wherever it arises. -/
theorem accepts_faultAt {α : Type} {r : Except Cause α} {Q : α → Prop} (h : Expects r Q)
    (location : Option Location) : t.contract.Accepts Q (faultAt location r) := by
  cases r with
  | ok a => exact h
  | error c => exact t.proper h

theorem accepts_update (hm : m.Wellformed t) {r : Except Cause Store}
    (h : Expects r Store.Wellformed) (location : Option Location) :
    t.contract.Accepts (fun _ => True) (m.update location r).1 ∧
      (m.update location r).2.Wellformed t := by
  cases r with
  | ok s => exact ⟨trivial, h, hm.input⟩
  | error c => exact ⟨t.proper h, hm⟩

/-- Telling handlers may end in a fault of any kind, but only where there are handlers. -/
theorem Suits.tells (hs : t.Suits host) {handlers : List Handler}
    (hh : ∀ h ∈ handlers, h.Assigns Store.Wellformed Value.Fits)
    (hnone : host.hooks = {} → handlers = []) (observer : String) (location : Option Location)
    (occasion : Occasion) (hm : m.Wellformed t) :
    t.contract.Accepts (fun _ => True)
        (Machine.judge observer location (Machine.notifyAll handlers occasion m).1) ∧
      (Machine.notifyAll handlers occasion m).2.Wellformed t := by
  refine ⟨?_, ?_, ?_⟩
  · cases hr : (Machine.notifyAll handlers occasion m).1 with
    | ok => trivial
    | error f =>
      have hany : ∀ c, t.causes c := by
        apply hs.faults
        intro he
        rw [hnone he] at hr
        cases hr
      cases f with
      | fault error => exact hany error.cause
      | host text => exact hany (.observerFailed observer text)
  · exact (Machine.notifyAll_keeps Store.Wellformed.assignKeeps hm.store hh).1
  · rw [Machine.notifyAll_input]
    exact hm.input

/-- In surroundings that suit, every machine keeps to the contract while it is well formed. -/
theorem holds (hs : t.Suits host) : t.contract.Holds host (Machine.Wellformed t) := by
  intro m a hm ha
  cases a with
  | log step location =>
    refine hs.tells (hs.handlers.dueHandlers _) ?_ _ _ _ ⟨hm.store, hm.input⟩
    intro he
    rw [he]
    rfl
  | emit event =>
    refine hs.tells (hs.handlers.handlers _) ?_ _ _ _ hm
    intro he
    rw [he]
    rfl
  | render value => exact ⟨trivial, hm⟩
  | lookup name => exact ⟨accepts_faultAt (hm.store.lookup name) none, hm⟩
  | receiver => exact ⟨accepts_faultAt (Store.Wellformed.requireSelf _) none, hm⟩
  | readField id field location => exact ⟨accepts_faultAt (hm.store.readField id field) _, hm⟩
  | writeField id field v location => exact accepts_update hm (hm.store.writeField id field ha) _
  | assign name v => exact accepts_update hm (hm.store.assignName name ha) _
  | constructedClass left => exact ⟨trivial, hm⟩
  | findConstructor id member location =>
    exact ⟨accepts_faultAt (hm.store.findConstructor id member) _, hm⟩
  | findMethod id member location => exact ⟨accepts_faultAt (hm.store.findMethod id member) _, hm⟩
  | newObject id => exact ⟨trivial, hm.store.newObject id, hm.input⟩
  | newFrame method args location =>
    exact ⟨trivial, hm.store.newFrame (method.frame_wellformed ha.2 location), hm.input⟩
  | enter frame receiver =>
    exact ⟨trivial, ⟨hm.store.classes, hm.store.objects, hm.store.frames⟩, hm.input⟩
  | leave => exact ⟨trivial, ⟨hm.store.classes, hm.store.objects, hm.store.frames⟩, hm.input⟩
  | liveFrames => exact ⟨trivial, hm⟩
  | result frame => exact ⟨(hm.store.frame frame).result, hm⟩
  | write line =>
    change t.contract.Accepts _ (m.write host line).1 ∧ (m.write host line).2.Wellformed t
    unfold Machine.write
    split
    · next text hrefused => exact ⟨hs.output _ _ hrefused, hm⟩
    · exact ⟨trivial, hm.store, hm.input⟩
  | nextWord =>
    obtain ⟨hreads, hinput⟩ := Input.nextWord_wellformed hm.input
    change t.contract.Accepts _ m.nextWord.1 ∧ m.nextWord.2.Wellformed t
    unfold Machine.nextWord
    rcases hn : m.input.nextWord with ⟨r, input⟩
    rw [hn] at hreads hinput
    cases r with
    | ok word => exact ⟨hreads, hm.store, hinput⟩
    | error text => exact ⟨hreads, hm.store, hinput⟩
  | transcribe entry => exact ⟨trivial, hm.store, hm.input⟩
  | defineClass decl location => exact accepts_update hm (hm.store.defineNew ha) _
  | attachMethod impl =>
    have hplain : ∀ name, (impl.method name).Plain := by
      intro name ss hss
      cases hss
      exact ha
    have h := hm.store.attachMethod impl.className hplain
    dsimp only [Machine.perform]
    cases hr : m.store.attachMethod impl.className impl.method with
    | ok r =>
      rw [hr] at h
      exact ⟨trivial, h, hm.input⟩
    | error c =>
      rw [hr] at h
      exact ⟨t.proper h, hm⟩
  | declareGlobal name v => exact ⟨trivial, hm.store.declareGlobal name ha, hm.input⟩
  | lastStep => exact ⟨trivial, hm⟩

end Terms

end ObjectPascal
