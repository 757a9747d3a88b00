import ObjectPascal.Proofs.EventOrder
import ObjectPascal.Proofs.Raising
import ObjectPascal.Proofs.Reading

/-!
What the transcript tells of a run. Output and transcript are written apart, line by line the one
and entry by entry the other; they part company only where the output refuses a line. A run that
ends well can be repeated from the words that its transcript has.
-/

namespace ObjectPascal

open Script

/-! Entries. -/

namespace TranscriptEntry

/-- The lines of an entry: each value is on one of its own, and no value gives an empty one. -/
def lines : TranscriptEntry → List String
  | .writeln values => if values.isEmpty then [""] else values
  | .readln _ => []

def word? : TranscriptEntry → Option String
  | .writeln _ => none
  | .readln word => some word

end TranscriptEntry

namespace Machine

/-- The lines that the transcript tells of. -/
def told (m : Machine) : List String :=
  m.transcript.toList.flatMap TranscriptEntry.lines

/-- The words that the transcript tells of. -/
def heard (m : Machine) : List String :=
  m.transcript.toList.filterMap TranscriptEntry.word?

theorem told_of_transcript {m m' : Machine} (h : m'.transcript = m.transcript) :
    m'.told = m.told := by
  unfold told
  rw [h]

theorem heard_of_transcript {m m' : Machine} (h : m'.transcript = m.transcript) :
    m'.heard = m.heard := by
  unfold heard
  rw [h]

/-- The machine once an entry is in its transcript. -/
def noted (m : Machine) (entry : TranscriptEntry) : Machine :=
  { m with transcript := m.transcript.push entry }

theorem told_noted (m : Machine) (entry : TranscriptEntry) :
    (m.noted entry).told = m.told ++ entry.lines := by
  unfold told noted
  rw [Array.toList_push, List.flatMap_append, List.flatMap_singleton]

theorem heard_noted (m : Machine) (entry : TranscriptEntry) :
    (m.noted entry).heard = m.heard ++ entry.word?.toList := by
  unfold heard noted
  rw [Array.toList_push, List.filterMap_append]
  cases entry <;> rfl

/-- The transcript accounts for every line written, and for every word of some that is not to come
any more. -/
structure Faithful (words : List String) (m : Machine) : Prop where
  output : m.output.toList = m.told
  input : m.heard ++ m.input.words = words
  lined : m.input.Lined

theorem Faithful.prefix {words : List String} {m : Machine} (h : m.Faithful words) :
    m.heard <+: words :=
  ⟨m.input.words, h.input⟩

theorem faithful_fresh (lines : List String) :
    (Machine.fresh lines).Faithful (lines.flatMap Text.words) :=
  ⟨rfl, words_fresh lines, lined_fresh lines⟩

/-- Nothing is written, read or noted on the way from `m` to `m'`. -/
structure SameTalk (m m' : Machine) : Prop where
  output : m'.output = m.output
  transcript : m'.transcript = m.transcript
  input : m'.input = m.input

namespace SameTalk

variable {m m₁ m₂ : Machine}

theorem refl (m : Machine) : m.SameTalk m :=
  ⟨rfl, rfl, rfl⟩

theorem trans (h : m.SameTalk m₁) (h' : m₁.SameTalk m₂) : m.SameTalk m₂ :=
  ⟨h'.output.trans h.output, h'.transcript.trans h.transcript, h'.input.trans h.input⟩

theorem told (h : m.SameTalk m₁) : m₁.told = m.told :=
  told_of_transcript h.transcript

theorem heard (h : m.SameTalk m₁) : m₁.heard = m.heard :=
  heard_of_transcript h.transcript

theorem faithful {words : List String} (h : m.SameTalk m₁) (hm : m.Faithful words) :
    m₁.Faithful words := by
  refine ⟨?_, ?_, ?_⟩
  · rw [h.output, h.told]
    exact hm.output
  · rw [h.input, h.heard]
    exact hm.input
  · rw [h.input]
    exact hm.lined

end SameTalk

/-- On the way from `m` to `m'` the output has taken some lines. -/
structure Wrote (lines : List String) (m m' : Machine) : Prop where
  output : m'.output.toList = m.output.toList ++ lines
  transcript : m'.transcript = m.transcript
  input : m'.input = m.input

theorem Wrote.refl (m : Machine) : m.Wrote [] m :=
  ⟨(List.append_nil _).symm, rfl, rfl⟩

theorem Wrote.cons {line : String} {lines : List String} {m m' : Machine}
    (h : Wrote lines { m with output := m.output.push line } m') : m.Wrote (line :: lines) m' := by
  refine ⟨h.output.trans ?_, h.transcript, h.input⟩
  rw [Array.toList_push, List.append_assoc]
  rfl

end Machine

/-! Scripts that neither write nor read. -/

def Action.mute : Action → Bool
  | .write _ | .nextWord | .transcribe _ => false
  | _ => true

theorem Machine.sameTalk_update (m : Machine) (location : Option Location)
    (r : Except Cause Store) : m.SameTalk (m.update location r).2 := by
  cases r <;> exact ⟨rfl, rfl, rfl⟩

theorem Machine.perform_sameTalk {host : Host} (hh : host.hooks = {}) {a : Action}
    (ha : a.mute = true) (m : Machine) : m.SameTalk (m.perform host a).2 := by
  cases a with
  | log step location =>
    change m.SameTalk (m.logStep host step location).2
    rw [logStep_of_no_hooks hh]
    exact ⟨rfl, rfl, rfl⟩
  | emit event =>
    change m.SameTalk (m.emit host event).2
    rw [emit_of_no_hooks hh]
    exact .refl m
  | writeField => exact sameTalk_update ..
  | assign => exact sameTalk_update ..
  | defineClass => exact sameTalk_update ..
  | attachMethod impl =>
    dsimp only [perform]
    cases m.store.attachMethod impl.className impl.method <;> exact ⟨rfl, rfl, rfl⟩
  | write => cases ha
  | nextWord => cases ha
  | transcribe => cases ha
  | _ => exact ⟨rfl, rfl, rfl⟩

def Action.writes : Action → Bool
  | .write _ => true
  | _ => false

inductive Mute : {α : Type} → Script α → Prop
  | done {α : Type} (a : α) : Mute (.done a)
  | fail {α : Type} (e : Raised) : Mute (.fail e : Script α)
  | perform {a : Action} (h : a.mute = true) : Mute (.perform a)
  | andThen {α β : Type} {x : Script α} {f : α → Script β} (hx : Mute x) (hf : ∀ a, Mute (f a)) :
      Mute (.andThen x f)
  | attempt {α : Type} {x : Script α} (hx : Mute x) : Mute x.attempt

namespace Mute

variable {α β : Type}

theorem pure (a : α) : Mute (Pure.pure a : Script α) :=
  .done a

theorem fault (location : Option Location) (c : Cause) :
    Mute (Script.fault location c : Script α) :=
  .fail _

theorem bind {x : Script α} {f : α → Script β} (hx : Mute x) (hf : ∀ a, Mute (f a)) :
    Mute (x >>= f) :=
  .andThen hx hf

theorem sameTalk {x : Script α} (h : Mute x) {host : Host} (hh : host.hooks = {}) (m : Machine) :
    m.SameTalk (x.run host m).2 := by
  induction h generalizing m with
  | done a => exact .refl m
  | fail e => exact .refl m
  | perform h => exact Machine.perform_sameTalk hh h m
  | @andThen _ _ x f _ _ ihx ihf =>
    change m.SameTalk ((x >>= f).run host m).2
    have hx := ihx m
    obtain ⟨a, m', hr, hb⟩ | ⟨e, m', hr, hb⟩ := run_bind_cases host x f m
    all_goals rw [hr] at hx
    all_goals rw [hb]
    · exact hx.trans (ihf a m')
    · exact hx
  | attempt _ ih => exact ih m

theorem mute_of_mem {x : Script α} (h : Mute x) {host : Host} {m : Machine} {p : Machine × Action}
    (hp : p ∈ x.moments host m) : p.2.mute = true := by
  induction h generalizing m with
  | done a => cases hp
  | fail e => cases hp
  | perform h =>
    rw [moments_perform, List.mem_singleton] at hp
    rw [hp]
    exact h
  | andThen _ _ ihx ihf =>
    rcases mem_moments_bind.mp hp with hp | ⟨a, m', -, hp⟩
    · exact ihx hp
    · exact ihf a hp
  | attempt _ ih => exact ih hp

theorem renderAll (vs : List Value) : Mute (renderAll vs) := by
  induction vs with
  | nil => exact .pure _
  | cons v vs ih => exact .bind (.perform rfl) fun _ => .bind ih fun _ => .pure _

theorem expectInt (location : Location) (v : Value) : Mute (expectInt location v) := by
  cases v with
  | int n => exact .pure n
  | object id => exact .fault _ _
  | nil => exact .fault _ _

theorem narrow (n : Int) : Mute (narrow n) := by
  unfold ObjectPascal.narrow
  split
  · exact .pure _
  · exact .fail _

theorem arithmetic (location : Location) (op : Operator) (a b : Int) :
    Mute (arithmetic location op a b) := by
  cases op with
  | add => exact narrow _
  | sub => exact narrow _
  | mul => exact narrow _
  | div =>
    unfold ObjectPascal.arithmetic
    cases Word.quotient? a b with
    | none => exact .fault _ _
    | some q => exact narrow q
  | other symbol => exact .fault _ _

theorem resolveObject (base : String) (location : Location) :
    Mute (resolveObject base location) := by
  unfold ObjectPascal.resolveObject
  split
  · exact .perform rfl
  · refine .bind (.perform rfl) fun v => ?_
    cases v with
    | int n => exact .fault _ _
    | object id => exact .pure id
    | nil => exact .fault _ _

theorem readDesignator (d : Designator) : Mute (readDesignator d) := by
  unfold ObjectPascal.readDesignator
  split
  · exact .perform rfl
  · exact .bind (resolveObject _ _) fun _ => .perform rfl
  · exact .fault _ _

theorem writeDesignator (d : Designator) (v : Value) : Mute (writeDesignator d v) := by
  unfold ObjectPascal.writeDesignator
  split
  · exact .perform rfl
  · exact .bind (resolveObject _ _) fun _ => .perform rfl
  · exact .fault _ _

theorem checkArity (m : Method) (args : List Value) (location : Option Location) :
    Mute (checkArity m args location) := by
  unfold ObjectPascal.checkArity
  split
  · exact .pure _
  · exact .fault _ _

theorem callResult (m : Method) (frame : FrameId) : Mute (callResult m frame) := by
  unfold ObjectPascal.callResult
  split
  · exact .perform rfl
  · exact .pure _

/-- What declares things neither writes nor reads. -/
theorem of_declares {x : Script α} (h : Declares x) : Mute x := by
  induction h with
  | done a => exact .done a
  | fail e => exact .fail e
  | @perform a h =>
    refine .perform ?_
    cases a <;> first | rfl | cases h
  | log step location => exact .perform rfl
  | andThen _ _ ihx ihf => exact .andThen ihx ihf

theorem report (raised : Raised) : Mute (Program.report raised) := by
  cases raised with
  | runtime e =>
    exact .bind (.perform rfl) fun _ => .bind (.perform rfl) fun _ => .bind (.perform rfl) fun _ =>
      .fail _
  | host f =>
    exact .bind (.perform rfl) fun _ => .bind (.perform rfl) fun _ => .bind (.perform rfl) fun _ =>
      .fail _
  | exhausted e =>
    refine .bind (.bind (.attempt (.perform rfl)) fun r => ?_) fun _ => .bind (.perform rfl) fun _ =>
      .bind (.perform rfl) fun _ => .fail _
    cases r with
    | ok a => exact .pure a
    | error e => exact .fail _

end Mute

/-! Runs that end with a faithful transcript, and those that the output breaks off. -/

namespace Script

variable {α β : Type} {host : Host}

/-- Running a part of a script passes through moments of the whole. -/
theorem Subrun.mem_moments {x : Script α} {y : Script β} {m n : Machine}
    (h : Subrun host y n x m) {p : Machine × Action} (hp : p ∈ y.moments host n) :
    p ∈ x.moments host m := by
  induction h with
  | refl => exact hp
  | first _ ih => exact mem_moments_bind.mpr (.inl ih)
  | next hx _ ih => exact mem_moments_bind.mpr (.inr ⟨_, _, hx, ih⟩)
  | attempt _ ih => exact ih

/-- The output takes every line it is offered. -/
def Unrefused (host : Host) (x : Script α) (m : Machine) : Prop :=
  ∀ n line, (n, Action.write line) ∈ x.moments host m → host.refuse (n.output.size + 1) = none

theorem Unrefused.bind {x : Script α} {f : α → Script β} {m : Machine} (hx : x.Unrefused host m)
    (hf : ∀ a m', x.run host m = (.ok a, m') → (f a).Unrefused host m') :
    (x >>= f).Unrefused host m := by
  intro n line h
  rcases mem_moments_bind.mp h with h | ⟨a, m', hr, h⟩
  · exact hx n line h
  · exact hf a m' hr n line h

theorem unrefused_of_mute {x : Script α} (h : Mute x) (m : Machine) : x.Unrefused host m := by
  intro n line hp
  cases h.mute_of_mem hp

theorem unrefused_perform {a : Action} (ha : a.writes = false) (m : Machine) :
    (perform a).Unrefused host m := by
  intro n line h
  cases List.mem_singleton.mp h
  cases ha

/-- The output refuses a line that it is offered when it has the lines of `m'`. -/
def Refuses (host : Host) (x : Script α) (m m' : Machine) (line : String) : Prop :=
  ∃ k, (k, Action.write line) ∈ x.moments host m ∧ k.output = m'.output ∧
    host.refuse (k.output.size + 1) ≠ none

theorem Refuses.of_subrun {x : Script α} {y : Script β} {m n m' m'' : Machine} {line : String}
    (hs : Subrun host y n x m) (h : y.Refuses host n m' line) (hm : m''.output = m'.output) :
    x.Refuses host m m'' line := by
  obtain ⟨k, hk, hsame, hrefused⟩ := h
  exact ⟨k, hs.mem_moments hk, hsame.trans hm.symm, hrefused⟩

/-- The run comes to a `writeln` of which the output takes the lines `shown` and refuses the one
after them, which ends it. The machine `m'` has the transcript from before the `writeln`. -/
structure BreaksOffAt (host : Host) (x : Script α) (m m' : Machine) (args : List Value)
    (n : Machine) (shown : List String) (line : String) : Prop where
  subrun : Subrun host (writeln args) n x m
  lines : shown ++ [line] <+: (TranscriptEntry.writeln (args.map Value.printed)).lines
  transcript : m'.transcript = n.transcript
  output : m'.output.toList = m'.told ++ shown
  refused : x.Refuses host m m' line

def BreaksOff (host : Host) (x : Script α) (m m' : Machine) : Prop :=
  ∃ args n shown line, x.BreaksOffAt host m m' args n shown line

theorem BreaksOff.of_subrun {x : Script α} {y : Script β} {m n m' m'' : Machine}
    (hs : Subrun host y n x m) (h : y.BreaksOff host n m') (hm : m'.SameTalk m'') :
    x.BreaksOff host m m'' := by
  obtain ⟨args, k, shown, line, hsub, hlines, htranscript, houtput, hrefused⟩ := h
  refine ⟨args, k, shown, line, hsub.trans hs, hlines, hm.transcript.trans htranscript, ?_,
    hrefused.of_subrun hs hm.output⟩
  rw [hm.output, hm.told]
  exact houtput

/-- How a run that starts with a faithful transcript may end. -/
inductive Transcribes (words : List String) (host : Host) (x : Script α) (m : Machine) : Prop
  | done {a : α} {m' : Machine} (hr : x.run host m = (.ok a, m')) (hm : m'.Faithful words)
      (hu : x.Unrefused host m)
  | failed {e : Raised} {m' : Machine} (hr : x.run host m = (.error e, m'))
      (hm : m'.output.toList = m'.told) (hw : m'.heard <+: words) (hu : x.Unrefused host m)
  | refused {e : Raised} {m' : Machine} (hr : x.run host m = (.error e, m'))
      (hb : x.BreaksOff host m m') (hw : m'.heard <+: words)

namespace Transcribes

variable {words : List String} {m : Machine}

theorem of_mute (hh : host.hooks = {}) {x : Script α} (hx : Mute x) (hm : m.Faithful words) :
    x.Transcribes words host m := by
  have hfaithful := (hx.sameTalk hh m).faithful hm
  rcases hr : x.run host m with ⟨r, m'⟩
  rw [hr] at hfaithful
  cases r with
  | ok a => exact .done hr hfaithful (unrefused_of_mute hx m)
  | error e => exact .failed hr hfaithful.output hfaithful.prefix (unrefused_of_mute hx m)

/-- After a script that succeeds and is refused nothing, it is up to what follows. -/
theorem bind_ok {x : Script α} {f : α → Script β} {a : α} {m' : Machine}
    (hr : x.run host m = (.ok a, m')) (hu : x.Unrefused host m)
    (hf : (f a).Transcribes words host m') : (x >>= f).Transcribes words host m := by
  have hrun := run_bind_of_ok (f := f) hr
  have hboth (h : (f a).Unrefused host m') : (x >>= f).Unrefused host m := by
    refine hu.bind fun a' m₁ hr' => ?_
    cases hr'.symm.trans hr
    exact h
  cases hf with
  | done hr' hm' hu' => exact .done (hrun.trans hr') hm' (hboth hu')
  | failed hr' hm' hw hu' => exact .failed (hrun.trans hr') hm' hw (hboth hu')
  | refused hr' hb hw =>
    exact .refused (hrun.trans hr') (hb.of_subrun (.next hr .refl) (.refl _)) hw

theorem bind {x : Script α} {f : α → Script β} (hx : x.Transcribes words host m)
    (hf : ∀ a m', x.run host m = (.ok a, m') → m'.Faithful words →
      (f a).Transcribes words host m') :
    (x >>= f).Transcribes words host m := by
  cases hx with
  | @done a m' hr hm hu => exact bind_ok hr hu (hf a m' hr hm)
  | @failed e m' hr hm hw hu =>
    have hrun : (x >>= f).run host m = (.error e, m') := by rw [run_bind, hr]
    refine .failed hrun hm hw (hu.bind fun a m₁ hr' => ?_)
    cases hr'.symm.trans hr
  | @refused e m' hr hb hw =>
    have hrun : (x >>= f).run host m = (.error e, m') := by rw [run_bind, hr]
    exact .refused hrun (hb.of_subrun (.first .refl) (.refl _)) hw

/-- What is done about a failure, mutely and in vain, leaves the account of it as it is. -/
theorem rescue (hh : host.hooks = {}) {x : Script α} {f : Except Raised α → Script β}
    (hx : x.Transcribes words host m)
    (hok : ∀ a m', m'.Faithful words → (f (.ok a)).Transcribes words host m')
    (hmute : ∀ e, Mute (f (.error e)))
    (hfails : ∀ e m', ∃ e', ((f (.error e)).run host m').1 = .error e') :
    (x.attempt >>= f).Transcribes words host m := by
  have hattempt {r : Except Raised α} {m' : Machine} (hr : x.run host m = (r, m')) :
      x.attempt.run host m = (.ok r, m') := by rw [run_attempt, hr]
  have hfailed {e : Raised} {m' : Machine} (hr : x.run host m = (.error e, m')) :
      ∃ e' m'', (x.attempt >>= f).run host m = (.error e', m'') ∧ m'.SameTalk m'' := by
    obtain ⟨e', he⟩ := hfails e m'
    refine ⟨e', _, ?_, (hmute e).sameTalk hh m'⟩
    rw [run_bind_of_ok (hattempt hr)]
    exact Prod.ext he rfl
  cases hx with
  | @done a m' hr hm hu =>
    have htranscribes : x.attempt.Transcribes words host m := .done (hattempt hr) hm hu
    refine htranscribes.bind fun r m₁ hr' hm' => ?_
    cases hr'.symm.trans (hattempt hr)
    exact hok a m' hm'
  | @failed e m' hr hm hw hu =>
    obtain ⟨e', m'', hrun, htalk⟩ := hfailed hr
    refine .failed hrun ?_ ?_ (Unrefused.bind hu fun r m₁ hr' => ?_)
    · rw [htalk.output, htalk.told]
      exact hm
    · rw [htalk.heard]
      exact hw
    · cases hr'.symm.trans (hattempt hr)
      exact unrefused_of_mute (hmute e) _
  | @refused e m' hr hb hw =>
    obtain ⟨e', m'', hrun, htalk⟩ := hfailed hr
    refine .refused hrun (hb.of_subrun (.first (.attempt .refl)) htalk) ?_
    rw [htalk.heard]
    exact hw

end Transcribes

/-- How writing lines ends: the output has taken them all, or some and refuses the next. -/
theorem writeAll_cases (host : Host) (lines : List String) (m : Machine) :
    (∃ m', (writeAll lines).run host m = (.ok (), m') ∧ m.Wrote lines m' ∧
        (writeAll lines).Unrefused host m) ∨
      ∃ e m' shown line, (writeAll lines).run host m = (.error e, m') ∧ m.Wrote shown m' ∧
        shown ++ [line] <+: lines ∧ (writeAll lines).Refuses host m m' line := by
  induction lines generalizing m with
  | nil => exact .inl ⟨m, rfl, .refl m, nofun⟩
  | cons line lines ih =>
    have hwriteAll : writeAll (line :: lines) = perform (.write line) >>= fun _ => writeAll lines :=
      rfl
    have hwrite : (perform (.write line)).run host m = m.write host line := rfl
    rw [hwriteAll]
    cases hrefuse : host.refuse (m.output.size + 1) with
    | some text =>
      have hrefused : host.refuse (m.output.size + 1) ≠ none := by
        rw [hrefuse]
        exact nofun
      have hrun : (perform (.write line) >>= fun _ => writeAll lines).run host m =
          (.error (.host { cause := .outputRefused text }), m) := by
        rw [run_bind, hwrite, Machine.write, hrefuse]
      have hmoment : (m, Action.write line) ∈
          (perform (.write line) >>= fun _ => writeAll lines).moments host m :=
        mem_moments_bind.mpr (.inl (List.mem_singleton_self _))
      exact .inr ⟨_, m, [], line, hrun, .refl m, ⟨lines, rfl⟩, m, hmoment, rfl, hrefused⟩
    | none =>
      let m₁ : Machine := { m with output := m.output.push line }
      have hr : (perform (.write line)).run host m = (.ok (), m₁) := by
        rw [hwrite, Machine.write, hrefuse]
      have hfirst : (perform (.write line)).Unrefused host m := by
        intro n line' h
        cases List.mem_singleton.mp h
        exact hrefuse
      rw [run_bind_of_ok hr]
      rcases ih m₁ with
        ⟨m', hrun, hwrote, hunrefused⟩ | ⟨e, m', shown, line', hrun, hwrote, hshown, hrefused⟩
      · refine .inl ⟨m', hrun, hwrote.cons, hfirst.bind fun _ m₂ hr' => ?_⟩
        cases hr'.symm.trans hr
        exact hunrefused
      · exact .inr ⟨e, m', line :: shown, line', hrun, hwrote.cons,
          List.cons_prefix_cons.mpr ⟨rfl, hshown⟩, hrefused.of_subrun (.next hr .refl) rfl⟩

namespace Transcribes

variable {words : List String} {m : Machine}

theorem writeln (args : List Value) (hm : m.Faithful words) :
    (writeln args).Transcribes words host m := by
  let entry := TranscriptEntry.writeln (args.map Value.printed)
  have hwriteln : ObjectPascal.writeln args =
      writeAll entry.lines >>= fun _ => perform (.transcribe entry) := rfl
  rcases writeAll_cases host entry.lines m with
    ⟨m', hrun, hwrote, hunrefused⟩ | ⟨e, m', shown, line, hrun, hwrote, hshown, hrefused⟩
  · have htold := Machine.told_of_transcript hwrote.transcript
    have hheard := Machine.heard_of_transcript hwrote.transcript
    have hrun' : (ObjectPascal.writeln args).run host m = (.ok (), m'.noted entry) := by
      rw [hwriteln, run_bind_of_ok hrun]
      rfl
    refine .done hrun' ⟨?_, ?_, ?_⟩ (hunrefused.bind fun _ m₁ _ => unrefused_perform rfl m₁)
    · rw [Machine.told_noted, htold, ← hm.output]
      exact hwrote.output
    · rw [Machine.heard_noted, hheard]
      change m.heard ++ [] ++ m'.input.words = words
      rw [List.append_nil, hwrote.input]
      exact hm.input
    · change m'.input.Lined
      rw [hwrote.input]
      exact hm.lined
  · have hrun' : (ObjectPascal.writeln args).run host m = (.error e, m') := by
      rw [hwriteln, run_bind, hrun]
    have houtput : m'.output.toList = m'.told ++ shown := by
      rw [hwrote.output, Machine.told_of_transcript hwrote.transcript, hm.output]
    have hbreaks : (ObjectPascal.writeln args).BreaksOff host m m' :=
      ⟨args, m, shown, line, .refl, hshown, hwrote.transcript, houtput,
        hrefused.of_subrun (.first .refl) rfl⟩
    refine .refused hrun' hbreaks ?_
    rw [Machine.heard_of_transcript hwrote.transcript]
    exact hm.prefix

/-- The word is noted before it is assigned, so that the transcript has it even if there is no such
variable. -/
theorem readInto (hh : host.hooks = {}) (name : String) (location : Location)
    (hm : m.Faithful words) : (readInto name location).Transcribes words host m := by
  obtain ⟨hword, input, hnext, hwords, hlined⟩ := Machine.nextWord_of_lined hm.lined
  have hrun : (perform .nextWord).run host m = (.ok m.input.words.head?, m.withInput input) :=
    Prod.ext hword hnext
  have hfails {e : Raised} :
      (Script.fail e : Script Unit).Transcribes words host (m.withInput input) :=
    .failed rfl hm.output hm.prefix nofun
  have hinput := hm.input
  refine bind_ok hrun (unrefused_perform rfl m) ?_
  cases hw : m.input.words with
  | nil => exact hfails
  | cons word more =>
    rw [hw] at hwords hinput
    dsimp only [List.head?_cons]
    split
    · exact hfails
    split
    · exact hfails
    split
    · have hnoted : ((m.withInput input).noted (.readln word)).Faithful words := by
        refine ⟨?_, ?_, hlined⟩
        · rw [Machine.told_noted]
          exact hm.output.trans (List.append_nil _).symm
        · rw [Machine.heard_noted, List.append_assoc, ← hinput]
          exact congrArg (fun ws => m.heard ++ word :: ws) hwords
      exact bind_ok rfl (unrefused_perform rfl _) (of_mute hh (.perform rfl) hnoted)
    · exact hfails

end Transcribes

end Script

/-! All of the language. -/

/-- Scripts that write and read by the procedures of the language only, and that catch a failure
only to end in one themselves. -/
inductive Converses : {α : Type} → Script α → Prop
  | mute {α : Type} {x : Script α} (h : Mute x) : Converses x
  | writeln (args : List Value) : Converses (writeln args)
  | readInto (name : String) (location : Location) : Converses (readInto name location)
  | andThen {α β : Type} {x : Script α} {f : α → Script β} (hx : Converses x)
      (hf : ∀ a, Converses (f a)) : Converses (.andThen x f)
  | rescue {α β : Type} {x : Script α} {f : Except Raised α → Script β} (hx : Converses x)
      (hok : ∀ a, Converses (f (.ok a))) (hmute : ∀ e, Mute (f (.error e)))
      (hfails : ∀ e host m, ∃ e', ((f (.error e)).run host m).1 = .error e') :
      Converses (.andThen x.attempt f)

namespace Converses

variable {α β : Type}

theorem transcribes {x : Script α} (h : Converses x) {host : Host} (hh : host.hooks = {})
    {words : List String} {m : Machine} (hm : m.Faithful words) : x.Transcribes words host m := by
  induction h generalizing m with
  | mute h => exact .of_mute hh h hm
  | writeln args => exact .writeln args hm
  | readInto name location => exact .readInto hh name location hm
  | andThen _ _ ihx ihf => exact .bind (ihx hm) fun a _ _ hm' => ihf a hm'
  | rescue _ _ hmute hfails ihx ihok =>
    exact .rescue hh (ihx hm) (fun a _ hm' => ihok a hm') hmute fun e m' => hfails e host m'

theorem pure (a : α) : Converses (Pure.pure a : Script α) :=
  .mute (.pure a)

theorem fault (location : Option Location) (c : Cause) :
    Converses (Script.fault location c : Script α) :=
  .mute (.fault location c)

theorem bind {x : Script α} {f : α → Script β} (hx : Converses x) (hf : ∀ a, Converses (f a)) :
    Converses (x >>= f) :=
  .andThen hx hf

/-- An action that is mute, and then what it leads to. -/
theorem bind_perform {a : Action} {f : a.Result → Script β} (h : a.mute = true)
    (hf : ∀ r, Converses (f r)) : Converses (perform a >>= f) :=
  .bind (.mute (.perform h)) hf

theorem mapError (g : Raised → Raised) {x : Script α} (hx : Converses x) :
    Converses (x.mapError g) :=
  .rescue hx (fun a => .pure a) (fun _ => .fail _) fun e _ _ => ⟨g e, rfl⟩

theorem within (frame : FrameId) (receiver : ObjectId) {inside : Script Unit}
    (h : Converses inside) : Converses (within frame receiver inside) := by
  refine .bind_perform rfl fun _ => .rescue h (fun _ => .mute (.perform rfl)) (fun e => ?_) ?_
  · exact .bind (.perform rfl) fun _ => .bind (.perform rfl) fun _ => .fail _
  · exact fun e _ m => ⟨e.capture m.store.liveFrames, rfl⟩

theorem readln (operand : Expr) (location : Location) : Converses (readln operand location) := by
  unfold ObjectPascal.readln
  split
  · split
    · exact .readInto _ _
    · exact .fault _ _
  · exact .fault _ _

theorem invokeBuiltin (name : String) (args : List Value) (operands : List Expr)
    (location : Location) : Converses (invokeBuiltin name args operands location) := by
  unfold ObjectPascal.invokeBuiltin
  split
  · exact .fault _ _
  · exact .writeln args
  · split
    · exact readln _ _
    · exact .fault _ _

section

variable {body : List Statement → Script Unit} (hb : ∀ ss, Converses (body ss))

include hb

theorem runMethod (kind : CallKind) (receiver : ObjectId) (m : Method) (args : List Value)
    (location : Option Location) : Converses (runMethod body kind receiver m args location) := by
  refine .bind_perform rfl fun frame => ?_
  refine .bind (.mute (.renderAll args)) fun _ => ?_
  refine .bind_perform rfl fun _ => ?_
  refine .bind_perform rfl fun _ => ?_
  refine .bind (within frame receiver (hb _)) fun _ => ?_
  refine .bind (.mute (.callResult m frame)) fun _ => ?_
  exact .bind_perform rfl fun _ => .bind_perform rfl fun _ => .pure _

theorem construct (id : ClassId) (member : String) (args : List Value)
    (location : Option Location) : Converses (construct body id member args location) :=
  .bind_perform rfl fun _ => .bind (.mute (.checkArity _ _ _)) fun _ => .bind_perform rfl fun _ =>
    .bind (runMethod hb _ _ _ _ _) fun _ => .pure _

theorem invokeMethod (receiver : ObjectId) (member : String) (args : List Value)
    (location : Option Location) : Converses (invokeMethod body receiver member args location) :=
  .bind_perform rfl fun _ => .bind (.mute (.checkArity _ _ _)) fun _ => runMethod hb _ _ _ _ _

theorem callMember (location : Location) (left member : String) (args : List Value) :
    Converses (callMember body location left member args) := by
  refine .bind_perform rfl fun id => ?_
  cases id with
  | none => exact .bind (.mute (.resolveObject left location)) fun _ => invokeMethod hb _ _ _ _
  | some id => exact construct hb _ _ _ _

end

mutual

theorem evaluate {body : List Statement → Script Unit} (hb : ∀ ss, Converses (body ss)) :
    (e : Expr) → Converses (evaluate body e)
  | .literal _ _ => .pure _
  | .ref d => .mute (.readDesignator d)
  | .parens _ e => evaluate hb e
  | .binary location op left right =>
    .bind (evaluate hb left) fun _ => .bind (.mute (.expectInt location _)) fun _ =>
      .bind (evaluate hb right) fun _ => .bind (.mute (.expectInt location _)) fun _ =>
        .bind (.mute (.arithmetic location op _ _)) fun _ => .pure _
  | .call location left member args =>
    .bind (evaluateAll hb args) fun _ => callMember hb location left member _
  | .bare _ => .fault _ _

theorem evaluateAll {body : List Statement → Script Unit} (hb : ∀ ss, Converses (body ss)) :
    (es : List Expr) → Converses (evaluateAll body es)
  | [] => .pure _
  | e :: es => .bind (evaluate hb e) fun _ => .bind (evaluateAll hb es) fun _ => .pure _

end

section

variable {body : List Statement → Script Unit} (hb : ∀ ss, Converses (body ss))

include hb

theorem callProcedure (location : Location) (name : String) (operands : List Expr) :
    Converses (callProcedure body location name operands) := by
  have hvalues (procedure : Builtin) : Converses (operandValues body procedure operands) := by
    cases procedure with
    | writeln => exact evaluateAll hb operands
    | readln => exact .pure _
  unfold ObjectPascal.callProcedure
  split
  · exact .fault _ _
  · next procedure _ =>
    refine .bind (hvalues procedure) fun args => ?_
    refine .bind (.mute (.renderAll args)) fun texts => ?_
    refine .bind_perform rfl fun _ => ?_
    refine .bind (invokeBuiltin name args operands location) fun _ => ?_
    exact .bind_perform rfl fun _ => .mute (.perform rfl)

theorem effect (s : Statement) : Converses (s.effect body) := by
  cases s with
  | assignment location target value =>
    exact .bind (evaluate hb value) fun v => .mute (.writeDesignator target v)
  | methodCall location left member args =>
    exact .bind (evaluateAll hb args) fun _ => .bind (callMember hb _ _ _ _) fun _ => .pure _
  | procedureCall location name args => exact callProcedure hb _ _ _
  | bare location => exact .fault _ _

theorem executeAll (ss : List Statement) : Converses (executeAll body ss) := by
  induction ss with
  | nil => exact .pure _
  | cons s ss ih =>
    have hexecute : Converses (s.execute body) :=
      .bind_perform rfl fun _ => .mapError _ (effect hb s)
    exact .bind_perform rfl fun _ => .bind hexecute fun _ => .bind_perform rfl fun _ => ih

end

theorem runBody (depth : Nat) (ss : List Statement) : Converses (runBody depth ss) := by
  induction depth generalizing ss with
  | zero => exact .mute (.fail _)
  | succ depth ih => exact executeAll ih ss

theorem programExecute (depth : Nat) (p : Program) : Converses (p.execute depth) := by
  have heffect : Converses (p.effect depth) :=
    .bind (.mute (.of_declares (.declareClasses _))) fun _ =>
      .bind (.mute (.of_declares (.attachMethods _))) fun _ =>
        .bind (.mute (.of_declares (.declareVars _))) fun _ => executeAll (runBody depth) _
  refine .bind_perform rfl fun _ => .rescue heffect (fun _ => .mute (.perform rfl)) .report ?_
  intro raised host m
  obtain ⟨_, e, -, hrun⟩ := report_tells host raised m
  exact ⟨e, congrArg Prod.fst hrun⟩

end Converses

/-! Running again from the transcript. -/

namespace Text

theorem wordsFrom_of_no_blank {cs : List Char} (h : ∀ c ∈ cs, isBlank c = false) (cur : List Char)
    (hne : cur ++ cs ≠ []) : wordsFrom cur cs = [String.ofList (cur.reverse ++ cs)] := by
  induction cs generalizing cur with
  | nil =>
    rw [List.append_nil] at hne
    rw [wordsFrom, if_neg (mt List.isEmpty_iff.mp hne), List.append_nil]
  | cons c cs ih =>
    obtain ⟨hc, hcs⟩ := List.forall_mem_cons.mp h
    rw [wordsFrom, if_neg (Bool.eq_false_iff.mp hc), ih hcs (c :: cur) (List.cons_ne_nil _ _),
      List.reverse_cons, List.append_assoc]
    rfl

/-- Words are not empty, and there is no blank in them. -/
theorem of_mem_wordsFrom {cs cur : List Char} (hcur : ∀ c ∈ cur, isBlank c = false) {t : String}
    (ht : t ∈ wordsFrom cur cs) : t.toList ≠ [] ∧ ∀ c ∈ t.toList, isBlank c = false := by
  have hword {cur : List Char} (hcur : ∀ c ∈ cur, isBlank c = false) (hne : ¬cur.isEmpty = true) :
      (String.ofList cur.reverse).toList ≠ [] ∧
        ∀ c ∈ (String.ofList cur.reverse).toList, isBlank c = false := by
    rw [String.toList_ofList]
    exact ⟨mt List.reverse_eq_nil_iff.mp (mt List.isEmpty_iff.mpr hne),
      fun c hc => hcur c (List.mem_reverse.mp hc)⟩
  induction cs generalizing cur with
  | nil =>
    rw [wordsFrom] at ht
    split at ht
    · cases ht
    · next hne =>
      rw [List.mem_singleton.mp ht]
      exact hword hcur hne
  | cons c cs ih =>
    rw [wordsFrom] at ht
    split at ht
    · split at ht
      · exact ih (List.forall_mem_nil _) ht
      · next hne =>
        rcases List.mem_cons.mp ht with rfl | ht
        · exact hword hcur hne
        · exact ih (List.forall_mem_nil _) ht
    · next hc =>
      exact ih (List.forall_mem_cons.mpr ⟨Bool.eq_false_iff.mpr hc, hcur⟩) ht

/-- A word on a line of its own is what is read there. -/
theorem words_of_mem {s t : String} (h : t ∈ words s) : words t = [t] := by
  obtain ⟨hne, hblank⟩ := of_mem_wordsFrom (List.forall_mem_nil _) h
  rw [words, wordsFrom_of_no_blank hblank [] hne]
  exact congrArg (fun t => [t]) String.ofList_toList

theorem flatMap_words {lines some : List String} (h : ∀ t ∈ some, t ∈ lines.flatMap words) :
    some.flatMap words = some := by
  induction some with
  | nil => rfl
  | cons t more ih =>
    obtain ⟨hfirst, hrest⟩ := List.forall_mem_cons.mp h
    obtain ⟨line, -, ht⟩ := List.mem_flatMap.mp hfirst
    rw [List.flatMap_cons, words_of_mem ht, ih hrest]
    rfl

end Text

/-- A run that ends well has noted every word it asked for. -/
theorem Script.heard_eq {α : Type} {host : Host} (hh : host.hooks = {}) (x : Script α)
    {lines : List String}
    (h : (x.run host (.fresh lines)).2.Faithful (lines.flatMap Text.words)) :
    (x.run host (.fresh lines)).2.heard =
      (lines.flatMap Text.words).take (x.asked host (.fresh lines)) := by
  have hinput := h.input
  rw [(x.readsInOrder hh (Machine.lined_fresh lines)).left, Machine.words_fresh] at hinput
  exact List.append_cancel_right (hinput.trans (List.take_append_drop _ _).symm)

/-- A run that ends well goes the same way on the words of its transcript alone. -/
theorem Script.run_heard {α : Type} {host : Host} (hh : host.hooks = {}) (x : Script α)
    {lines : List String}
    (h : (x.run host (.fresh lines)).2.Faithful (lines.flatMap Text.words)) :
    ∃ input, x.run host (.fresh (x.run host (.fresh lines)).2.heard) =
      ((x.run host (.fresh lines)).1, (x.run host (.fresh lines)).2.withInput input) := by
  let heard := (x.run host (.fresh lines)).2.heard
  have hwords : (Machine.fresh heard).input.words = heard := by
    rw [Machine.words_fresh]
    exact Text.flatMap_words fun t ht => h.prefix.subset ht
  have halike : Machine.LayoutAlike (x.asked host (.fresh lines) + 0) (.fresh lines)
      (.fresh heard) := by
    refine ⟨rfl, Machine.lined_fresh lines, Machine.lined_fresh heard, ?_⟩
    rw [hwords, Machine.words_fresh]
    change (x.run host (.fresh lines)).2.heard.take _ = _
    rw [Script.heard_eq hh x h, List.take_take, Nat.add_zero, Nat.min_self]
  obtain ⟨hresult, ⟨hsame, -, -, -⟩, -⟩ := x.goesAlike hh halike
  exact ⟨(x.run host (.fresh heard)).2.input, Prod.ext hresult hsame⟩

/-- The transcript of a run without handlers tells exactly what was written and read. The output has
the lines that the transcript tells of, and more only if it refused a line: then those that it took
for the procedure that was broken off. The words of the transcript are the first words of the input.
A run that ends well is the same when those are all the input there is, one to a line. -/
theorem transcript_faithful (verbose : Bool) (refuse : Nat → Option String) (file text : String)
    (lines : List String) :
    let host : Host := { verbose, refuse }
    let one := runText host file text (.fresh lines)
    (one.2.output.toList = one.2.told ∧
        (∀ p, Program.ofText file text = .ok p →
          (p.execute depthLimit).Unrefused host (.fresh lines)) ∨
      ∃ p e, Program.ofText file text = .ok p ∧ one.1 = .error e ∧
        (p.execute depthLimit).BreaksOff host (.fresh lines) one.2) ∧
    one.2.heard <+: lines.flatMap Text.words ∧
    (one.1 = .ok () →
      let again := runText host file text (.fresh one.2.heard)
      again.1 = .ok () ∧ again.2.output = one.2.output ∧ again.2.transcript = one.2.transcript ∧
        again.2.log = one.2.log ∧ again.2.store = one.2.store ∧
        again.2.store.graph = one.2.store.graph) := by
  intro host one
  have hfresh := Machine.faithful_fresh lines
  cases hp : Program.ofText file text with
  | error e =>
    have hone : one = (.error (.source e), .fresh lines) := runText_of_sourceError hp _ _
    rw [hone]
    exact ⟨.inl ⟨hfresh.output, nofun⟩, hfresh.prefix, nofun⟩
  | ok p =>
    let x := p.execute depthLimit
    have hrun (lines : List String) : runText host file text (.fresh lines) =
        ((x.run host (.fresh lines)).1.mapError .raised, (x.run host (.fresh lines)).2) :=
      runText_of_program hp _ _
    have hone : one = _ := hrun lines
    have htranscribes : x.Transcribes (lines.flatMap Text.words) host (.fresh lines) :=
      (Converses.programExecute depthLimit p).transcribes rfl hfresh
    rw [hone]
    cases htranscribes with
    | @done _ m' hr hm hu =>
      have hfinal : (x.run host (.fresh lines)).2.Faithful (lines.flatMap Text.words) := by
        rw [hr]
        exact hm
      refine ⟨.inl ⟨hfinal.output, ?_⟩, hfinal.prefix, fun hok => ?_⟩
      · intro p' hp'
        cases hp'
        exact hu
      · obtain ⟨input, hagain⟩ := Script.run_heard rfl x hfinal
        rw [hrun, hagain]
        exact ⟨hok, rfl, rfl, rfl, rfl, rfl⟩
    | @failed e m' hr hm hw hu =>
      rw [hr]
      refine ⟨.inl ⟨hm, ?_⟩, hw, nofun⟩
      intro p' hp'
      cases hp'
      exact hu
    | @refused e m' hr hb hw =>
      rw [hr]
      exact ⟨.inr ⟨p, .raised e, rfl, rfl, hb⟩, hw, nofun⟩

end ObjectPascal
