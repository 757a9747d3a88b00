import ObjectPascal.Interpreter
import ObjectPascal.Probe
import ObjectPascal.Proofs.Compliance
import ObjectPascal.Proofs.Raising

/-!
Numbers stay within the Integer type, whatever a host asks of a machine and whatever its handlers
assign, as long as the numbers that they bring along do.
-/

namespace ObjectPascal

open Script

/-! The parts of a run. -/

/-- A failure is an accepted one, and the scripts that a script is made of keep to the contract, as
far as a run comes to them. -/
def Script.PartsObey (C : Contract) : {α : Type} → Script α → Prop
  | _, fail e => C.fails e
  | _, andThen x f => ∃ Q, Obeys C x Q ∧ ∀ a, Q a → ∃ Q', Obeys C (f a) Q'
  | _, attempt x => ∃ Q, Obeys C x Q
  | _, _ => True

theorem Script.Obeys.parts {C : Contract} {α : Type} {x : Script α} {Q : α → Prop}
    (h : Obeys C x Q) : x.PartsObey C := by
  cases h with
  | done | perform => trivial
  | fail he => exact he
  | andThen hx hf => exact ⟨_, hx, fun a ha => ⟨_, hf a ha⟩⟩
  | attempt hx => exact ⟨_, hx⟩

/-- Where a run comes to, the invariant holds, and what is run there keeps to the contract too. -/
theorem Script.Obeys.subrun {C : Contract} {host : Host} {I : Machine → Prop}
    (hC : C.Holds host I) {α β : Type} {y : Script β} {n : Machine} {x : Script α} {m : Machine}
    (hs : Subrun host y n x m) {Q : α → Prop} (hx : Obeys C x Q) (hm : I m) :
    I n ∧ ∃ Q' : β → Prop, Obeys C y Q' := by
  induction hs with
  | refl => exact ⟨hm, Q, hx⟩
  | first _ ih =>
    obtain ⟨_, hfirst, -⟩ := hx.parts
    exact ih hfirst hm
  | next hrun _ ih =>
    obtain ⟨_, hfirst, hnext⟩ := hx.parts
    obtain ⟨hresult, hi⟩ := hfirst.run hC hm
    rw [hrun] at hresult hi
    obtain ⟨_, hrest⟩ := hnext _ hresult
    exact ih hrest hi
  | attempt _ ih =>
    obtain ⟨_, hinner⟩ := hx.parts
    exact ih hinner hm

/-! Numbers. -/

/-- Every number in a variable, in a result or in a field is one of the Integer type. -/
structure Store.Numeric (s : Store) : Prop where
  slots : ∀ f ∈ s.frames, f.slots.All fun slot => slot.value.Fits
  results : ∀ f ∈ s.frames, f.result.Fits
  fields : ∀ o ∈ s.objects, o.fields.All Value.Fits

theorem Store.Wellformed.numeric {s : Store} (h : s.Wellformed) : s.Numeric where
  slots f hf := (h.frames f hf).slots
  results f hf := (h.frames f hf).result
  fields := h.objects

/-- The numbers that an action hands on, to a variable, a field, a call or its texts, are of the
Integer type, and so are those in a line that is written. -/
def Action.Fits : Action → Prop
  | .render v | .assign _ v | .writeField _ _ v _ | .declareGlobal _ v => v.Fits
  | .newFrame _ args _ => Every Value.Fits args
  | .write line => Printed line
  | _ => True

theorem Terms.fits_of_allows {t : Terms} {a : Action} (h : t.contract.allows a) : a.Fits := by
  cases a with
  | newFrame => exact h.2
  | render | assign | writeField | declareGlobal | write => exact h
  | _ => trivial

/-- As long as numbers are of the Integer type, handlers assign only such. -/
def Host.Modest (host : Host) : Prop :=
  host.hooks.All (Handler.Assigns Store.Numeric Value.Fits)

/-- Anything may be read and anything may fail, but no operation is too wide. -/
def Terms.lax : Terms where
  words _ := True
  causes _ := True
  outside c := c ≠ .tooWide
  proper _ := trivial
  digits _ _ _ := nofun
  internal _ := trivial

theorem Host.Modest.suits {host : Host} (h : host.Modest) : Terms.lax.Suits host where
  handlers := by
    refine Registry.All.mono h ?_
    intro handler hh count occasion m hm
    exact hh count occasion m hm.numeric
  faults _ _ := trivial
  output _ _ _ := nofun

theorem Terms.fitsWide_of_narrow {n : Int} {Q : Int → Prop} (h : Complies .lax (narrow n) Q) :
    Word.FitsWide n := by
  refine Decidable.byContradiction fun hn => ?_
  have hnone : Word.narrow? n = none := if_neg hn
  unfold narrow at h
  rw [hnone] at h
  exact h.parts rfl

/-! Sessions. -/

/-- What a host asks of a machine. -/
inductive Request where
  | execute (file text : String)
  | construct (id : ClassId) (member : String) (args : List Value)
  | invoke (receiver : ObjectId) (member : String) (args : List Value)
  | declare (name : String) (value : Value)

namespace Request

/-- A text that is no program is not executed; calls of a host have no place in a text. -/
def script (depth : Nat) : Request → Script Unit
  | execute file text =>
    match Program.ofText file text with
    | .ok p => p.execute depth
    | .error _ => return ()
  | construct id member args => do
    let _ ← ObjectPascal.construct (runBody depth) id member args none
  | invoke receiver member args => do
    let _ ← invokeMethod (runBody depth) receiver member args none
  | declare name value => perform (.declareGlobal name value)

/-- The numbers that a request brings along are of the Integer type. -/
def Fits : Request → Prop
  | execute .. => True
  | construct _ _ args | invoke _ _ args => Every Value.Fits args
  | declare _ value => value.Fits

theorem Fits.complies {t : Terms} {r : Request} (h : r.Fits) (depth : Nat) :
    Complies t (r.script depth) fun _ => True := by
  cases r with
  | execute file text =>
    unfold script
    dsimp only
    split
    · next p hp => exact Complies.programExecute depth (Program.plain_of_ofText hp)
    · exact .pure trivial
  | construct id member args =>
    refine .bind (Complies.construct (Complies.runBody depth) id member h none) fun _ _ => ?_
    exact .pure trivial
  | invoke receiver member args =>
    refine .bind (Complies.invokeMethod (Complies.runBody depth) receiver member h none) ?_
    exact fun _ _ => .pure trivial
  | declare name value => exact Complies.action h

end Request

/-- A machine that has served some requests, starting with anything to read. -/
inductive Served : Machine → Prop
  | fresh (replies : List Reply) : Served { input := { replies } }
  | after {m : Machine} (hm : Served m) {host : Host} (hh : host.Modest) {r : Request}
      (hr : r.Fits) (depth : Nat) : Served ((r.script depth).run host m).2

theorem Served.wellformed {m : Machine} (h : Served m) : m.Wellformed .lax := by
  induction h with
  | fresh replies =>
    refine ⟨.initial, nofun, ?_⟩
    intro reply _
    cases reply with
    | line => exact fun _ _ => trivial
    | nothing => trivial
    | failure => exact nofun
  | after _ hh hr depth ih => exact ((hr.complies depth).run (Terms.holds hh.suits) ih).2

/-- Whatever is asked of a machine, from the first request on: at every moment the numbers in the
store are of the Integer type, and so are those that are handed on or written; an expression that
has a value has one of the Integer type, if a number; and no operation has an exact result beyond
the 64-bit intermediate. -/
theorem integers_in_range {m : Machine} (hm : Served m) {host : Host} (hh : host.Modest)
    {r : Request} (hr : r.Fits) (depth : Nat) :
    (∀ s ∈ (r.script depth).stores host m, s.Numeric) ∧
    (∀ x ∈ (r.script depth).moments host m, x.2.Fits) ∧
    (∀ (e : Expr) (d : Nat) (n n' : Machine) (v : Value), e.Plain →
      Subrun host (evaluate (runBody d) e) n (r.script depth) m →
      (evaluate (runBody d) e).run host n = (.ok v, n') → v.Fits) ∧
    ∀ (k : Int) (n : Machine), Subrun host (narrow k) n (r.script depth) m → Word.FitsWide k := by
  have hC := Terms.holds hh.suits
  have hx := hr.complies (t := .lax) depth
  have hw := hm.wellformed
  refine ⟨?_, ?_, ?_, ?_⟩
  · intro s hs
    rcases mem_stores.mp hs with ⟨p, hp, rfl | hpass⟩ | rfl
    · exact (hx.moments hC hw p hp).1.store.numeric
    · have hbefore := (hx.moments hC hw p hp).1.store
      exact (Machine.passing_keeps Store.Wellformed.assignKeeps hh.suits.handlers hbefore p.2 s
        hpass).numeric
    · exact (hx.run hC hw).2.store.numeric
  · intro p hp
    exact Terms.fits_of_allows (hx.moments hC hw p hp).2
  · intro e d n n' v he hs hrun
    have hn := (Obeys.subrun hC hs hx hw).1
    have hv := ((Complies.evaluate (Complies.runBody d) e he).run hC hn).1
    rw [hrun] at hv
    exact hv
  · intro k n hs
    obtain ⟨-, Q, hnarrow⟩ := Obeys.subrun hC hs hx hw
    exact Terms.fitsWide_of_narrow hnarrow

/-- A probe assigns one number at most. -/
theorem Probe.assigns {p : Probe} (id : Nat)
    (h : ∀ number name n, p.assign = some (number, name, n) → Word.InRange n) (P : Store → Prop) :
    (p.handler id).Assigns P Value.Fits := by
  intro count occasion m _ a ha
  obtain ⟨number, n, hassign, hn⟩ := Probe.of_mem_assignments ha
  rw [hn]
  exact h number a.1 n hassign

/-- A handler that fills a variable to the brim when it is first called. -/
def Probe.filler : Probe where
  label := "filler"
  assign := some (1, "x", Word.maxValue)

def fillers : Registry Handler where
  subscriptions := [(.beforeStatement, [{ handler := Probe.filler.handler 0 }])]

/-- A program whose object multiplies what it is told by a variable that a handler fills. -/
def Request.scaling : Request :=
  .execute "scale.pas" <|
    "type S = class constructor Create(); function Scale(k: Integer): Integer; end;" ++
    "constructor S.Create(); begin end;" ++
    "function S.Scale(k: Integer): Integer; begin Scale := x * k end;" ++
    "var x: Integer; s: S;" ++
    "begin s := S.Create(); x := x + 1 end."

theorem integers_in_range_scale :
    let host : Host := { hooks := fillers }
    let m := ((Request.scaling.script 9).run host {}).2
    let r : Request := .invoke 0 "Scale" [.int Word.minValue]
    Served m ∧ host.Modest ∧ r.Fits ∧
      (∀ s ∈ (r.script 9).stores host m, s.Numeric) ∧
      ∀ k n, Subrun host (narrow k) n (r.script 9) m → Word.FitsWide k := by
  intro host m r
  have hh : host.Modest := by
    refine ⟨?_, nofun⟩
    intro e he sub hsub
    rw [List.mem_singleton.mp he] at hsub
    rw [List.mem_singleton.mp hsub]
    apply Probe.assigns
    intro number name n hassign
    cases hassign
    decide
  have hscaling : Request.scaling.Fits := trivial
  have hm : Served m := .after (.fresh []) hh hscaling 9
  have hr : r.Fits := List.forall_mem_singleton.mpr (by decide : Word.InRange Word.minValue)
  obtain ⟨hstores, -, -, hwide⟩ := integers_in_range hm hh hr 9
  exact ⟨hm, hh, hr, hstores, hwide⟩

end ObjectPascal
