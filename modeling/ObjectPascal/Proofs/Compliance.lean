import ObjectPascal.Proofs.Terms

/-!
What scripts keep to on any terms, one lemma for each function that makes up a script.
-/

namespace ObjectPascal

open Script

/-! Arithmetic: operations on words stay within the 64-bit intermediate. -/

namespace Word

theorem natAbs_le_of_inRange {n : Int} (h : InRange n) : n.natAbs ≤ 2147483648 := by
  unfold InRange minValue maxValue at h
  omega

theorem fitsWide_of_natAbs_le {n : Int} (h : n.natAbs ≤ 2147483648 * 2147483648) :
    FitsWide n := by
  unfold FitsWide
  omega

theorem fitsWide_add {a b : Int} (ha : InRange a) (hb : InRange b) : FitsWide (a + b) := by
  unfold InRange minValue maxValue at ha hb
  unfold FitsWide
  omega

theorem fitsWide_sub {a b : Int} (ha : InRange a) (hb : InRange b) : FitsWide (a - b) := by
  unfold InRange minValue maxValue at ha hb
  unfold FitsWide
  omega

theorem fitsWide_mul {a b : Int} (ha : InRange a) (hb : InRange b) : FitsWide (a * b) := by
  apply fitsWide_of_natAbs_le
  rw [Int.natAbs_mul]
  exact Nat.mul_le_mul (natAbs_le_of_inRange ha) (natAbs_le_of_inRange hb)

theorem fitsWide_tdiv {a : Int} (ha : InRange a) (b : Int) : FitsWide (a.tdiv b) := by
  apply fitsWide_of_natAbs_le
  rw [Int.natAbs_tdiv]
  calc
    a.natAbs / b.natAbs ≤ a.natAbs := Nat.div_le_self ..
    _ ≤ 2147483648 := natAbs_le_of_inRange ha
    _ ≤ 2147483648 * 2147483648 := by decide

end Word

/-- A script that keeps to the contract on some terms. -/
abbrev Complies (t : Terms) {α : Type} (x : Script α) (Q : α → Prop) : Prop :=
  Obeys t.contract x Q

namespace Complies

variable {t : Terms}

theorem fault {α : Type} {Q : α → Prop} {location : Option Location} {c : Cause}
    (h : c.isProper = true) : Complies t (Script.fault location c : Script α) Q :=
  .fail (t.proper h)

theorem action {a : Action} (h : t.contract.allows a) :
    Complies t (perform a) (t.contract.gives a) :=
  .perform h fun _ hr => hr

theorem renderAll {vs : List Value} (h : Every Value.Fits vs) :
    Complies t (renderAll vs) fun _ => True := by
  induction vs with
  | nil => exact .pure trivial
  | cons v vs ih =>
    obtain ⟨hv, hvs⟩ := List.forall_mem_cons.mp h
    refine .bind_perform hv fun _ _ => ?_
    exact .bind (ih hvs) fun _ _ => .pure trivial

theorem expectInt (location : Location) {v : Value} (hv : v.Fits) :
    Complies t (expectInt location v) Word.InRange := by
  cases v with
  | int n => exact .pure hv
  | object => exact fault rfl
  | nil => exact fault rfl

theorem narrow {n : Int} (h : Word.FitsWide n) : Complies t (narrow n) Word.InRange := by
  have hn : Word.narrow? n = some (Word.wrap n) := if_pos h
  unfold ObjectPascal.narrow
  rw [hn]
  exact .pure (Word.wrap_inRange n)

theorem arithmetic (location : Location) {op : Operator} (ho : op.Plain) {a b : Int}
    (ha : Word.InRange a) (hb : Word.InRange b) :
    Complies t (arithmetic location op a b) Word.InRange := by
  cases op with
  | add => exact narrow (Word.fitsWide_add ha hb)
  | sub => exact narrow (Word.fitsWide_sub ha hb)
  | mul => exact narrow (Word.fitsWide_mul ha hb)
  | div =>
    unfold ObjectPascal.arithmetic Word.quotient?
    by_cases h : b = 0
    · rw [if_pos h]
      exact fault rfl
    · rw [if_neg h]
      exact narrow (Word.fitsWide_tdiv ha b)
  | other => exact ho.elim

theorem resolveObject (base : String) (location : Location) :
    Complies t (resolveObject base location) fun _ => True := by
  unfold ObjectPascal.resolveObject
  split
  · exact action trivial
  · refine .bind_perform trivial fun v _ => ?_
    cases v with
    | object id => exact .pure trivial
    | int => exact fault rfl
    | nil => exact fault rfl

theorem readDesignator (d : Designator) : Complies t (readDesignator d) Value.Fits := by
  unfold ObjectPascal.readDesignator
  split
  · exact action trivial
  · refine .bind (resolveObject _ _) fun _ _ => ?_
    exact action trivial
  · exact fault rfl

theorem writeDesignator (d : Designator) {v : Value} (hv : v.Fits) :
    Complies t (writeDesignator d v) fun _ => True := by
  unfold ObjectPascal.writeDesignator
  split
  · exact action hv
  · refine .bind (resolveObject _ _) fun _ _ => ?_
    exact action hv
  · exact fault rfl

theorem writeAll {lines : List String} (h : Every Printed lines) :
    Complies t (writeAll lines) fun _ => True := by
  induction lines with
  | nil => exact .pure trivial
  | cons line lines ih =>
    obtain ⟨hline, hlines⟩ := List.forall_mem_cons.mp h
    exact .bind_perform hline fun _ _ => ih hlines

theorem writeln {args : List Value} (h : Every Value.Fits args) :
    Complies t (writeln args) fun _ => True := by
  have htexts : Every Printed (args.map Value.printed) := by
    intro text htext
    obtain ⟨v, hv, rfl⟩ := List.mem_map.mp htext
    exact .inr ⟨v, h v hv, rfl⟩
  unfold ObjectPascal.writeln
  refine .bind (writeAll ?_) fun _ _ => action trivial
  split
  · exact List.forall_mem_singleton.mpr (.inl rfl)
  · exact htexts

/-- A number that is read is stored only if it is one of the Integer type. -/
theorem readInto (name : String) (location : Location) :
    Complies t (readInto name location) fun _ => True := by
  refine .bind_perform trivial fun word hword => ?_
  cases word with
  | none => exact fault rfl
  | some word =>
    have hmay : t.words word := hword word rfl
    dsimp only
    split
    · exact fault rfl
    · next hn =>
      have hnumeral : Text.isSignedNumeral word.toList = true := by simpa using hn
      split
      · next hlong => exact .fail (t.digits hmay hnumeral hlong)
      · split
        · next hr =>
          refine .bind_perform trivial fun _ _ => ?_
          exact action hr
        · exact fault rfl

theorem readln (operand : Expr) (location : Location) :
    Complies t (readln operand location) fun _ => True := by
  unfold ObjectPascal.readln
  split
  · split
    · exact readInto _ _
    · exact fault rfl
  · exact fault rfl

theorem invokeBuiltin (name : String) {args : List Value} (h : Every Value.Fits args)
    (operands : List Expr) (location : Location) :
    Complies t (invokeBuiltin name args operands location) fun _ => True := by
  unfold ObjectPascal.invokeBuiltin
  split
  · exact fault rfl
  · exact writeln h
  · split
    · exact readln _ _
    · exact fault rfl

theorem checkArity (m : Method) (args : List Value) (location : Option Location) :
    Complies t (checkArity m args location) fun _ => True := by
  unfold ObjectPascal.checkArity
  split
  · exact .pure trivial
  · exact fault rfl

theorem callResult (m : Method) (frame : FrameId) :
    Complies t (callResult m frame) Value.Fits := by
  unfold ObjectPascal.callResult
  split
  · exact action trivial
  · exact .pure trivial

theorem within (frame : FrameId) (receiver : ObjectId) {inside : Script Unit}
    (h : Complies t inside fun _ => True) :
    Complies t (within frame receiver inside) fun _ => True := by
  refine .bind_perform trivial fun _ _ => ?_
  refine .bind (.attempt h fun r hr => hr) fun r hr => ?_
  cases r with
  | ok => exact action trivial
  | error raised =>
    refine .bind_perform trivial fun live _ => ?_
    refine .bind_perform trivial fun _ _ => ?_
    exact .fail (Terms.Fails.capture hr live)

/-! Calls. -/

section

variable {body : List Statement → Script Unit}
  (hb : ∀ ss, Every Statement.Plain ss → Complies t (body ss) fun _ => True)

include hb

theorem runMethod (kind : CallKind) (receiver : ObjectId) {m : Method} (hm : m.Runnable)
    {args : List Value} (ha : Every Value.Fits args) (location : Option Location) :
    Complies t (runMethod body kind receiver m args location) Value.Fits := by
  have hbody : Every Statement.Plain (m.body.getD []) := by
    cases h : m.body with
    | none => exact nofun
    | some ss => exact hm.plain ss h
  refine .bind_perform ⟨hm, ha⟩ fun frame _ => ?_
  refine .bind (renderAll ha) fun _ _ => ?_
  refine .bind_perform trivial fun _ _ => ?_
  refine .bind_perform trivial fun _ _ => ?_
  refine .bind (within frame receiver (hb _ hbody)) fun _ _ => ?_
  refine .bind (callResult m frame) fun result hresult => ?_
  refine .bind_perform hresult fun _ _ => ?_
  refine .bind_perform trivial fun _ _ => ?_
  exact .pure hresult

theorem construct (id : ClassId) (member : String) {args : List Value}
    (ha : Every Value.Fits args) (location : Option Location) :
    Complies t (construct body id member args location) Value.Fits := by
  refine .bind_perform trivial fun m hm => ?_
  refine .bind (checkArity m args location) fun _ _ => ?_
  refine .bind_perform trivial fun object _ => ?_
  refine .bind (runMethod hb .new object hm ha location) fun _ _ => ?_
  exact .pure trivial

theorem invokeMethod (receiver : ObjectId) (member : String) {args : List Value}
    (ha : Every Value.Fits args) (location : Option Location) :
    Complies t (invokeMethod body receiver member args location) Value.Fits := by
  refine .bind_perform trivial fun r hr => ?_
  refine .bind (checkArity r.1 args location) fun _ _ => ?_
  exact runMethod hb r.2 receiver hr ha location

theorem callMember (location : Location) (left member : String) {args : List Value}
    (ha : Every Value.Fits args) :
    Complies t (callMember body location left member args) Value.Fits := by
  refine .bind_perform trivial fun id _ => ?_
  cases id with
  | some id => exact construct hb id member ha _
  | none =>
    refine .bind (resolveObject left location) fun receiver _ => ?_
    exact invokeMethod hb receiver member ha _

end

/-! Expressions. -/

mutual

theorem evaluate {body : List Statement → Script Unit}
    (hb : ∀ ss, Every Statement.Plain ss → Complies t (body ss) fun _ => True) :
    (e : Expr) → e.Plain → Complies t (evaluate body e) Value.Fits
  | .literal _ n, h => by
    have hr : Word.InRange n := by
      unfold Expr.Plain at h
      unfold Word.InRange Word.minValue
      omega
    exact .pure hr
  | .ref d, _ => readDesignator d
  | .parens _ e, h => evaluate hb e h
  | .binary location op left right, h => by
    obtain ⟨ho, hl, hr⟩ := h
    refine .bind (evaluate hb left hl) fun v hv => ?_
    refine .bind (expectInt location hv) fun a ha => ?_
    refine .bind (evaluate hb right hr) fun w hw => ?_
    refine .bind (expectInt location hw) fun b hb => ?_
    refine .bind (arithmetic location ho ha hb) fun n hn => ?_
    exact .pure hn
  | .call location left member args, h => by
    refine .bind (evaluateAll hb args h) fun vs hvs => ?_
    exact callMember hb location left member hvs
  | .bare _, h => h.elim

theorem evaluateAll {body : List Statement → Script Unit}
    (hb : ∀ ss, Every Statement.Plain ss → Complies t (body ss) fun _ => True) :
    (es : List Expr) → Expr.PlainAll es → Complies t (evaluateAll body es) (Every Value.Fits)
  | [], _ => .pure nofun
  | e :: es, h => by
    refine .bind (evaluate hb e h.1) fun v hv => ?_
    refine .bind (evaluateAll hb es h.2) fun vs hvs => ?_
    exact .pure (List.forall_mem_cons.mpr ⟨hv, hvs⟩)

end

/-! Statements. -/

section

variable {body : List Statement → Script Unit}
  (hb : ∀ ss, Every Statement.Plain ss → Complies t (body ss) fun _ => True)

include hb

theorem operandValues (procedure : Builtin) {operands : List Expr}
    (h : Expr.PlainAll operands) :
    Complies t (operandValues body procedure operands) (Every Value.Fits) := by
  cases procedure with
  | writeln => exact evaluateAll hb operands h
  | readln => exact .pure nofun

theorem callProcedure (location : Location) (name : String) {operands : List Expr}
    (h : Expr.PlainAll operands) :
    Complies t (callProcedure body location name operands) fun _ => True := by
  unfold ObjectPascal.callProcedure
  split
  · exact fault rfl
  · next procedure _ =>
    refine .bind (operandValues hb procedure h) fun args hargs => ?_
    refine .bind (renderAll hargs) fun _ _ => ?_
    refine .bind_perform trivial fun _ _ => ?_
    refine .bind (invokeBuiltin name hargs operands location) fun _ _ => ?_
    refine .bind_perform trivial fun _ _ => ?_
    exact action trivial

theorem effect {s : Statement} (h : s.Plain) : Complies t (s.effect body) fun _ => True := by
  cases s with
  | assignment _ target value =>
    refine .bind (evaluate hb value h) fun v hv => ?_
    exact writeDesignator target hv
  | methodCall location left member args =>
    refine .bind (evaluateAll hb args h) fun vs hvs => ?_
    refine .bind (callMember hb location left member hvs) fun _ _ => ?_
    exact .pure trivial
  | procedureCall location name args => exact callProcedure hb location name h
  | bare => exact h.elim

theorem execute {s : Statement} (h : s.Plain) : Complies t (s.execute body) fun _ => True := by
  refine .bind_perform trivial fun _ _ => ?_
  refine .mapError (effect hb h) ?_
  intro e he
  exact Terms.Fails.locate he s.location

theorem executeAll {ss : List Statement} (h : Every Statement.Plain ss) :
    Complies t (executeAll body ss) fun _ => True := by
  induction ss with
  | nil => exact .pure trivial
  | cons s ss ih =>
    obtain ⟨hs, hss⟩ := List.forall_mem_cons.mp h
    refine .bind_perform trivial fun _ _ => ?_
    refine .bind (execute hb hs) fun _ _ => ?_
    refine .bind_perform trivial fun _ _ => ?_
    exact ih hss

end

theorem runBody (depth : Nat) (ss : List Statement) (h : Every Statement.Plain ss) :
    Complies t (runBody depth ss) fun _ => True := by
  induction depth generalizing ss with
  | zero => exact .fail trivial
  | succ depth ih => exact executeAll ih h

/-! Programs. -/

theorem declareClass {d : ClassDecl} (h : d.Plain) :
    Complies t (declareClass d) fun _ => True := by
  obtain ⟨c, hc, hw⟩ := Class.Wellformed.ofDecl h
  unfold ObjectPascal.declareClass
  rw [hc]
  refine .bind_perform hw fun _ _ => ?_
  exact action trivial

theorem declareClasses {ds : List ClassDecl} (h : Every ClassDecl.Plain ds) :
    Complies t (declareClasses ds) fun _ => True := by
  induction ds with
  | nil => exact .pure trivial
  | cons d ds ih =>
    obtain ⟨hd, hds⟩ := List.forall_mem_cons.mp h
    exact .bind (declareClass hd) fun _ _ => ih hds

theorem attachMethods {impls : List MethodImpl} (h : Every MethodImpl.Plain impls) :
    Complies t (attachMethods impls) fun _ => True := by
  induction impls with
  | nil => exact .pure trivial
  | cons impl impls ih =>
    obtain ⟨hi, his⟩ := List.forall_mem_cons.mp h
    refine .bind_perform hi fun _ _ => ?_
    refine .bind_perform trivial fun _ _ => ?_
    exact ih his

theorem fits_initialValue (typeName : String) : (initialValue typeName).Fits := by
  unfold initialValue
  split
  · exact Value.fits_zero
  · trivial

theorem declareNames (typeName : String) (names : List String) :
    Complies t (declareNames typeName names) fun _ => True := by
  induction names with
  | nil => exact .pure trivial
  | cons name names ih => exact .bind_perform (fits_initialValue typeName) fun _ _ => ih

theorem declareVars (groups : List NameGroup) :
    Complies t (declareVars groups) fun _ => True := by
  induction groups with
  | nil => exact .pure trivial
  | cons group groups ih => exact .bind (declareNames _ _) fun _ _ => ih

theorem programEffect (depth : Nat) {p : Program} (h : p.Plain) :
    Complies t (p.effect depth) fun _ => True := by
  refine .bind (declareClasses h.classes) fun _ _ => ?_
  refine .bind (attachMethods h.methods) fun _ _ => ?_
  refine .bind (declareVars _) fun _ _ => ?_
  exact executeAll (runBody depth) h.block

theorem report {raised : Raised} (h : t.Fails raised) :
    Complies t (Program.report raised) fun _ => True := by
  cases raised with
  | runtime error =>
    refine .bind_perform trivial fun _ _ => ?_
    refine .bind_perform trivial fun _ _ => ?_
    refine .bind_perform trivial fun _ _ => ?_
    exact .fail h
  | host fault =>
    refine .bind_perform trivial fun _ _ => ?_
    refine .bind_perform trivial fun _ _ => ?_
    refine .bind_perform trivial fun _ _ => ?_
    exact .fail (t.internal h)
  | exhausted error =>
    refine .bind (.mapError (action trivial) ?_) fun _ _ => ?_
    · intro e he
      cases e with
      | runtime e => exact trivial
      | host f => exact he
      | exhausted e => exact trivial
    refine .bind_perform trivial fun _ _ => ?_
    refine .bind_perform trivial fun _ _ => ?_
    exact .fail trivial

theorem programExecute (depth : Nat) {p : Program} (h : p.Plain) :
    Complies t (p.execute depth) fun _ => True := by
  refine .bind_perform trivial fun _ _ => ?_
  refine .bind (.attempt (programEffect depth h) fun r hr => hr) fun r hr => ?_
  cases r with
  | ok => exact action trivial
  | error raised => exact report hr

end Complies

end ObjectPascal
