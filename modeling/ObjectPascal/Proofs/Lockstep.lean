import ObjectPascal.Proofs.Likeness

/-!
Programs that are alike run in lockstep. The functions of the evaluator are gone through once for
all likenesses; the depth to which calls nest is counted on the way.
-/

namespace ObjectPascal.Likeness

open Script

variable {W : Type} [Preorder W] {ℓ : Likeness W} {n : Nat} {w : W} {α β : Type}

namespace Couples

theorem fault {Q : W → α → β → Prop} {c c' : Cause} {l l' : Option Location}
    (hc : c.Alike ℓ.toReading c') (hl : ℓ.places l l') :
    ℓ.Couples n w (Script.fault l c : Script α) (Script.fault l' c' : Script β) Q :=
  .fail ⟨ℓ.causes_alike hc, hl, rfl, rfl⟩

theorem renderAll {vs : List Value} (hv : ∀ v ∈ vs, ℓ.values w v) :
    ℓ.Couples n w (renderAll vs) (renderAll vs)
      fun _ texts texts' => List.Forall₂ ℓ.names texts texts' := by
  induction vs generalizing w with
  | nil => exact .pure .nil
  | cons v vs ih =>
    obtain ⟨hfirst, hrest⟩ := List.forall_mem_cons.mp hv
    refine .bind_perform rfl (.render hfirst) ?_
    intro w₁ text text' hw ht
    have hrest' : ∀ v ∈ vs, ℓ.values w₁ v := fun v h => ℓ.values_mono hw (hrest v h)
    refine .bind (ih hrest') ?_
    intro w₂ texts texts' _ hts
    exact .pure (.cons ht hts)

theorem expectInt {l l' : Location} (hl : ℓ.places (some l) (some l')) (v : Value) :
    ℓ.Couples n w (expectInt l v) (expectInt l' v) fun _ a a' => a' = a := by
  cases v with
  | int a => exact .pure rfl
  | object => exact fault (.refl _) hl
  | nil => exact fault (.refl _) hl

theorem narrow (a : Int) :
    ℓ.Couples n w (narrow a) (narrow a) fun _ b b' => b' = b := by
  unfold ObjectPascal.narrow
  cases Word.narrow? a with
  | some b => exact .pure rfl
  | none =>
    apply Parallel.fail
    rfl

theorem arithmetic {l l' : Location} (hl : ℓ.places (some l) (some l')) (op : Operator)
    (a b : Int) : ℓ.Couples n w (arithmetic l op a b) (arithmetic l' op a b)
      fun _ c c' => c' = c := by
  cases op with
  | add => exact narrow _
  | sub => exact narrow _
  | mul => exact narrow _
  | div =>
    unfold ObjectPascal.arithmetic
    cases Word.quotient? a b with
    | some q => exact narrow q
    | none => exact fault (.refl _) hl
  | other symbol => exact fault (.refl _) hl

theorem resolveObject {base base' : String} {l l' : Location} (h : ℓ.names base base')
    (hl : ℓ.places (some l) (some l')) :
    ℓ.Couples n w (resolveObject base l) (resolveObject base' l') ℓ.SameObject := by
  have hkey := ℓ.key_of_names h
  unfold ObjectPascal.resolveObject
  rw [hkey]
  split
  · exact .action rfl .receiver
  · refine .bind_perform rfl (.lookup h) ?_
    intro w' v v' _ hv
    obtain ⟨rfl, hvalue⟩ := hv
    cases v' with
    | object id => exact .pure ⟨rfl, hvalue⟩
    | int => exact fault (.notAnObject _ h) hl
    | nil => exact fault (.notAnObject _ h) hl

theorem readDesignator {d d' : Designator} (hd : d.Alike ℓ.toReading d') :
    ℓ.Couples n w (readDesignator d) (readDesignator d') ℓ.Same := by
  unfold ObjectPascal.readDesignator
  obtain ⟨hs, hs'⟩ | ⟨field, field', hs, hs', hfield⟩ | ⟨_, _, _, _, _, _, hs, hs'⟩ :=
    hd.selectors_cases
  · rw [hs, hs']
    exact .action rfl (.lookup hd.base)
  · rw [hs, hs']
    refine .bind (resolveObject hd.base hd.location) ?_
    intro w' id id' _ hid
    obtain ⟨rfl, hvalue⟩ := hid
    exact .action rfl (.readField hvalue hfield hd.location)
  · rw [hs, hs']
    exact fault (.malformedTarget hd) hd.location

theorem writeDesignator {d d' : Designator} (hd : d.Alike ℓ.toReading d') {v : Value}
    (hv : ℓ.values w v) :
    ℓ.Couples n w (writeDesignator d v) (writeDesignator d' v) fun _ _ _ => True := by
  unfold ObjectPascal.writeDesignator
  obtain ⟨hs, hs'⟩ | ⟨field, field', hs, hs', hfield⟩ | ⟨_, _, _, _, _, _, hs, hs'⟩ :=
    hd.selectors_cases
  · rw [hs, hs']
    exact .action rfl (.assign hd.base hv)
  · rw [hs, hs']
    refine .bind (resolveObject hd.base hd.location) ?_
    intro w' id id' hw hid
    obtain ⟨rfl, hvalue⟩ := hid
    exact .action rfl (.writeField hvalue hfield (ℓ.values_mono hw hv) hd.location)
  · rw [hs, hs']
    exact fault (.malformedTarget hd) hd.location

theorem writeAll (lines : List String) :
    ℓ.Couples n w (writeAll lines) (writeAll lines) fun _ _ _ => True := by
  induction lines generalizing w with
  | nil => exact .pure trivial
  | cons line lines ih =>
    refine .bind_perform rfl (.write line) ?_
    intro w' _ _ _ _
    exact ih

theorem writeln (args : List Value) :
    ℓ.Couples n w (writeln args) (writeln args) fun _ _ _ => True := by
  refine .bind (writeAll _) ?_
  intro w' _ _ _ _
  exact .action rfl (.transcribe _)

theorem readInto {name name' : String} {l l' : Location} (h : ℓ.names name name')
    (hl : ℓ.places (some l) (some l')) :
    ℓ.Couples n w (readInto name l) (readInto name' l') fun _ _ _ => True := by
  refine .bind_perform rfl .nextWord ?_
  intro w₁ word word' _ hword
  obtain rfl : word' = word := hword
  cases word' with
  | none => exact fault (.refl _) hl
  | some word =>
    dsimp only
    split
    · exact fault (.refl _) hl
    split
    · apply Parallel.fail
      rfl
    split
    · refine .bind_perform rfl (.transcribe _) ?_
      intro w₂ _ _ _ _
      exact .action rfl (.assign h (ℓ.values_int _ _))
    · exact fault (.refl _) hl

theorem readln {operand operand' : Expr} {l l' : Location}
    (h : operand.Alike ℓ.toReading operand') (hl : ℓ.places (some l) (some l')) :
    ℓ.Couples n w (readln operand l) (readln operand' l') fun _ _ _ => True := by
  cases h with
  | @ref d d' hd =>
    unfold ObjectPascal.readln
    obtain ⟨hs, hs'⟩ | ⟨field, field', hs, hs', hfield⟩ | ⟨_, _, _, _, _, _, hs, hs'⟩ :=
      hd.selectors_cases
    · simp only [hs, hs', List.isEmpty_nil, if_true]
      exact readInto hd.base hl
    · simp only [hs, hs', List.isEmpty_cons, Bool.false_eq_true, if_false]
      exact fault (.refl _) hl
    · simp only [hs, hs', List.isEmpty_cons, Bool.false_eq_true, if_false]
      exact fault (.refl _) hl
  | literal => exact fault (.refl _) hl
  | binary => exact fault (.refl _) hl
  | parens => exact fault (.refl _) hl
  | call => exact fault (.refl _) hl
  | bare => exact fault (.refl _) hl

theorem ofName?_eq {name name' : String} (h : ℓ.names name name') :
    Builtin.ofName? name' = Builtin.ofName? name := by
  unfold Builtin.ofName?
  rw [ℓ.key_of_names h]

theorem invokeBuiltin {name name' : String} {l l' : Location} {operands operands' : List Expr}
    (args : List Value) (h : ℓ.names name name')
    (ho : Expr.AllAlike ℓ.toReading operands operands') (hl : ℓ.places (some l) (some l')) :
    ℓ.Couples n w (invokeBuiltin name args operands l) (invokeBuiltin name' args operands' l')
      fun _ _ _ => True := by
  unfold ObjectPascal.invokeBuiltin
  rw [ofName?_eq h]
  split
  · exact fault (.unknownProcedure h) hl
  · exact writeln args
  · rw [ho.length]
    cases ho with
    | nil => exact fault (.refl _) hl
    | cons he hes =>
      cases hes with
      | nil => exact readln he hl
      | cons => exact fault (.refl _) hl

theorem checkArity {member : String} {m m' : Method} {l l' : Option Location}
    (hm : ℓ.methods member m m') (args : List Value) (hl : ℓ.places l l') :
    ℓ.Couples n w (checkArity m args l) (checkArity m' args l') fun _ _ _ => True := by
  unfold ObjectPascal.checkArity
  rw [ℓ.arity hm]
  split
  · exact .pure trivial
  · exact fault (.argumentCount _ _ (ℓ.qualifiedName hm)) hl

theorem callResult {member : String} {m m' : Method} (hm : ℓ.methods member m m')
    (frame : FrameId) : ℓ.Couples n w (callResult m frame) (callResult m' frame) ℓ.Same := by
  unfold ObjectPascal.callResult
  rw [ℓ.isFunction hm]
  split
  · exact .action rfl (.result frame)
  · exact .pure ⟨rfl, ℓ.values_nil w⟩

/-! Calls. -/

variable {body body' : List Statement → Script Unit}

theorem runMethod {member : String} {m m' : Method} {receiver : ObjectId} {args : List Value}
    {l l' : Option Location} (kind : CallKind) (hb : ℓ.Runs body body' n member)
    (hm : ℓ.methods member m m') (hr : ℓ.values w (.object receiver))
    (ha : ∀ v ∈ args, ℓ.values w v) (hl : ℓ.places l l') :
    ℓ.Couples n w (runMethod body kind receiver m args l)
      (runMethod body' kind receiver m' args l') ℓ.Same := by
  have hname := ℓ.qualifiedName hm
  refine .bind_perform rfl (.newFrame hm ha hl) ?_
  intro w₁ frame frame' hw₁ hframe
  obtain rfl : frame' = frame := hframe
  refine .bind (renderAll fun v h => ℓ.values_mono hw₁ (ha v h)) ?_
  intro w₂ texts texts' hw₂ htexts
  refine .bind_perform rfl (.log (.enter kind hname htexts) hl) ?_
  intro w₃ _ _ hw₃ _
  refine .bind_perform rfl (.emit (.beforeCall hname htexts hl)) ?_
  intro w₄ _ _ hw₄ _
  have hw : w ≤ w₄ := hw₁.trans (hw₂.trans (hw₃.trans hw₄))
  obtain ⟨k, hk, hbody⟩ := hb m m' hm
  have henter : ℓ.Asks w₄ (.enter frame' receiver) (.enter frame' receiver) fun _ _ _ => True :=
    .enter frame' (ℓ.values_mono hw hr)
  have hwithin : ℓ.Couples n w₄ (within frame' receiver (body (m.body.getD [])))
      (within frame' receiver (body' (m'.body.getD []))) fun _ _ _ => True :=
    .within hk henter (fun w' _ => hbody w') fun _ _ => trivial
  refine .bind hwithin ?_
  intro w₅ _ _ _ _
  refine .bind (callResult hm frame') ?_
  intro w₆ result result' _ hresult
  obtain ⟨rfl, hvalue⟩ := hresult
  refine .bind_perform rfl (.render hvalue) ?_
  intro w₇ text text' hw₇ htext
  refine .bind_perform rfl (.emit (.afterCall hname htext hl)) ?_
  intro w₈ _ _ hw₈ _
  exact .pure ⟨rfl, ℓ.values_mono (hw₇.trans hw₈) hvalue⟩

theorem construct {member member' : String} {id : ClassId} {args : List Value}
    {l l' : Option Location} (hb : ℓ.Runs body body' n member) (h : ℓ.names member member')
    (hid : ℓ.classes w id) (ha : ∀ v ∈ args, ℓ.values w v) (hl : ℓ.places l l') :
    ℓ.Couples n w (construct body id member args l) (construct body' id member' args l')
      ℓ.Same := by
  refine .bind_perform rfl (.findConstructor hid h hl) ?_
  intro w₁ m m' hw₁ hm
  refine .bind (checkArity hm args hl) ?_
  intro w₂ _ _ hw₂ _
  have hw := hw₁.trans hw₂
  refine .bind_perform rfl (.newObject (ℓ.classes_mono hw hid)) ?_
  intro w₃ object object' hw₃ hobject
  obtain ⟨rfl, hvalue⟩ := hobject
  have hargs : ∀ v ∈ args, ℓ.values w₃ v := fun v h => ℓ.values_mono (hw.trans hw₃) (ha v h)
  refine .bind (runMethod .new hb hm hvalue hargs hl) ?_
  intro w₄ _ _ hw₄ _
  exact .pure ⟨rfl, ℓ.values_mono hw₄ hvalue⟩

theorem invokeMethod {member member' : String} {receiver : ObjectId} {args : List Value}
    {l l' : Option Location} (hb : ℓ.Runs body body' n member) (h : ℓ.names member member')
    (hr : ℓ.values w (.object receiver)) (ha : ∀ v ∈ args, ℓ.values w v) (hl : ℓ.places l l') :
    ℓ.Couples n w (invokeMethod body receiver member args l)
      (invokeMethod body' receiver member' args l') ℓ.Same := by
  refine .bind_perform rfl (.findMethod hr h hl) ?_
  intro w₁ r r' hw₁ hm
  obtain ⟨m, kind⟩ := r
  obtain ⟨m', kind'⟩ := r'
  obtain ⟨hm, hkind⟩ := hm
  obtain rfl : kind' = kind := hkind
  refine .bind (checkArity hm args hl) ?_
  intro w₂ _ _ hw₂ _
  have hw := hw₁.trans hw₂
  have hargs : ∀ v ∈ args, ℓ.values w₂ v := fun v h => ℓ.values_mono hw (ha v h)
  exact runMethod kind' hb hm (ℓ.values_mono hw hr) hargs hl

theorem callMember {left left' member member' : String} {args : List Value} {l l' : Location}
    (hb : ℓ.Runs body body' n member) (hleft : ℓ.names left left')
    (h : ℓ.names member member') (ha : ∀ v ∈ args, ℓ.values w v)
    (hl : ℓ.places (some l) (some l')) :
    ℓ.Couples n w (callMember body l left member args) (callMember body' l' left' member' args)
      ℓ.Same := by
  refine .bind_perform rfl (.constructedClass hleft) ?_
  intro w₁ id id' hw₁ hid
  obtain ⟨rfl, hclass⟩ := hid
  have hargs : ∀ v ∈ args, ℓ.values w₁ v := fun v h => ℓ.values_mono hw₁ (ha v h)
  cases id' with
  | some id => exact construct hb h (hclass id rfl) hargs hl
  | none =>
    refine .bind (resolveObject hleft hl) ?_
    intro w₂ receiver receiver' hw₂ hr
    obtain ⟨rfl, hvalue⟩ := hr
    exact invokeMethod hb h hvalue (fun v h => ℓ.values_mono hw₂ (hargs v h)) hl

/-! Expressions. -/

mutual

theorem evaluate {w : W} {e e' : Expr} (he : e.Alike ℓ.toReading e')
    (hb : ∀ member ∈ e.calls, ℓ.Runs body body' n member) :
    ℓ.Couples n w (evaluate body e) (evaluate body' e') ℓ.Same :=
  match he with
  | .literal _ _ k => .pure ⟨rfl, ℓ.values_int w k⟩
  | .ref hd => readDesignator hd
  | .parens _ _ hinner => by
    have h := evaluate (w := w) hinner hb
    exact h
  | .binary op hl hleft hright => by
    refine .bind (evaluate hleft fun member h => hb member (List.mem_append_left _ h)) ?_
    intro w₁ v v' _ hv
    obtain ⟨rfl, -⟩ := hv
    refine .bind (expectInt hl v') ?_
    intro w₂ a a' _ ha
    obtain rfl : a' = a := ha
    refine .bind (evaluate hright fun member h => hb member (List.mem_append_right _ h)) ?_
    intro w₃ u u' _ hu
    obtain ⟨rfl, -⟩ := hu
    refine .bind (expectInt hl u') ?_
    intro w₄ b b' _ hb'
    obtain rfl : b' = b := hb'
    refine .bind (arithmetic hl op a' b') ?_
    intro w₅ c c' _ hc
    obtain rfl : c' = c := hc
    exact .pure ⟨rfl, ℓ.values_int _ _⟩
  | .call hl hleft hmember hargs => by
    refine .bind (evaluateAll hargs fun member h => hb member (List.mem_cons_of_mem _ h)) ?_
    intro w₁ vs vs' _ hvs
    obtain ⟨rfl, hvalues⟩ := hvs
    exact callMember (hb _ List.mem_cons_self) hleft hmember hvalues hl
  | .bare hl => fault (.refl _) hl

theorem evaluateAll {w : W} {es es' : List Expr} (he : Expr.AllAlike ℓ.toReading es es')
    (hb : ∀ member ∈ Expr.allCalls es, ℓ.Runs body body' n member) :
    ℓ.Couples n w (evaluateAll body es) (evaluateAll body' es')
      fun w vs vs' => vs' = vs ∧ ∀ v ∈ vs, ℓ.values w v :=
  match he with
  | .nil => .pure ⟨rfl, nofun⟩
  | .cons he hes => by
    refine .bind (evaluate he fun member h => hb member (List.mem_append_left _ h)) ?_
    intro w₁ v v' _ hv
    obtain ⟨rfl, hvalue⟩ := hv
    refine .bind (evaluateAll hes fun member h => hb member (List.mem_append_right _ h)) ?_
    intro w₂ vs vs' hw hvs
    obtain ⟨rfl, hvalues⟩ := hvs
    exact .pure ⟨rfl, List.forall_mem_cons.mpr ⟨ℓ.values_mono hw hvalue, hvalues⟩⟩

end

/-! Statements. -/

theorem operandValues {operands operands' : List Expr} (procedure : Builtin)
    (hb : ∀ member ∈ Expr.allCalls operands, ℓ.Runs body body' n member)
    (ho : Expr.AllAlike ℓ.toReading operands operands') :
    ℓ.Couples n w (operandValues body procedure operands) (operandValues body' procedure operands')
      fun w vs vs' => vs' = vs ∧ ∀ v ∈ vs, ℓ.values w v := by
  cases procedure with
  | writeln => exact evaluateAll ho hb
  | readln => exact .pure ⟨rfl, nofun⟩

theorem callProcedure {name name' : String} {operands operands' : List Expr} {l l' : Location}
    (hb : ∀ member ∈ Expr.allCalls operands, ℓ.Runs body body' n member)
    (h : ℓ.names name name') (ho : Expr.AllAlike ℓ.toReading operands operands')
    (hl : ℓ.places (some l) (some l')) :
    ℓ.Couples n w (callProcedure body l name operands) (callProcedure body' l' name' operands')
      fun _ _ _ => True := by
  unfold ObjectPascal.callProcedure
  rw [ofName?_eq h]
  split
  · exact fault (.unknownProcedure h) hl
  · next procedure _ =>
    refine .bind (operandValues procedure hb ho) ?_
    intro w₁ args args' _ hargs
    obtain ⟨rfl, hvalues⟩ := hargs
    refine .bind (renderAll hvalues) ?_
    intro w₂ texts texts' _ htexts
    refine .bind_perform rfl (.emit (.beforeCall h htexts hl)) ?_
    intro w₃ _ _ _ _
    refine .bind (invokeBuiltin args' h ho hl) ?_
    intro w₄ _ _ _ _
    refine .bind_perform rfl (.log (.builtin procedure htexts) hl) ?_
    intro w₅ _ _ _ _
    exact .action rfl (.emit (.afterCall h (ℓ.names_refl _) hl))

theorem effect {s s' : Statement} (hb : ∀ member ∈ s.calls, ℓ.Runs body body' n member)
    (hs : s.Alike ℓ.toReading s') :
    ℓ.Couples n w (s.effect body) (s'.effect body') fun _ _ _ => True := by
  cases hs with
  | assignment _ hd he =>
    refine .bind (evaluate he hb) ?_
    intro w₁ v v' _ hv
    obtain ⟨rfl, hvalue⟩ := hv
    exact writeDesignator hd hvalue
  | methodCall hl hleft hmember hargs =>
    refine .bind (evaluateAll hargs fun member h => hb member (List.mem_cons_of_mem _ h)) ?_
    intro w₁ vs vs' _ hvs
    obtain ⟨rfl, hvalues⟩ := hvs
    refine .bind (callMember (hb _ List.mem_cons_self) hleft hmember hvalues hl) ?_
    intro w₂ _ _ _ _
    exact .pure trivial
  | procedureCall hl hname hargs => exact callProcedure hb hname hargs hl
  | bare hl => exact fault (.refl _) hl

theorem execute {s s' : Statement} (hb : ∀ member ∈ s.calls, ℓ.Runs body body' n member)
    (hs : s.Alike ℓ.toReading s') :
    ℓ.Couples n w (s.execute body) (s'.execute body') fun _ _ _ => True := by
  unfold Statement.execute
  rw [hs.form]
  refine .bind_perform rfl (.log (.statement s.form) hs.location) ?_
  intro w₁ _ _ _ _
  refine .mapError (effect hb hs) ?_
  intro e e' he
  exact Fails.locate he hs.location

/-- Statements that are alike run in parallel if the bodies of what they call do. -/
theorem executeAll {ss ss' : List Statement}
    (hb : ∀ s ∈ ss, ∀ member ∈ s.calls, ℓ.Runs body body' n member)
    (hs : List.Forall₂ (Statement.Alike ℓ.toReading) ss ss') :
    ℓ.Couples n w (executeAll body ss) (executeAll body' ss') fun _ _ _ => True := by
  induction hs generalizing w with
  | nil => exact .pure trivial
  | @cons s s' ss ss' hfirst _ ih =>
    obtain ⟨hb₁, hb₂⟩ := List.forall_mem_cons.mp hb
    unfold ObjectPascal.executeAll
    rw [hfirst.form]
    refine .bind_perform rfl (.emit (.beforeStatement s.form hfirst.location)) ?_
    intro w₁ _ _ _ _
    refine .bind (execute hb₁ hfirst) ?_
    intro w₂ _ _ _ _
    refine .bind_perform rfl (.emit (.afterStatement s.form hfirst.location)) ?_
    intro w₃ _ _ _ _
    exact ih hb₂

/-- By induction on the room for calls: where it may run out, bodies that are alike run in parallel
with the same room. -/
theorem runBody (hx : ℓ.exhausts)
    (hm : ∀ {member m m'}, ℓ.methods member m m' →
      List.Forall₂ (Statement.Alike ℓ.toReading) (m.body.getD []) (m'.body.getD []))
    {depth : Nat} {ss ss' : List Statement}
    (hs : List.Forall₂ (Statement.Alike ℓ.toReading) ss ss') :
    ℓ.Couples depth w (runBody depth ss) (runBody depth ss') fun _ _ _ => True := by
  induction depth generalizing w ss ss' with
  | zero => exact .fail ⟨hx, .tooDeep⟩
  | succ depth ih =>
    refine executeAll ?_ hs
    intro s _ member _ m m' hmethod
    exact ⟨depth, Nat.lt_succ_self depth, fun w' => ih (hm hmethod)⟩

/-! Programs. -/

theorem declareClass {d d' : ClassDecl} (hd : ℓ.Decls d d') :
    ℓ.Couples n w (declareClass d) (declareClass d') fun _ _ _ => True := by
  have hdescribed := hd.described
  unfold ObjectPascal.declareClass
  cases hc : Class.ofDecl d with
  | error cause =>
    cases hc' : Class.ofDecl d' with
    | error cause' =>
      rw [hc, hc'] at hdescribed
      exact .fail ⟨hdescribed, ℓ.places_none, rfl, rfl⟩
    | ok c' =>
      rw [hc, hc'] at hdescribed
      exact hdescribed.elim
  | ok c =>
    cases hc' : Class.ofDecl d' with
    | error cause' =>
      rw [hc, hc'] at hdescribed
      exact hdescribed.elim
    | ok c' =>
      rw [hc, hc'] at hdescribed
      refine .bind_perform rfl (.defineClass hdescribed hd.location) ?_
      intro w₁ _ _ _ _
      exact .action rfl (.log (.declareClass hd.name) hd.location)

theorem declareClasses {ds ds' : List ClassDecl} (hd : List.Forall₂ ℓ.Decls ds ds') :
    ℓ.Couples n w (declareClasses ds) (declareClasses ds') fun _ _ _ => True := by
  induction hd generalizing w with
  | nil => exact .pure trivial
  | cons hfirst _ ih =>
    refine .bind (declareClass hfirst) ?_
    intro w₁ _ _ _ _
    exact ih

theorem attachMethods {impls impls' : List MethodImpl} (hi : List.Forall₂ ℓ.Impls impls impls') :
    ℓ.Couples n w (attachMethods impls) (attachMethods impls') fun _ _ _ => True := by
  induction hi generalizing w with
  | nil => exact .pure trivial
  | cons hfirst _ ih =>
    refine .bind_perform rfl (.attachMethod hfirst.attached hfirst.location) ?_
    intro w₁ name name' _ hname
    refine .bind_perform rfl (.log (.attachMethod hname) hfirst.location) ?_
    intro w₂ _ _ _ _
    exact ih

theorem values_initialValue (w : W) (typeName : String) : ℓ.values w (initialValue typeName) := by
  unfold initialValue
  split
  · exact ℓ.values_int w 0
  · exact ℓ.values_nil w

theorem declareNames {typeName typeName' : String} {names names' : List String}
    (ht : ℓ.names typeName typeName') (hn : List.Forall₂ ℓ.globals names names') :
    ℓ.Couples n w (declareNames typeName names) (declareNames typeName' names')
      fun _ _ _ => True := by
  have hinitial : initialValue typeName' = initialValue typeName := by
    unfold initialValue
    rw [ℓ.key_of_names ht]
  induction hn generalizing w with
  | nil => exact .pure trivial
  | cons hfirst _ ih =>
    unfold ObjectPascal.declareNames
    rw [hinitial]
    refine .bind_perform rfl (.declareGlobal hfirst (values_initialValue w typeName)) ?_
    intro w₁ _ _ _ _
    exact ih

theorem declareVars {groups groups' : List NameGroup}
    (hg : List.Forall₂ ℓ.Vars groups groups') :
    ℓ.Couples n w (declareVars groups) (declareVars groups') fun _ _ _ => True := by
  induction hg generalizing w with
  | nil => exact .pure trivial
  | cons hfirst _ ih =>
    refine .bind (declareNames hfirst.typeName hfirst.names) ?_
    intro w₁ _ _ _ _
    exact ih

theorem report {e e' : Raised} (he : ℓ.Fails e e') :
    ℓ.Couples n w (Program.report e) (Program.report e') fun _ _ _ => True := by
  cases e with
  | runtime e =>
    cases e' with
    | runtime e' =>
      have hfaults : ℓ.Faults e e' := he
      refine .bind_perform rfl .liveFrames ?_
      intro w₁ live live' _ hlive
      obtain rfl : live' = live := hlive
      refine .bind_perform rfl .lastStep ?_
      intro w₂ last last' _ hlast
      obtain ⟨index, place⟩ := last
      obtain ⟨index', place'⟩ := last'
      obtain rfl : index' = index := hlast.1
      have hraised : ℓ.Fails (.runtime { e with step := some index' })
          (.runtime { e' with step := some index' }) := { hfaults with step := rfl }
      refine .bind_perform rfl (.emit (.onError (hraised.capture live'))) ?_
      intro w₃ _ _ _ _
      exact .fail (hraised.capture live')
    | host => exact he.elim
    | exhausted => exact he.elim
  | host f =>
    cases e' with
    | host f' =>
      obtain rfl : f' = f := he
      have hself : ℓ.Fails (.host f') (.host f') := rfl
      refine .bind_perform rfl (.emit (.onError hself)) ?_
      intro w₁ _ _ _ _
      refine .bind_perform rfl .liveFrames ?_
      intro w₂ live live' _ hlive
      obtain rfl : live' = live := hlive
      refine .bind_perform rfl .lastStep ?_
      intro w₃ last last' _ hlast
      obtain ⟨index, place⟩ := last
      obtain ⟨index', place'⟩ := last'
      obtain ⟨hindex, hplace⟩ := hlast
      obtain rfl : index' = index := hindex
      exact .fail ⟨ℓ.causes_alike (.refl _), hplace, rfl, rfl⟩
    | runtime => exact he.elim
    | exhausted => exact he.elim
  | exhausted e =>
    cases e' with
    | exhausted e' =>
      obtain ⟨hx, hfaults⟩ := he
      have htold : ℓ.Couples n w (Script.perform (.emit (.onError (.exhausted e))))
          (Script.perform (.emit (.onError (.exhausted e')))) fun _ _ _ => True :=
        .action rfl (.emit (.onError ⟨hx, hfaults⟩))
      refine .bind (.mapError htold fun _ _ => Fails.outOfRoom hx) ?_
      intro w₁ _ _ _ _
      refine .bind_perform rfl .liveFrames ?_
      intro w₂ live live' _ hlive
      obtain rfl : live' = live := hlive
      refine .bind_perform rfl .lastStep ?_
      intro w₃ last last' _ hlast
      obtain ⟨index, place⟩ := last
      obtain ⟨index', place'⟩ := last'
      obtain ⟨hindex, hplace⟩ := hlast
      obtain rfl : index' = index := hindex
      have hraised : ℓ.Fails (.exhausted { e with location := place, step := some index' })
          (.exhausted { e' with location := place', step := some index' }) :=
        ⟨hx, hfaults.cause, hplace, rfl, hfaults.stack⟩
      exact .fail (hraised.capture live')
    | runtime => exact he.elim
    | host => exact he.elim

/-- Programs that are alike run in parallel if the bodies of what their main blocks call do. -/
theorem programExecute {p p' : Program} {depth depth' : Nat} (hp : ℓ.Programs p p')
    (hb : ∀ s ∈ p.block.statements, ∀ member ∈ s.calls,
      ℓ.Runs (ObjectPascal.runBody depth) (ObjectPascal.runBody depth') n member) :
    ℓ.Couples n w (p.execute depth) (p'.execute depth') fun _ _ _ => True := by
  have heffect : ∀ w', ℓ.Couples n w' (p.effect depth) (p'.effect depth') fun _ _ _ => True := by
    intro w'
    refine .bind (declareClasses hp.classes) ?_
    intro w₁ _ _ _ _
    refine .bind (attachMethods hp.methods) ?_
    intro w₂ _ _ _ _
    refine .bind (declareVars hp.vars) ?_
    intro w₃ _ _ _ _
    exact executeAll hb hp.block
  refine .bind_perform rfl (.emit (.programStart hp.name)) ?_
  intro w₁ _ _ _ _
  refine .bind (.attempt (heffect w₁) fun _ _ _ _ hr => hr) ?_
  intro w₂ r r' _ hr
  cases r with
  | ok _ =>
    cases r' with
    | ok _ => exact .action rfl (.emit .programEnd)
    | error e' => exact hr.elim
  | error e =>
    cases r' with
    | ok _ => exact hr.elim
    | error e' => exact report hr

/-- Programs that are alike run in parallel with the same room for calls. -/
theorem programExecute_same {p p' : Program} (depth : Nat) (hx : ℓ.exhausts)
    (hm : ∀ {member m m'}, ℓ.methods member m m' →
      List.Forall₂ (Statement.Alike ℓ.toReading) (m.body.getD []) (m'.body.getD []))
    (hp : ℓ.Programs p p') :
    ℓ.Couples (depth + 1) w (p.execute depth) (p'.execute depth) fun _ _ _ => True := by
  refine programExecute hp ?_
  intro s _ member _ m m' hmethod
  exact ⟨depth, Nat.lt_succ_self depth, fun w' => runBody hx hm (hm hmethod)⟩

end Couples

end ObjectPascal.Likeness
