import Mathlib.Data.Nat.Digits.Defs
import Mathlib.Tactic.IntervalCases
import ObjectPascal.Proofs.Functions

/-!
Reading numbers. A word of the input is a number if it is a sign, which may be missing, and decimal
digits, and a word that does not fit a variable is refused before anything has changed.
-/

namespace ObjectPascal

open Script

/-! Numerals. -/

namespace Text

/-- The character of a decimal digit. -/
def digit (d : Fin 10) : Char :=
  Nat.digitChar d

/-- The number with some decimal digits, the first of which counts most. -/
def decimal (ds : List (Fin 10)) : Nat :=
  Nat.ofDigits 10 (ds.reverse.map Fin.val)

/-- `cs` is a sign, which may be missing, and the digits `ds`, and its value is `n`. -/
inductive Numeral : (cs : List Char) → (ds : List (Fin 10)) → (n : Int) → Prop
  | bare {ds : List (Fin 10)} (h : ds ≠ []) : Numeral (ds.map digit) ds (decimal ds)
  | plus {ds : List (Fin 10)} (h : ds ≠ []) : Numeral ('+' :: ds.map digit) ds (decimal ds)
  | minus {ds : List (Fin 10)} (h : ds ≠ []) : Numeral ('-' :: ds.map digit) ds (-decimal ds)

theorem isDigit_digit : ∀ d : Fin 10, isDigit (digit d) := by
  decide

theorem digit_value : ∀ d : Fin 10, (digit d).toNat - '0'.toNat = d := by
  decide

theorem exists_digit {c : Char} (h : isDigit c) : ∃ d, digit d = c := by
  unfold isDigit at h
  simp only [Bool.and_eq_true, decide_eq_true_eq, Char.le_def, UInt32.le_iff_toNat_le] at h
  obtain ⟨hlow, hhigh⟩ : 48 ≤ c.toNat ∧ c.toNat ≤ 57 := h
  have hc := Char.ofNat_toNat c
  generalize c.toNat = n at hlow hhigh hc
  subst hc
  refine ⟨⟨n - 48, by omega⟩, ?_⟩
  unfold digit
  interval_cases n <;> rfl

theorem digitsValue_map (ds : List (Fin 10)) :
    digitsValue (ds.map digit) = decimal ds := by
  induction ds using List.reverseRecOn with
  | nil => rfl
  | append_singleton ds d ih =>
    have hlast : digitsValue ((ds ++ [d]).map digit) = 10 * digitsValue (ds.map digit) + d := by
      unfold digitsValue
      rw [List.map_append, List.foldl_append]
      exact congrArg (10 * (ds.map digit).foldl _ 0 + ·) (digit_value d)
    unfold decimal at ih ⊢
    rw [hlast, ih, List.reverse_append, List.reverse_singleton, List.singleton_append,
      List.map_cons, Nat.ofDigits_cons, Nat.add_comm]

theorem exists_digits {cs : List Char} (h : cs.all isDigit) : ∃ ds : List (Fin 10),
    ds.map digit = cs := by
  induction cs with
  | nil => exact ⟨[], rfl⟩
  | cons c cs ih =>
    rw [List.all_cons, Bool.and_eq_true] at h
    obtain ⟨d, rfl⟩ := exists_digit h.1
    obtain ⟨ds, rfl⟩ := ih h.2
    exact ⟨d :: ds, rfl⟩

/-- Digits have no sign in front. -/
theorem splitSign_digits (ds : List (Fin 10)) :
    splitSign (ds.map digit) = (false, ds.map digit) := by
  cases ds with
  | nil => rfl
  | cons d ds =>
    have hsign : ∀ d : Fin 10, digit d ≠ '-' ∧ digit d ≠ '+' := by decide
    unfold splitSign
    split
    · next h => exact absurd (List.cons.inj h).1 (hsign d).1
    · next h => exact absurd (List.cons.inj h).1 (hsign d).2
    · rfl

variable {cs : List Char} {ds : List (Fin 10)} {n : Int}

theorem Numeral.ne_nil (h : Numeral cs ds n) : ds ≠ [] := by
  cases h <;> assumption

theorem Numeral.digits (h : Numeral cs ds n) : (splitSign cs).2 = ds.map digit := by
  cases h with
  | bare => rw [splitSign_digits]
  | plus => rfl
  | minus => rfl

theorem Numeral.value (h : Numeral cs ds n) : signedValue cs = n := by
  unfold signedValue
  cases h with
  | bare =>
    rw [splitSign_digits, ← digitsValue_map]
    rfl
  | plus =>
    rw [← digitsValue_map]
    rfl
  | minus =>
    rw [← digitsValue_map]
    rfl

theorem isSignedNumeral_iff : isSignedNumeral cs ↔ ∃ ds n, Numeral cs ds n := by
  unfold isSignedNumeral isNumeral
  rw [Bool.and_eq_true]
  constructor
  · rintro ⟨hne, hall⟩
    obtain ⟨ds, hds⟩ := exists_digits hall
    have hnil : ds ≠ [] := by
      rintro rfl
      rw [← hds] at hne
      cases hne
    unfold splitSign at hds
    split at hds
    · subst hds
      exact ⟨ds, _, .minus hnil⟩
    · subst hds
      exact ⟨ds, _, .plus hnil⟩
    · subst hds
      exact ⟨ds, _, .bare hnil⟩
  · rintro ⟨ds, n, h⟩
    rw [h.digits]
    refine ⟨?_, ?_⟩
    · cases ds with
      | nil => exact absurd rfl h.ne_nil
      | cons => rfl
    · rw [List.all_eq_true]
      intro c hc
      obtain ⟨d, -, rfl⟩ := List.mem_map.mp hc
      exact isDigit_digit d

end Text

/-! Cells. -/

/-- What holds a value that can be assigned: a place under a key, or a frame as its result. -/
inductive Cell where
  | named (o : Owner) (k : Key)
  | result (id : FrameId)
  deriving DecidableEq

namespace Store

variable {s s' : Store} {name : String} {c : Cell} {v : Value}

def content? (s : Store) : Cell → Option Value
  | .named o k => s.held? o k
  | .result id => some (s.frame id).result

/-- The cell that an assignment to a name is to: the result of the function that runs, if the name
is its own, and otherwise the first place in which the name is looked for that holds it. -/
def target? (s : Store) (name : String) : Option Cell :=
  let id := s.innermost.frame
  let k := Key.of name
  if (s.frame id).own? = some k then some (.result id)
  else (s.scopes.find? fun o => (s.held? o k).isSome).map (.named · k)

/-- `s'` is `s` but for the cell `c`, which holds `v`; a frame takes note of being given a
result. -/
structure Assigned (s : Store) (c : Cell) (v : Value) (s' : Store) : Prop where
  content : s'.content? c = some v
  others : ∀ c', c' ≠ c → s'.content? c' = s.content? c'
  returned : ∀ id, (s'.frame id).returned = (decide (c = .result id) || (s.frame id).returned)
  rewrites : s.Rewrites s'

theorem assigned_recordResult {id : FrameId} (h : id < s.frames.size) (v : Value) :
    s.Assigned (.result id) v (s.updateFrame id (·.recordResult v)) := by
  have hframe := s.frame_updateFrame id
  refine ⟨?_, ?_, ?_, Rewrites.updateFrame (Frame.outline_recordResult _ v)⟩
  · unfold content?
    dsimp only
    rw [hframe, if_pos ⟨rfl, h⟩]
    rfl
  · intro c' hc
    cases c' with
    | named o k =>
      cases o with
      | object => rfl
      | frame i =>
        unfold content? held?
        dsimp only
        rw [hframe]
        split <;> rfl
    | result i =>
      unfold content?
      dsimp only
      rw [hframe, if_neg]
      rintro ⟨rfl, -⟩
      exact hc rfl
  · intro i
    rw [hframe]
    by_cases hi : id = i
    · subst hi
      simp [h, Frame.recordResult]
    · simp [hi]

theorem assigned_put {o : Owner} {u : Value} (h : s.held? o (Key.of name) = some u) (v : Value) :
    s.Assigned (.named o (Key.of name)) v (s.put o name v) := by
  obtain ⟨hrewrites, hheld, hresult, hreturned⟩ := differsAt_put h v
  refine ⟨held?_put_self h v, ?_, ?_, hrewrites⟩
  · intro c' hc
    cases c' with
    | named o' k =>
      apply hheld
      intro heq
      obtain ⟨rfl, rfl⟩ := Prod.mk.inj heq
      exact hc rfl
    | result i => exact congrArg some (hresult i)
  · intro i
    rw [hreturned]
    rfl

/-- A function's own frame is there. -/
theorem lt_of_own? {id : FrameId} {k : Key} (h : (s.frame id).own? = some k) :
    id < s.frames.size := by
  by_contra hge
  unfold frame at h
  rw [Array.getD_eq_getD_getElem?, Array.getElem?_eq_none (Nat.le_of_not_lt hge)] at h
  cases h

theorem assignName_of_target? (h : s.target? name = some c) (v : Value) :
    ∃ s', s.assignName name v = .ok s' ∧ s.Assigned c v s' := by
  unfold target? at h
  dsimp only at h
  split at h
  · next hown =>
    cases h
    exact ⟨_, assignName_of_own hown v, assigned_recordResult (lt_of_own? hown) v⟩
  · next hown =>
    obtain ⟨o, ho, rfl⟩ := Option.map_eq_some_iff.mp h
    rw [← owner?_eq] at ho
    obtain ⟨u, hu⟩ := held_of_owner? ho
    have hassign : s.assignName name v = s.assign name v :=
      if_neg fun hresult => hown (Frame.isResult_iff.mp hresult)
    exact ⟨s.put o name v, hassign.trans (assign_of_owner? ho v), assigned_put hu v⟩

theorem assignName_of_target?_none (h : s.target? name = none) (v : Value) :
    s.assignName name v = .error (.undeclaredTarget name) := by
  unfold target? at h
  dsimp only at h
  split at h
  · cases h
  · next hown =>
    rw [Option.map_eq_none_iff, ← owner?_eq] at h
    have hassign : s.assignName name v = s.assign name v :=
      if_neg fun hresult => hown (Frame.isResult_iff.mp hresult)
    exact hassign.trans (assign_of_owner?_none h v)

end Store

/-! Reading. -/

/-- How reading into a name ends. The word that is read leaves the input; beyond that, a number in
range changes the cell that the name stands for and the transcript, and every other word changes
nothing. A number of more digits than can be converted stops the machine. -/
inductive Machine.Reading (m : Machine) (name : String) (location : Location) :
    Except Raised Unit × Machine → Prop
  | stored {input : Input} {word : String} {ds : List (Fin 10)} {n : Int} {c : Cell} {store : Store}
      (hword : m.input.nextWord = (.ok (some word), input))
      (hn : Text.Numeral word.toList ds n) (hlength : ds.length ≤ Text.maxDigits)
      (hrange : Word.InRange n) (hc : m.store.target? name = some c)
      (hstore : m.store.Assigned c (.int n) store) :
      m.Reading name location
        (.ok (), { m with input, store, transcript := m.transcript.push (.readln word) })
  | undeclared {input : Input} {word : String} {ds : List (Fin 10)} {n : Int}
      (hword : m.input.nextWord = (.ok (some word), input))
      (hn : Text.Numeral word.toList ds n) (hlength : ds.length ≤ Text.maxDigits)
      (hrange : Word.InRange n) (hc : m.store.target? name = none) :
      m.Reading name location
        (.error (.fault none (.undeclaredTarget name)),
          { m with input, transcript := m.transcript.push (.readln word) })
  | invalid {input : Input} {word : String}
      (hword : m.input.nextWord = (.ok (some word), input))
      (hn : ∀ ds n, Text.Numeral word.toList ds n →
        ds.length ≤ Text.maxDigits ∧ ¬ Word.InRange n) :
      m.Reading name location
        (.error (.fault (some location) (.invalidInput (some word))), { m with input })
  | overlong {input : Input} {word : String} {ds : List (Fin 10)} {n : Int}
      (hword : m.input.nextWord = (.ok (some word), input))
      (hn : Text.Numeral word.toList ds n) (hlength : Text.maxDigits < ds.length) :
      m.Reading name location
        (.error (.host { cause := .tooManyDigits ds.length }), { m with input })
  | exhausted {input : Input} (hword : m.input.nextWord = (.ok none, input)) :
      m.Reading name location
        (.error (.fault (some location) (.invalidInput none)), { m with input })
  | failed {input : Input} {text : String} (hword : m.input.nextWord = (.error text, input)) :
      m.Reading name location
        (.error (.host { cause := .inputFailed text }), { m with input })

theorem Text.Numeral.count {cs : List Char} {ds : List (Fin 10)} {n : Int}
    (h : Text.Numeral cs ds n) : (Text.splitSign cs).2.length = ds.length := by
  rw [h.digits, List.length_map]

section

variable {host : Host} {m : Machine} {name : String} {location : Location}

theorem run_nextWord {r : Except String (Option String)} {input : Input}
    (h : m.input.nextWord = (r, input)) :
    (perform .nextWord).run host m =
      (r.mapError fun text => .host { cause := .inputFailed text }, { m with input }) := by
  change m.nextWord = _
  unfold Machine.nextWord
  rw [h]
  cases r <;> rfl

theorem run_assign (v : Value) :
    (perform (.assign name v)).run host m = m.update none (m.store.assignName name v) :=
  rfl

/-- What is done with a word. -/
theorem run_readInto {input : Input} {word : String}
    (hword : m.input.nextWord = (.ok (some word), input)) :
    (readInto name location).run host m =
      (if !Text.isSignedNumeral word.toList then
        fault (some location) (.invalidInput (some word))
      else if Text.maxDigits < (Text.splitSign word.toList).2.length then
        Script.fail (.host { cause := .tooManyDigits (Text.splitSign word.toList).2.length })
      else if Word.InRange (Text.signedValue word.toList) then do
        perform (.transcribe (.readln word))
        perform (.assign name (.int (Text.signedValue word.toList)))
      else fault (some location) (.invalidInput (some word))).run host { m with input } := by
  unfold readInto
  rw [run_bind_of_ok (run_nextWord hword)]

theorem run_readInto_overlong {input : Input} {word : String} {ds : List (Fin 10)} {n : Int}
    (hword : m.input.nextWord = (.ok (some word), input)) (hn : Text.Numeral word.toList ds n)
    (hlength : Text.maxDigits < ds.length) :
    (readInto name location).run host m =
      (.error (.host { cause := .tooManyDigits ds.length }), { m with input }) := by
  have hnumeral : Text.isSignedNumeral word.toList := Text.isSignedNumeral_iff.mpr ⟨ds, n, hn⟩
  rw [run_readInto hword, hnumeral, hn.count, if_neg (by decide), if_pos hlength]
  rfl

theorem reading_numeral {input : Input} {word : String} {ds : List (Fin 10)} {n : Int}
    (hword : m.input.nextWord = (.ok (some word), input)) (hn : Text.Numeral word.toList ds n) :
    m.Reading name location ((readInto name location).run host m) := by
  by_cases hlength : Text.maxDigits < ds.length
  · rw [run_readInto_overlong hword hn hlength]
    exact .overlong hword hn hlength
  · have hnumeral : Text.isSignedNumeral word.toList := Text.isSignedNumeral_iff.mpr ⟨ds, n, hn⟩
    have hle := Nat.le_of_not_lt hlength
    rw [run_readInto hword, hnumeral, hn.count, hn.value, if_neg (by decide), if_neg hlength]
    by_cases hrange : Word.InRange n
    · rw [if_pos hrange]
      rw [run_bind_of_ok rfl, run_assign]
      dsimp only
      cases hc : m.store.target? name with
      | none =>
        rw [Store.assignName_of_target?_none hc]
        exact .undeclared hword hn hle hrange hc
      | some c =>
        obtain ⟨store, hassign, hstore⟩ := Store.assignName_of_target? hc (.int n)
        rw [hassign]
        exact .stored hword hn hle hrange hc hstore
    · rw [if_neg hrange]
      refine .invalid hword fun ds' n' hn' => ⟨?_, ?_⟩
      · rwa [← hn'.count, hn.count]
      · rwa [← hn'.value, hn.value]

/-- Whatever comes next in the input, reading ends in one of the ways there are. -/
theorem reading (host : Host) (m : Machine) (name : String) (location : Location) :
    m.Reading name location ((readInto name location).run host m) := by
  rcases hnext : m.input.nextWord with ⟨text | _ | word, input⟩
  · unfold readInto
    rw [run_bind, run_nextWord hnext]
    exact .failed hnext
  · unfold readInto
    rw [run_bind_of_ok (run_nextWord hnext)]
    exact .exhausted hnext
  · by_cases hnumeral : Text.isSignedNumeral word.toList
    · obtain ⟨ds, n, hn⟩ := Text.isSignedNumeral_iff.mp hnumeral
      exact reading_numeral hnext hn
    · rw [run_readInto hnext, if_pos (by simpa using hnumeral)]
      refine .invalid hnext fun ds n hn => ?_
      exact absurd (Text.isSignedNumeral_iff.mpr ⟨ds, n, hn⟩) hnumeral

theorem invokeBuiltin_readln {d : Designator} (hname : Builtin.ofName? name = some .readln)
    (hd : d.selectors = []) (args : List Value) :
    invokeBuiltin name args [.ref d] location = readInto d.base location := by
  unfold invokeBuiltin
  rw [hname]
  dsimp only [readln]
  rw [hd]
  rfl

/-- What is left to do once a word is read: the reading is logged, and handlers are told. -/
def afterReading (name : String) (location : Location) : Script Unit := do
  perform (.log (.builtin .readln []) (some location))
  perform (.emit (.afterCall name "nil" (some location.line)))

theorem run_afterReading (hh : host.hooks = {}) (m : Machine) :
    (afterReading name location).run host m =
      (.ok (), m.record host (.builtin .readln []) (some location)) := by
  have hlog : (perform (.log (.builtin .readln []) (some location))).run host m =
      (.ok (), m.record host (.builtin .readln []) (some location)) :=
    Machine.logStep_of_no_hooks hh _ _ m
  unfold afterReading
  rw [run_bind_of_ok hlog]
  exact Machine.emit_of_no_hooks hh _ _

theorem callProcedure_readln {d : Designator} (hname : Builtin.ofName? name = some .readln)
    (hd : d.selectors = []) (body : List Statement → Script Unit) {m' : Machine}
    (hbefore : m.emit host (.beforeCall name [] (some location.line)) = (.ok (), m')) :
    (callProcedure body location name [.ref d]).run host m =
      (do
        readInto d.base location
        afterReading name location).run host m' := by
  unfold callProcedure
  rw [hname]
  dsimp only [operandValues]
  have hnone : (pure [] : Script (List Value)).run host m = (.ok [], m) := rfl
  have htexts : (renderAll []).run host m = (.ok [], m) := rfl
  have htold : (perform (.emit (.beforeCall name [] (some location.line)))).run host m =
      (.ok (), m') := hbefore
  rw [run_bind_of_ok hnone, run_bind_of_ok htexts, run_bind_of_ok htold,
    invokeBuiltin_readln hname hd]
  rfl

/-- A statement that reads, from where it is logged and handlers are told of it. -/
theorem execute_readln {d : Designator} (hname : Builtin.ofName? name = some .readln)
    (hd : d.selectors = []) (body : List Statement → Script Unit) {m₁ m₂ : Machine}
    (hlog : m.logStep host (.statement .procedureCall) (some location) = (.ok (), m₁))
    (hbefore : m₁.emit host (.beforeCall name [] (some location.line)) = (.ok (), m₂)) :
    (Statement.execute body (.procedureCall location name [.ref d])).run host m =
      match (readInto d.base location).run host m₂ with
      | (.error e, m₃) => (.error (e.locate location), m₃)
      | (.ok (), m₃) =>
        ((afterReading name location).mapError (Raised.locate location)).run host m₃ := by
  have hlogged : (perform (.log (.statement .procedureCall) (some location))).run host m =
      (.ok (), m₁) := hlog
  change (do
    perform (.log (.statement .procedureCall) (some location))
    (callProcedure body location name [.ref d]).mapError (Raised.locate location)).run host m = _
  rw [run_bind_of_ok hlogged, run_mapError, callProcedure_readln hname hd body hbefore, run_bind]
  rcases (readInto d.base location).run host m₂ with ⟨e | _, m₃⟩
  · rfl
  · dsimp only
    rw [run_mapError]

theorem execute_readln_of_no_hooks (hh : host.hooks = {}) {d : Designator}
    (hname : Builtin.ofName? name = some .readln) (hd : d.selectors = [])
    (body : List Statement → Script Unit) (m : Machine) :
    (Statement.execute body (.procedureCall location name [.ref d])).run host m =
      match (readInto d.base location).run host
          (m.record host (.statement .procedureCall) (some location)) with
      | (.error e, m') => (.error (e.locate location), m')
      | (.ok (), m') => (.ok (), m'.record host (.builtin .readln []) (some location)) := by
  have hlog := Machine.logStep_of_no_hooks hh (.statement .procedureCall) (some location) m
  have hbefore := Machine.emit_of_no_hooks hh (.beforeCall name [] (some location.line))
    (m.record host (.statement .procedureCall) (some location))
  rw [execute_readln hname hd body hlog hbefore]
  rcases (readInto d.base location).run host _ with ⟨e | _, m'⟩
  · rfl
  · dsimp only
    rw [run_mapError, run_afterReading hh]
    rfl

end

/-- What a statement does that reads into a name, and how it ends. Carrying it out ends in one of
the ways in which reading into a name can end, whatever handlers there are. The statement is logged
and handlers are told of it before, and if the word is stored, the reading is logged and handlers
are told of it afterwards. Without handlers, that is all. -/
theorem readln_outcome (body : List Statement → Script Unit) (name : String) (d : Designator)
    (location : Location) (hname : Builtin.ofName? name = some .readln) (hd : d.selectors = []) :
    let statement : Statement := .procedureCall location name [.ref d]
    (∀ host (m : Machine), m.Reading d.base location
      ((invokeBuiltin name [] [.ref d] location).run host m)) ∧
    (∀ host m m₁ m₂,
      Machine.logStep host (.statement .procedureCall) (some location) m = (.ok (), m₁) →
      m₁.emit host (.beforeCall name [] (some location.line)) = (.ok (), m₂) →
      ∃ x, m₂.Reading d.base location x ∧
        (statement.execute body).run host m =
          match x with
          | (.error e, m₃) => (.error (e.locate location), m₃)
          | (.ok (), m₃) =>
            ((afterReading name location).mapError (Raised.locate location)).run host m₃) ∧
    ∀ host : Host, host.hooks = {} → ∀ m : Machine,
      ∃ x, (m.record host (.statement .procedureCall) (some location)).Reading d.base location x ∧
        (statement.execute body).run host m =
          match x with
          | (.error e, m') => (.error (e.locate location), m')
          | (.ok (), m') => (.ok (), m'.record host (.builtin .readln []) (some location)) := by
  refine ⟨?_, ?_, ?_⟩
  · intro host m
    rw [invokeBuiltin_readln hname hd]
    exact reading host m d.base location
  · intro host m m₁ m₂ hlog hbefore
    exact ⟨_, reading host m₂ d.base location, execute_readln hname hd body hlog hbefore⟩
  · intro host hh m
    exact ⟨_, reading host _ d.base location, execute_readln_of_no_hooks hh hname hd body m⟩

/-- A machine with a variable, and a word to read. -/
def Machine.awaiting (word : String) : Machine where
  store := Store.declareGlobal {} "x" (.int 7)
  input := { pending := [word] }

/-- `ReadLn(X)` with a sign and zeros in front of the number. -/
theorem readln_outcome_padded :
    let statement : Statement := .procedureCall default "ReadLn" [.ref ⟨default, "X", []⟩]
    let r := (statement.execute (runBody 0)).run {} (.awaiting "-0042")
    r.1 = .ok () ∧ r.2.store.content? (.named (.frame globalFrame) (Key.of "x")) =
      some (.int (-42)) := by
  intro statement r
  obtain ⟨-, -, hplain⟩ := readln_outcome (runBody 0) "ReadLn" ⟨default, "X", []⟩ default
    (by decide +kernel) rfl
  obtain ⟨x, hreading, hrun⟩ := hplain {} rfl (.awaiting "-0042")
  have hr : r = _ := hrun
  have hn : Text.Numeral "-0042".toList [0, 0, 4, 2] (-42) := .minus (List.cons_ne_nil 0 [0, 4, 2])
  have hc : (Machine.awaiting "-0042").store.target? "X" =
      some (.named (.frame globalFrame) (Key.of "x")) := by decide +kernel
  cases hreading with
  | stored hword hn' _ _ hc' hstore =>
    cases hword
    cases hc.symm.trans hc'
    have hvalue := hn'.value
    rw [hn.value] at hvalue
    subst hvalue
    rw [hr]
    exact ⟨rfl, hstore.content⟩
  | undeclared hword _ _ _ hc' => cases hc.symm.trans hc'
  | invalid hword hn' =>
    cases hword
    exact absurd (by decide) (hn' _ _ hn).2
  | overlong hword hn' hlength =>
    cases hword
    rw [← hn'.count, hn.count] at hlength
    exact absurd hlength (by decide)
  | exhausted hword => cases hword
  | failed hword => cases hword

/-- A number of 4301 nines is neither stored nor refused as input that is no number in range. -/
theorem long_word_stops :
    let word := String.ofList (List.replicate 4301 '9')
    let statement : Statement := .procedureCall default "readln" [.ref ⟨default, "x", []⟩]
    let r := (statement.execute (runBody 0)).run {} (.awaiting word)
    r.1 = .error (.host { cause := .tooManyDigits 4301 }) ∧ r.1 ≠ .ok () ∧
      r.1 ≠ .error (.fault (some default) (.invalidInput (some word))) := by
  intro word statement r
  have hn : Text.Numeral word.toList (List.replicate 4301 9)
      (Text.decimal (List.replicate 4301 9)) := by
    have hdigits : word.toList = (List.replicate 4301 (9 : Fin 10)).map Text.digit := by
      rw [List.map_replicate]
      exact String.toList_ofList
    rw [hdigits]
    exact .bare (by rw [List.replicate_succ]; exact nofun)
  have hlong : Text.maxDigits < (List.replicate 4301 (9 : Fin 10)).length := by
    rw [List.length_replicate]
    decide
  have hname : Builtin.ofName? "readln" = some .readln := by decide +kernel
  have hr : r = _ := execute_readln_of_no_hooks rfl hname rfl (runBody 0) (.awaiting word)
  rw [run_readInto_overlong rfl hn hlong, List.length_replicate] at hr
  have hstops : r.1 = .error (.host { cause := .tooManyDigits 4301 }) := congrArg Prod.fst hr
  rw [hstops]
  exact ⟨rfl, nofun, nofun⟩

end ObjectPascal
