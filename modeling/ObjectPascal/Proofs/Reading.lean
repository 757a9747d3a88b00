import ObjectPascal.Proofs.Progress
import ObjectPascal.Store.Graph

/-!
What a run reads. Input is a sequence of words, however these are laid out in lines; a run takes
them one by one from the front, and goes the same way for any further words that it does not ask
for.
-/

namespace ObjectPascal

open Script

/-! Words to come. -/

def Reply.words : Reply → List String
  | .line text => Text.words text
  | _ => []

namespace Input

/-- The words still to come. -/
def words (input : Input) : List String :=
  input.pending ++ input.replies.flatMap Reply.words

/-- Asking for a line brings one until the end of input. -/
def Lined (input : Input) : Prop :=
  ∀ reply ∈ input.replies, ∃ text, reply = .line text

theorem refill_of_lined (asked : Nat) {replies : List Reply}
    (h : ∀ reply ∈ replies, ∃ text, reply = .line text) :
    (refill asked replies).1 = .ok (replies.flatMap Reply.words).head? ∧
      (refill asked replies).2.words = (replies.flatMap Reply.words).tail ∧
      (refill asked replies).2.Lined := by
  induction replies generalizing asked with
  | nil => exact ⟨rfl, rfl, nofun⟩
  | cons reply replies ih =>
    obtain ⟨⟨text, rfl⟩, hrest⟩ := List.forall_mem_cons.mp h
    rw [refill, List.flatMap_cons, Reply.words]
    split
    · next hw =>
      rw [hw]
      exact ih (asked + 1) hrest
    · next word more hw =>
      rw [hw]
      exact ⟨rfl, rfl, hrest⟩

/-- The next word is the first of those to come. -/
theorem nextWord_of_lined {input : Input} (h : input.Lined) :
    input.nextWord.1 = .ok input.words.head? ∧ input.nextWord.2.words = input.words.tail ∧
      input.nextWord.2.Lined := by
  obtain ⟨pending, replies, asked⟩ := input
  cases pending with
  | nil => exact refill_of_lined asked h
  | cons word more => exact ⟨rfl, rfl, h⟩

end Input

theorem Machine.words_fresh (lines : List String) :
    (Machine.fresh lines).input.words = lines.flatMap Text.words := by
  change (lines.map Reply.line).flatMap Reply.words = _
  rw [List.flatMap_map]
  rfl

theorem Machine.lined_fresh (lines : List String) : (Machine.fresh lines).input.Lined := by
  intro reply hreply
  obtain ⟨line, -, rfl⟩ := List.mem_map.mp hreply
  exact ⟨line, rfl⟩

namespace Machine

variable {host : Host} {m : Machine}

def withInput (m : Machine) (input : Input) : Machine :=
  { m with input }

theorem withInput_self (m : Machine) : m.withInput m.input = m :=
  rfl

/-- Whatever is to be read, what reads nothing does the same. -/
theorem perform_withInput (hh : host.hooks = {}) (m : Machine) (input : Input) {a : Action}
    (ha : a ≠ .nextWord) :
    (m.withInput input).perform host a =
      ((m.perform host a).1, (m.perform host a).2.withInput input) := by
  have hupdate : ∀ (location : Option Location) (r : Except Cause Store),
      (m.withInput input).update location r =
        ((m.update location r).1, (m.update location r).2.withInput input) := by
    intro location r
    cases r <;> rfl
  cases a with
  | log step location =>
    change (m.withInput input).logStep host step location =
      ((m.logStep host step location).1, (m.logStep host step location).2.withInput input)
    rw [logStep_of_no_hooks hh, logStep_of_no_hooks hh]
    rfl
  | emit event =>
    change (m.withInput input).emit host event =
      ((m.emit host event).1, (m.emit host event).2.withInput input)
    rw [emit_of_no_hooks hh, emit_of_no_hooks hh]
  | writeField id field v location => exact hupdate _ _
  | assign name v => exact hupdate _ _
  | defineClass decl location => exact hupdate _ _
  | write line =>
    change (m.withInput input).write host line =
      ((m.write host line).1, (m.write host line).2.withInput input)
    have houtput : (m.withInput input).output = m.output := rfl
    unfold write
    rw [houtput]
    cases host.refuse (m.output.size + 1) <;> rfl
  | attachMethod impl =>
    have hstore : (m.withInput input).store = m.store := rfl
    dsimp only [perform]
    rw [hstore]
    cases m.store.attachMethod impl.className impl.method <;> rfl
  | nextWord => exact absurd rfl ha
  | _ => rfl

theorem perform_input (hh : host.hooks = {}) {a : Action} (ha : a ≠ .nextWord) :
    (m.perform host a).2.input = m.input := by
  have h := perform_withInput hh m m.input ha
  rw [withInput_self] at h
  exact congrArg (fun r => r.2.input) h

/-- Reading goes by the words to come alone. -/
theorem nextWord_of_lined (h : m.input.Lined) :
    m.nextWord.1 = .ok m.input.words.head? ∧
      ∃ input, m.nextWord.2 = m.withInput input ∧ input.words = m.input.words.tail ∧
        input.Lined := by
  obtain ⟨hword, hwords, hlined⟩ := Input.nextWord_of_lined h
  unfold nextWord
  rcases hn : m.input.nextWord with ⟨r, input⟩
  rw [hn] at hword hwords hlined
  subst hword
  exact ⟨rfl, input, rfl, hwords, hlined⟩

end Machine

/-! Words read. -/

/-- The word that an action takes from the input. -/
def wordRead? : Machine × Action → Option String
  | (m, .nextWord) =>
    match m.nextWord.1 with
    | .ok word => word
    | .error _ => none
  | _ => none

def asksWord : Machine × Action → Bool
  | (_, .nextWord) => true
  | _ => false

namespace Script

variable {α β : Type} {host : Host}

/-- The words that a run reads, in order. -/
def wordsRead (host : Host) (x : Script α) (m : Machine) : List String :=
  (x.moments host m).filterMap wordRead?

/-- How often a run asks for a word. -/
def asked (host : Host) (x : Script α) (m : Machine) : Nat :=
  (x.moments host m).countP asksWord

section

variable {x : Script α} {f : α → Script β} {m m' : Machine} {a : α} {e : Raised}

theorem wordsRead_bind_of_ok (hr : x.run host m = (.ok a, m')) :
    (x >>= f).wordsRead host m = x.wordsRead host m ++ (f a).wordsRead host m' := by
  unfold wordsRead
  rw [moments_bind, hr, List.filterMap_append]

theorem wordsRead_bind_of_error (hr : x.run host m = (.error e, m')) :
    (x >>= f).wordsRead host m = x.wordsRead host m := by
  unfold wordsRead
  rw [moments_bind, hr, List.append_nil]

theorem asked_bind_of_ok (hr : x.run host m = (.ok a, m')) :
    (x >>= f).asked host m = x.asked host m + (f a).asked host m' := by
  unfold asked
  rw [moments_bind, hr, List.countP_append]

theorem asked_bind_of_error (hr : x.run host m = (.error e, m')) :
    (x >>= f).asked host m = x.asked host m := by
  unfold asked
  rw [moments_bind, hr, List.append_nil]

end

/-- A run reads the first words to come, as many as it asks for, and leaves the rest. -/
structure ReadsInOrder (host : Host) (x : Script α) (m : Machine) : Prop where
  read : x.wordsRead host m = m.input.words.take (x.asked host m)
  left : (x.run host m).2.input.words = m.input.words.drop (x.asked host m)
  lined : (x.run host m).2.input.Lined

theorem readsInOrder_perform (hh : host.hooks = {}) (a : Action) {m : Machine}
    (hm : m.input.Lined) : (perform a).ReadsInOrder host m := by
  by_cases ha : a = .nextWord
  · subst ha
    obtain ⟨hword, input, hnext, hwords, hlined⟩ := Machine.nextWord_of_lined hm
    have hrun : ((perform .nextWord).run host m).2 = m.withInput input := hnext
    refine ⟨?_, ?_, ?_⟩
    · have hbrought : wordRead? (m, .nextWord) = m.input.words.head? := by
        change (match m.nextWord.1 with | .ok word => word | .error _ => none) = _
        rw [hword]
      change [(m, Action.nextWord)].filterMap wordRead? = m.input.words.take 1
      rw [List.filterMap_cons, hbrought]
      cases m.input.words <;> rfl
    · rw [hrun]
      exact hwords.trans List.drop_one.symm
    · rw [hrun]
      exact hlined
  · have hread : wordRead? (m, a) = none := by
      cases a <;> first | rfl | exact absurd rfl ha
    have hasked : asksWord (m, a) = false := by
      cases a <;> first | rfl | exact absurd rfl ha
    have hcount : (perform a).asked host m = 0 := by
      unfold asked
      rw [moments_perform, List.countP_singleton, hasked]
      rfl
    have hinput : ((perform a).run host m).2.input = m.input := Machine.perform_input hh ha
    refine ⟨?_, ?_, ?_⟩
    · rw [hcount]
      unfold wordsRead
      rw [moments_perform, List.filterMap_cons, hread]
      rfl
    · rw [hcount, hinput]
      rfl
    · rw [hinput]
      exact hm

theorem ReadsInOrder.bind {x : Script α} {f : α → Script β} {m : Machine}
    (hx : x.ReadsInOrder host m)
    (hf : ∀ a m', x.run host m = (.ok a, m') → m'.input.Lined → (f a).ReadsInOrder host m') :
    (x >>= f).ReadsInOrder host m := by
  obtain ⟨hread, hleft, hlined⟩ := hx
  obtain ⟨a, m', hr, hb⟩ | ⟨e, m', hr, hb⟩ := run_bind_cases host x f m
  all_goals rw [hr] at hleft hlined
  · obtain ⟨hread', hleft', hlined'⟩ := hf a m' hr hlined
    rw [hleft] at hread' hleft'
    refine ⟨?_, ?_, ?_⟩
    · rw [wordsRead_bind_of_ok hr, asked_bind_of_ok hr, hread, hread', List.take_add]
    · rw [hb, hleft', asked_bind_of_ok hr, List.drop_drop]
    · rw [hb]
      exact hlined'
  · refine ⟨?_, ?_, ?_⟩
    · rw [wordsRead_bind_of_error hr, asked_bind_of_error hr, hread]
    · rw [hb, asked_bind_of_error hr]
      exact hleft
    · rw [hb]
      exact hlined

/-- By induction on the script: every action takes the first word to come or none. -/
theorem readsInOrder (hh : host.hooks = {}) (x : Script α) {m : Machine} (hm : m.input.Lined) :
    x.ReadsInOrder host m := by
  induction x generalizing m with
  | done a => exact ⟨rfl, rfl, hm⟩
  | fail e => exact ⟨rfl, rfl, hm⟩
  | perform a => exact readsInOrder_perform hh a hm
  | andThen x f ihx ihf => exact (ihx hm).bind fun a m' _ hm' => ihf a hm'
  | attempt x ih =>
    obtain ⟨hread, hleft, hlined⟩ := ih hm
    exact ⟨hread, hleft, hlined⟩

end Script

/-! Two inputs. -/

/-- Two machines with lines to read that are the same but for these, and have the same first `n`
words to come. -/
structure Machine.LayoutAlike (n : Nat) (m m' : Machine) : Prop where
  same : m' = m.withInput m'.input
  lined : m.input.Lined
  lined' : m'.input.Lined
  words : m'.input.words.take n = m.input.words.take n

/-- Scripts that go the same way on two machines, and leave as much alike as they find beyond what
they ask for. -/
structure Script.GoesAlike {α : Type} (host : Host) (x : Script α) (k : Nat) (m m' : Machine) :
    Prop where
  result : (x.run host m').1 = (x.run host m).1
  final : Machine.LayoutAlike k (x.run host m).2 (x.run host m').2
  read : x.wordsRead host m' = x.wordsRead host m

namespace Script

variable {α β : Type} {host : Host} {k : Nat} {m m' : Machine}

theorem goesAlike_perform (hh : host.hooks = {}) (a : Action)
    (h : Machine.LayoutAlike ((perform a).asked host m + k) m m') :
    (perform a).GoesAlike host k m m' := by
  obtain ⟨hsame, hlined, hlined', hwords⟩ := h
  by_cases ha : a = .nextWord
  · subst ha
    obtain ⟨hword, input, hnext, htail, hrest⟩ := Machine.nextWord_of_lined hlined
    obtain ⟨hword', input', hnext', htail', hrest'⟩ := Machine.nextWord_of_lined hlined'
    have hcount : (perform .nextWord).asked host m = 1 := rfl
    rw [hcount, Nat.add_comm] at hwords
    have hhead : m'.input.words.head? = m.input.words.head? := by
      have h := congrArg List.head? hwords
      rwa [List.head?_take, List.head?_take] at h
    have htails : m'.input.words.tail.take k = m.input.words.tail.take k := by
      have h := congrArg (List.drop 1) hwords
      rwa [List.drop_take, List.drop_take, Nat.add_sub_cancel, List.drop_one, List.drop_one] at h
    have hrun : (perform .nextWord).run host m = (.ok m.input.words.head?, m.withInput input) :=
      Prod.ext hword hnext
    have hrun' : (perform .nextWord).run host m' =
        (.ok m.input.words.head?, m'.withInput input') := by
      rw [← hhead]
      exact Prod.ext hword' hnext'
    refine ⟨?_, ⟨?_, ?_, ?_, ?_⟩, ?_⟩
    · rw [hrun, hrun']
    · rw [hrun, hrun', hsame]
      rfl
    · rw [hrun]
      exact hrest
    · rw [hrun']
      exact hrest'
    · rw [hrun, hrun']
      change input'.words.take k = input.words.take k
      rw [htail, htail']
      exact htails
    · rw [(readsInOrder_perform hh .nextWord hlined).read,
        (readsInOrder_perform hh .nextWord hlined').read]
      change m'.input.words.take 1 = m.input.words.take 1
      rw [List.take_one, List.take_one, hhead]
  · have hcount : (perform a).asked host m = 0 := by
      cases a <;> first | rfl | exact absurd rfl ha
    rw [hcount, Nat.zero_add] at hwords
    have hperform := Machine.perform_withInput hh m m'.input ha
    rw [← hsame] at hperform
    have hinput := Machine.perform_input (m := m) hh ha
    have hrun : (perform a).run host m' =
        (((perform a).run host m).1, ((perform a).run host m).2.withInput m'.input) := hperform
    have hkept : ((perform a).run host m).2.input = m.input := hinput
    refine ⟨?_, ⟨?_, ?_, ?_, ?_⟩, ?_⟩
    · rw [hrun]
    · rw [hrun]
      rfl
    · rw [hkept]
      exact hlined
    · rw [hrun]
      exact hlined'
    · rw [hrun, hkept]
      exact hwords
    · cases a <;> first | rfl | exact absurd rfl ha

theorem GoesAlike.idle {x : Script α} {r : Except Raised α} (hr : ∀ n, x.run host n = (r, n))
    (hm : ∀ n, x.moments host n = []) (h : Machine.LayoutAlike (x.asked host m + k) m m') :
    x.GoesAlike host k m m' := by
  have hcount : x.asked host m = 0 := by
    unfold asked
    rw [hm]
    rfl
  rw [hcount, Nat.zero_add] at h
  refine ⟨?_, ?_, ?_⟩
  · rw [hr, hr]
  · rw [hr, hr]
    exact h
  · unfold wordsRead
    rw [hm, hm]

theorem GoesAlike.bind {x : Script α} {f : α → Script β}
    (h : Machine.LayoutAlike ((x >>= f).asked host m + k) m m')
    (hx : ∀ k, Machine.LayoutAlike (x.asked host m + k) m m' → x.GoesAlike host k m m')
    (hf : ∀ a k n n', Machine.LayoutAlike ((f a).asked host n + k) n n' →
      (f a).GoesAlike host k n n') :
    (x >>= f).GoesAlike host k m m' := by
  obtain ⟨a, n, hr, hb⟩ | ⟨e, n, hr, hb⟩ := run_bind_cases host x f m
  · rw [asked_bind_of_ok hr, Nat.add_assoc] at h
    obtain ⟨hresult, hfinal, hread⟩ := hx _ h
    rcases hr' : x.run host m' with ⟨r', n'⟩
    rw [hr, hr'] at hresult hfinal
    obtain rfl : r' = .ok a := hresult
    have hb' : (x >>= f).run host m' = (f a).run host n' := run_bind_of_ok hr'
    obtain ⟨hresult', hfinal', hread'⟩ := hf a k n n' hfinal
    refine ⟨?_, ?_, ?_⟩
    · rw [hb, hb', hresult']
    · rw [hb, hb']
      exact hfinal'
    · rw [wordsRead_bind_of_ok hr, wordsRead_bind_of_ok hr', hread, hread']
  · rw [asked_bind_of_error hr] at h
    obtain ⟨hresult, hfinal, hread⟩ := hx _ h
    rcases hr' : x.run host m' with ⟨r', n'⟩
    rw [hr, hr'] at hresult hfinal
    obtain rfl : r' = .error e := hresult
    have hb' : (x >>= f).run host m' = (.error e, n') := by rw [run_bind, hr']
    refine ⟨?_, ?_, ?_⟩
    · rw [hb, hb']
    · rw [hb, hb']
      exact hfinal
    · rw [wordsRead_bind_of_error hr, wordsRead_bind_of_error hr', hread]

/-- By induction on the script: what is asked for first is the same, and leaves the same to be
asked for later. -/
theorem goesAlike (hh : host.hooks = {}) (x : Script α)
    (h : Machine.LayoutAlike (x.asked host m + k) m m') : x.GoesAlike host k m m' := by
  induction x generalizing m m' k with
  | done a => exact .idle (fun _ => rfl) (fun _ => rfl) h
  | fail e => exact .idle (fun _ => rfl) (fun _ => rfl) h
  | perform a => exact goesAlike_perform hh a h
  | andThen x f ihx ihf => exact .bind h (fun _ => ihx) fun a _ _ _ => ihf a
  | attempt x ih =>
    obtain ⟨hresult, hfinal, hread⟩ := ih h
    exact ⟨congrArg Except.ok hresult, hfinal, hread⟩

end Script

/-- Lines with the same words are alike, however many words are asked for. -/
theorem Machine.layoutAlike_fresh {lines lines' : List String}
    (h : lines.flatMap Text.words = lines'.flatMap Text.words) (n : Nat) :
    Machine.LayoutAlike n (.fresh lines) (.fresh lines') := by
  refine ⟨rfl, lined_fresh lines, lined_fresh lines', ?_⟩
  rw [words_fresh, words_fresh, h]

/-- A text without handlers on two inputs that have the same words, laid out in lines in two ways:
both runs end alike and leave the same. A run reads the words in their order, from the first one on,
as many as it asks for as long as there are any, and what it does not read is left. -/
theorem layout_immaterial (verbose : Bool) (refuse : Nat → Option String) (file text : String)
    (lines lines' : List String) (h : lines.flatMap Text.words = lines'.flatMap Text.words) :
    let host : Host := { verbose, refuse }
    let one := runText host file text (.fresh lines)
    let other := runText host file text (.fresh lines')
    (other.1 = one.1 ∧
      other.2.output = one.2.output ∧
      other.2.transcript = one.2.transcript ∧
      other.2.log = one.2.log ∧
      other.2.store = one.2.store ∧
      other.2.store.graph = one.2.store.graph) ∧
    ∀ p, Program.ofText file text = .ok p →
      let x := p.execute depthLimit
      x.wordsRead host (.fresh lines') = x.wordsRead host (.fresh lines) ∧
      x.wordsRead host (.fresh lines) ++ one.2.input.words = lines.flatMap Text.words ∧
      x.wordsRead host (.fresh lines') ++ other.2.input.words = lines'.flatMap Text.words ∧
      (x.wordsRead host (.fresh lines)).length =
        min (x.asked host (.fresh lines)) (lines.flatMap Text.words).length ∧
      (x.wordsRead host (.fresh lines')).length =
        min (x.asked host (.fresh lines')) (lines'.flatMap Text.words).length := by
  intro host one other
  cases hp : Program.ofText file text with
  | error e =>
    have hone : one = (.error (.source e), .fresh lines) := runText_of_sourceError hp _ _
    have hother : other = (.error (.source e), .fresh lines') := runText_of_sourceError hp _ _
    rw [hone, hother]
    exact ⟨⟨rfl, rfl, rfl, rfl, rfl, rfl⟩, nofun⟩
  | ok p =>
    let x := p.execute depthLimit
    have hhooks : host.hooks = {} := rfl
    have hone : one = ((x.run host (.fresh lines)).1.mapError .raised,
        (x.run host (.fresh lines)).2) := runText_of_program hp _ _
    have hother : other = ((x.run host (.fresh lines')).1.mapError .raised,
        (x.run host (.fresh lines')).2) := runText_of_program hp _ _
    have halike : Machine.LayoutAlike (x.asked host (.fresh lines) + 0) (.fresh lines)
        (.fresh lines') := Machine.layoutAlike_fresh h _
    obtain ⟨hresult, ⟨hsame, -, -, -⟩, hread⟩ := goesAlike hhooks x halike
    have horder (lines : List String) := readsInOrder hhooks x (Machine.lined_fresh lines)
    have hwords (lines : List String) : x.wordsRead host (.fresh lines) ++
        (x.run host (.fresh lines)).2.input.words = lines.flatMap Text.words := by
      rw [(horder lines).read, (horder lines).left, List.take_append_drop, Machine.words_fresh]
    have hlength (lines : List String) : (x.wordsRead host (.fresh lines)).length =
        min (x.asked host (.fresh lines)) (lines.flatMap Text.words).length := by
      rw [(horder lines).read, List.length_take, Machine.words_fresh]
    rw [hone, hother]
    refine ⟨⟨?_, ?_, ?_, ?_, ?_, ?_⟩, ?_⟩
    · rw [hresult]
    · rw [hsame]
      rfl
    · rw [hsame]
      rfl
    · rw [hsame]
      rfl
    · rw [hsame]
      rfl
    · rw [hsame]
      rfl
    · intro p' hp'
      cases hp'
      exact ⟨hread, hwords lines, hwords lines', hlength lines, hlength lines'⟩

/-- A program that reads one word in its main block and the next one in a method. -/
def differenceText : String :=
  "type T = class constructor Create(); function Next(): Integer; end;" ++
  "constructor T.Create(); begin end;" ++
  "function T.Next(): Integer; begin readln(Next) end;" ++
  "var t: T; n: Integer;" ++
  "begin t := T.Create(); readln(n); writeln(n - t.Next()) end."

theorem layout_immaterial_difference :
    ["5 3"].flatMap Text.words = ["", " 5", "\t", "3 "].flatMap Text.words ∧
      (runText {} "a.pas" differenceText (.fresh ["", " 5", "\t", "3 "])).1 =
        (runText {} "a.pas" differenceText (.fresh ["5 3"])).1 ∧
      (runText {} "a.pas" differenceText (.fresh ["", " 5", "\t", "3 "])).2.output =
        (runText {} "a.pas" differenceText (.fresh ["5 3"])).2.output := by
  have h : ["5 3"].flatMap Text.words = ["", " 5", "\t", "3 "].flatMap Text.words := by
    decide +kernel
  obtain ⟨⟨hresult, houtput, -⟩, -⟩ :=
    layout_immaterial false (fun _ => none) "a.pas" differenceText _ _ h
  exact ⟨h, hresult, houtput⟩

end ObjectPascal
