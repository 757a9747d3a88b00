import ObjectPascal.Interpreter
import ObjectPascal.Proofs.Completeness
import ObjectPascal.Proofs.Compliance
import ObjectPascal.Proofs.Extension

/-!
Plain programs never end in a fault that only the interpreter could be blamed for.
-/

namespace ObjectPascal

open Script

/-- A word that is a number can be converted to one. -/
def Text.Convertible (word : String) : Prop :=
  Text.isSignedNumeral word.toList → (Text.splitSign word.toList).2.length ≤ Text.maxDigits

/-- The surroundings do not interfere: no handlers, and an output that takes every line. -/
structure Host.Quiet (host : Host) : Prop where
  hooks : host.hooks = {}
  refuse : ∀ n, host.refuse n = none

/-- Numbers are read that can be converted, and nothing fails but the program itself. -/
def Terms.ordinary : Terms where
  words := Text.Convertible
  causes c := c.isProper = true
  outside _ := False
  proper h := h
  digits hword hn hlong := Nat.not_lt.mpr (hword hn) hlong
  internal h := h.elim

abbrev ordinary : Contract :=
  Terms.ordinary.contract

theorem Host.Quiet.suits {host : Host} (hq : host.Quiet) : Terms.ordinary.Suits host where
  handlers := by
    rw [hq.hooks]
    exact .empty
  faults h := absurd hq.hooks h
  output n text h := by
    rw [hq.refuse n] at h
    cases h

/-- In quiet surroundings, every machine keeps to the ordinary contract while it is well formed. -/
theorem ordinary_holds {host : Host} (hq : host.Quiet) :
    ordinary.Holds host (Machine.Wellformed .ordinary) :=
  Terms.holds hq.suits

theorem Ordinary.programExecute (depth : Nat) {p : Program} (h : p.Plain) :
    Obeys ordinary (p.execute depth) fun _ => True :=
  Complies.programExecute depth h

/-! Texts. -/

/-- A token list that is the outcome of scanning has an end marker. -/
theorem Scan.tokensFrom_end (p : Position) (cs : List Char) {ts : List Token}
    (h : Scan.tokensFrom p cs = .ok ts) : ¬ Parser.NoEnd ts := by
  cases cs with
  | nil =>
    rw [Scan.tokensFrom] at h
    cases h
    exact fun hn => hn _ List.mem_cons_self rfl
  | cons c rest =>
    rw [Scan.tokensFrom] at h
    split at h
    · cases h
    · next kind tail _ =>
      split at h
      · cases h
      · next tokens hr =>
        have ih := Scan.tokensFrom_end _ _ hr
        cases kind with
        | none =>
          cases h
          exact ih
        | some kind =>
          cases h
          exact fun hn => ih fun t ht => hn t (List.mem_cons_of_mem _ ht)
termination_by cs.length

/-- An error in the text itself: a piece that is no token, or a token out of place. -/
def SourceError.IsSyntax : SourceError → Prop
  | .scan .. => True
  | .parse e => e ≠ .pastEnd ∧ (∀ n, e ≠ .tooManyDigits n) ∧ ∀ text, e ≠ .notANumeral text

/-- Tokens that are written as they should be give no cause to complain of a numeral that is
none. -/
theorem Parser.Justified.ne_notANumeral {ts : List Token} {e : ParseError} (h : Justified ts e)
    (hs : ∀ t ∈ ts, t.Spelt) (text : String) : e ≠ .notANumeral text := by
  intro he
  obtain ⟨t, ht, hk, hnot⟩ := h.notANumeral text he
  have hspells : Scan.Spells t.text.toList t.kind := hs t ht (by rw [hk]; decide)
  rw [hk] at hspells
  exact hnot hspells.isNumeral

theorem Program.ofText_error {file text : String} {e : SourceError}
    (hn : ∀ ts, scan text = .ok ts → Parser.ShortNumerals ts)
    (h : Program.ofText file text = .error e) : e.IsSyntax := by
  unfold Program.ofText at h
  cases hs : scan text with
  | error problem =>
    rw [hs] at h
    cases h
    trivial
  | ok ts =>
    rw [hs] at h
    have hr := Program.ofTokens_sound (Source.ofText file text) ts
    cases hp : Program.ofTokens (Source.ofText file text) ts with
    | ok p =>
      change (Program.ofTokens _ ts).mapError _ = _ at h
      rw [hp] at h
      cases h
    | error error =>
      change (Program.ofTokens _ ts).mapError _ = _ at h
      rw [hp] at h hr
      cases h
      refine ⟨fun he => Scan.tokensFrom_end _ _ hs (hr.pastEnd he), fun n he => ?_, ?_⟩
      · obtain ⟨t, ht, hk, hl, hmax⟩ := hr.tooManyDigits n he
        have hshort := hn ts hs t ht hk
        omega
      · exact hr.ne_notANumeral (spelt_of_scan hs)

/-- The names of the faults that a program can be blamed for. -/
def Cause.properKinds : List String :=
  ["UndefinedVariable", "UndeclaredAssignmentTarget", "UnknownClass", "DuplicateClass",
    "NotAConstructor", "MethodNotImplemented", "UnknownProcedure", "AccessDenied",
    "ArgumentCountMismatch", "TypeMismatch", "DivisionByZero", "NoSelfInContext", "NotAnObject",
    "UnknownField", "MalformedLvalue", "InvalidInput", "InvalidArgument"]

theorem Cause.kind_mem_properKinds {c : Cause} (h : c.isProper = true) :
    c.kind ∈ Cause.properKinds := by
  cases c <;> simp_all [Cause.isProper, Cause.kind, Cause.properKinds]

/-- What the interpreter takes for granted when an action is asked for: a constructor's name has a
method, a method that is called has a body, and a variable that is found has a value. -/
structure Machine.Warrants (m : Machine) (a : Action) : Prop where
  constructor : ∀ id member location, a = .findConstructor id member location →
    (m.store.classOf id).isConstructor member → (m.store.classOf id).constructor?.isSome
  body : ∀ method args location, a = .newFrame method args location → method.implemented = true
  found : ∀ name owner, m.store.owner? name = some owner → (m.store.lookup? name).isSome

/-- Where a name is found, there is a value. -/
theorem Store.lookup?_isSome {s : Store} {name : String} {owner : Owner}
    (h : s.owner? name = some owner) : (s.lookup? name).isSome := by
  have hframe : ∀ id, (s.frame id).has name = true → ((s.frame id).get? name).isSome := by
    intro id hid
    simpa [Frame.get?, Frame.has, Table.contains] using hid
  unfold Store.lookup?
  rw [h]
  unfold Store.owner? at h
  dsimp only at h
  split at h
  · next hin =>
    cases h
    exact hframe _ hin
  · split at h
    · next id hid =>
      cases h
      have hfield := Option.mem_filter_iff.mp hid
      exact hfield.2
    · obtain ⟨id, hid, rfl⟩ := Option.map_eq_some_iff.mp h
      exact hframe id (Store.has_of_frameWith? hid)

theorem Machine.Wellformed.warrants {m : Machine} (hm : m.Wellformed .ordinary) {a : Action}
    (ha : ordinary.allows a) : m.Warrants a := by
  refine ⟨?_, ?_, ?_⟩
  · intro id member location _ hc
    exact (hm.store.classOf id).constructor?_isSome hc
  · rintro method args location rfl
    exact ha.1.implemented
  · intro name owner ho
    exact Store.lookup?_isSome ho

/-- The machine that a program is run on, with lines to read. -/
def Machine.fresh (lines : List String) : Machine :=
  { input := { replies := lines.map .line } }

theorem Machine.fresh_wellformed {lines : List String}
    (h : ∀ line ∈ lines, Every Text.Convertible (Text.words line)) :
    (Machine.fresh lines).Wellformed .ordinary := by
  refine ⟨.initial, nofun, ?_⟩
  intro reply hr
  obtain ⟨line, hl, rfl⟩ := List.mem_map.mp hr
  exact h line hl

/-- How a run may end: well, by a fault that the program can be blamed for, or because calls were
nested too deep. -/
def EndsProperly (r : Except Raised Unit) : Prop :=
  r = .ok () ∨ (∃ e, r = .error (.exhausted e)) ∨
    ∃ e, r = .error (.runtime e) ∧ e.cause.kind ∈ Cause.properKinds

theorem endsProperly_of_accepts {r : Except Raised Unit}
    (h : ordinary.Accepts (fun _ => True) r) : EndsProperly r := by
  cases r with
  | ok => exact .inl rfl
  | error raised =>
    cases raised with
    | runtime e => exact .inr (.inr ⟨e, rfl, Cause.kind_mem_properKinds h⟩)
    | host => exact h.elim
    | exhausted e => exact .inr (.inl ⟨e, rfl⟩)

/-- Any text on any input, run in quiet surroundings: the text is refused for its syntax, or the
run ends properly, and the interpreter takes nothing for granted that is not so. -/
theorem no_internal_faults (host : Host) (hq : host.Quiet) (file text : String)
    (lines : List String) (hn : ∀ ts, scan text = .ok ts → Parser.ShortNumerals ts)
    (hl : ∀ line ∈ lines, Every Text.Convertible (Text.words line)) :
    ((∃ e, runText host file text (.fresh lines) = (.error (.source e), .fresh lines) ∧
        e.IsSyntax) ∨
      ∃ r, (runText host file text (.fresh lines)).1 = r.mapError .raised ∧ EndsProperly r) ∧
    ∀ p depth, Program.ofText file text = .ok p →
      EndsProperly ((p.execute depth).run host (.fresh lines)).1 ∧
      ∀ x ∈ (p.execute depth).moments host (.fresh lines), x.1.Warrants x.2 := by
  have hm := Machine.fresh_wellformed hl
  have hC := ordinary_holds hq
  have hrun : ∀ p depth, Program.ofText file text = .ok p →
      EndsProperly ((p.execute depth).run host (.fresh lines)).1 := by
    intro p depth hp
    have hx := Ordinary.programExecute depth (Program.plain_of_ofText hp)
    exact endsProperly_of_accepts (hx.run hC hm).1
  refine ⟨?_, fun p depth hp => ⟨hrun p depth hp, ?_⟩⟩
  · unfold runText
    cases hp : Program.ofText file text with
    | error e => exact .inl ⟨e, rfl, Program.ofText_error hn hp⟩
    | ok p => exact .inr ⟨_, rfl, hrun p depthLimit hp⟩
  · intro x hx
    have ho := Ordinary.programExecute depth (Program.plain_of_ofText hp)
    obtain ⟨hw, ha⟩ := ho.moments hC hm x hx
    exact hw.warrants ha

/-- Reading into a variable that is not declared. -/
theorem no_internal_faults_readln :
    (∃ e, runText {} "a.pas" "begin readln(x) end." (.fresh ["7"]) =
        (.error (.source e), .fresh ["7"]) ∧ e.IsSyntax) ∨
      ∃ r, (runText {} "a.pas" "begin readln(x) end." (.fresh ["7"])).1 = r.mapError .raised ∧
        EndsProperly r := by
  have hscan : (scan "begin readln(x) end.").toOption = some [⟨.beginKw, "begin", ⟨1, 1⟩⟩,
      ⟨.ident, "readln", ⟨1, 7⟩⟩, ⟨.lparen, "(", ⟨1, 13⟩⟩, ⟨.ident, "x", ⟨1, 14⟩⟩,
      ⟨.rparen, ")", ⟨1, 15⟩⟩, ⟨.endKw, "end", ⟨1, 17⟩⟩, ⟨.dot, ".", ⟨1, 20⟩⟩,
      ⟨.eof, "", ⟨1, 21⟩⟩] := by
    decide +kernel
  have hn : ∀ ts, scan "begin readln(x) end." = .ok ts → Parser.ShortNumerals ts := by
    intro ts h
    rw [h] at hscan
    cases hscan
    unfold Parser.ShortNumerals
    decide
  have hwords : Text.words "7" = ["7"] := by decide +kernel
  have hl : ∀ line ∈ ["7"], Every Text.Convertible (Text.words line) := by
    intro line h
    rw [List.mem_singleton.mp h, hwords]
    intro word hword
    rw [List.mem_singleton.mp hword]
    intro _
    decide
  exact (no_internal_faults {} ⟨rfl, fun _ => rfl⟩ "a.pas" "begin readln(x) end." ["7"] hn hl).1

end ObjectPascal
