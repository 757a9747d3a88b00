import ObjectPascal.CommandLine
import ObjectPascal.Proofs.Annotation
import ObjectPascal.Proofs.FrontEnd
import ObjectPascal.Proofs.Segmentation

/-!
The status that the command ends with. It is 0 for a program text that is run to its end, and 1,
after a report, for every other text but those with a numeral that is too long to be converted:
such a numeral stops the command without a report.
-/

namespace ObjectPascal

/-! A numeral that is too long. -/

/-- A numeral that is refused in an assignment is where reading gives up. -/
theorem Program.ofTokens_literal (src : Source) {b x a t : Token} (rest : List Token)
    {e : ParseError} (hb : b.kind = .beginKw) (hx : x.kind = .ident) (ha : a.kind = .assign)
    (ht : t.kind = .number) (he : Parser.literal src t = .error e) :
    Program.ofTokens src (b :: x :: a :: t :: rest) = .error e := by
  simp [Program.ofTokens, Parser.peek, Parser.next, Parser.accept, Parser.expect, Parser.title,
    Parser.sections, Parser.block, Parser.statements, Parser.statement, Parser.designator,
    Parser.selectors, Parser.expression, Parser.term, Parser.factor, hb, hx, ha, ht, he, bind,
    Except.bind, pure, Except.pure]

theorem Parser.literal_overlong (src : Source) {t : Token} {n : Nat}
    (hd : Text.isNumeral t.text.toList) (h : t.Overlong n) :
    literal src t = .error (.tooManyDigits n) := by
  obtain ⟨-, hlength, hlong⟩ := h
  unfold literal
  dsimp only
  rw [hd, hlength, if_pos hlong]
  rfl

/-- A program that assigns the number of a numeral. -/
def assigning (digits : List Char) : String :=
  String.ofList ("begin x := ".toList ++ (digits ++ " end.".toList))

open Scan in
/-- The numeral is the fourth token. -/
theorem scan_assigning {c : Char} {ds : List Char} (hc : Text.isDigit c)
    (hds : ∀ d ∈ ds, Text.isDigit d) :
    ∃ b x a t rest, scan (assigning (c :: ds)) = .ok (b :: x :: a :: t :: rest) ∧
      b.kind = .beginKw ∧ x.kind = .ident ∧ a.kind = .assign ∧ t.kind = .number ∧
      t.text = String.ofList (c :: ds) := by
  have hopening : "begin x := ".toList =
      ['b', 'e', 'g', 'i', 'n'] ++ [' ', 'x'] ++ [' ', ':', '=', ' '] := by decide +kernel
  have hclosing : " end.".toList = [' ', 'e', 'n', 'd', '.'] := by decide +kernel
  have hspaced {p : Position} {cs rest : List Char} {kind : TokenKind} {ts : List Token}
      (hs : Spells cs kind) (hr : rest.head?.all (mayPrecede kind))
      (h : Segmented ((p.advanceAll [' ']).advanceAll cs) rest ts) :
      Segmented p (' ' :: (cs ++ rest)) (⟨kind, String.ofList cs, p.advanceAll [' ']⟩ :: ts) :=
    @Segmented.token p [' '] cs rest kind ts (.blank (by decide) .nil) hs hr h
  have hend (p : Position) : ∃ rest, Segmented p [' ', 'e', 'n', 'd', '.'] rest := by
    have hsymbol : Spells ['.'] .dot := .symbol rfl
    have hdot {p : Position} : Segmented p ['.'] _ :=
      @Segmented.token p [] ['.'] [] .dot _ .nil hsymbol rfl (.done .nil)
    have hkeyword : Spells ['e', 'n', 'd'] .endKw :=
      .keyword (by decide) (List.all_eq_true.mp (by decide)) (by decide) (by decide +kernel)
    exact ⟨_, hspaced hkeyword rfl hdot⟩
  have hnumeral (p : Position) : ∃ t rest,
      Segmented p (' ' :: (c :: ds ++ [' ', 'e', 'n', 'd', '.'])) (t :: rest) ∧
        t.kind = .number ∧ t.text = String.ofList (c :: ds) := by
    obtain ⟨rest, hrest⟩ := hend ((p.advanceAll [' ']).advanceAll (c :: ds))
    exact ⟨_, rest, hspaced (.number hc hds) rfl hrest, rfl, rfl⟩
  have hbegin : Spells ['b', 'e', 'g', 'i', 'n'] .beginKw :=
    .keyword (by decide) (List.all_eq_true.mp (by decide)) (by decide) (by decide +kernel)
  have hname : Spells ['x'] .ident := .ident (by decide) (List.forall_mem_nil _) (by decide +kernel)
  obtain ⟨t, rest, hrest, hkind, htext⟩ := hnumeral (Position.mk 1 11)
  have hassign := hspaced (p := Position.mk 1 8) .assign rfl hrest
  have htarget := hspaced (p := Position.mk 1 6) hname rfl hassign
  have hsegmented := @Segmented.token {} [] _ _ .beginKw _ .nil hbegin rfl htarget
  have hread := tokensFrom_complete hsegmented
  unfold scan assigning
  rw [String.toList_ofList, hopening, hclosing]
  exact ⟨_, _, _, t, rest, hread, rfl, rfl, rfl, hkind, htext⟩

theorem ofText_assigning (file : String) {c : Char} {ds : List Char} (hc : Text.isDigit c)
    (hds : ∀ d ∈ ds, Text.isDigit d) (hlong : Text.maxDigits < ds.length + 1) :
    Program.ofText file (assigning (c :: ds)) =
      .error (.parse (.tooManyDigits (ds.length + 1))) := by
  obtain ⟨b, x, a, t, rest, hscan, hb, hx, ha, ht, htext⟩ := scan_assigning hc hds
  have hoverlong : t.Overlong (ds.length + 1) := by
    refine ⟨ht, ?_, hlong⟩
    rw [htext, String.toList_ofList, List.length_cons]
  have hnumeral : Text.isNumeral t.text.toList := by
    rw [htext, String.toList_ofList]
    exact (Scan.Spells.number hc hds).isNumeral
  have hrefused (src : Source) := Parser.literal_overlong src hnumeral hoverlong
  rw [Program.ofText_of_scan (congrArg Except.toOption hscan),
    Program.ofTokens_literal _ rest hb hx ha ht (hrefused _)]
  rfl

namespace CommandLine

/-- The text that is to be run, and the name under which it is reported. -/
inductive Gives (o : Options) (s : Surroundings) : String → String → Prop
  | literal (hs : o.source = true) : Gives o s Source.anonymous o.program
  | file {bytes : List UInt8} {text : String} (hs : o.source = false)
      (hn : '\x00' ∉ o.program.toList) (hr : s.read o.program = .ok bytes)
      (hd : Text.Utf8.decode bytes = .ok text) :
      Gives o s (reportedFile s.directory o.program)
        (String.ofList (Text.uniformNewlines text.toList))

/-- The text is a program that runs to its end. -/
def RunsToEnd (host : Host) (m : Machine) (file text : String) : Prop :=
  ∃ p, Program.ofText file text = .ok p ∧ ((p.execute depthLimit).run host m).1 = .ok ()

/-- What a program text should come to: status 0 if it is run to its end, status 1 and a line about
the text if it is no program, status 1 and a traceback if the program fails. -/
structure Result.Answers (r : Result) (host : Host) (m : Machine) (file text : String) : Prop where
  returns : ∃ code, r.status = .ok code
  done : r.status = .ok 0 ↔ RunsToEnd host m file text
  invalid : ∀ e, Program.ofText file text = .error e →
    r.status = .ok 1 ∧ r.stderr = s!"ParseError: {e.message}\n"
  failed : ∀ p raised, Program.ofText file text = .ok p →
    ((p.execute depthLimit).run host m).1 = .error raised →
    r.status = .ok 1 ∧ ∃ calls frames,
      r.stderr = calls ++ "Traceback (most recent call last):\n" ++ frames

namespace Result.Answers

variable {r : Result} {host : Host} {m : Machine} {file text : String}

theorem of_invalid {e : SourceError} (h : Program.ofText file text = .error e)
    (hstatus : r.status = .ok 1) (hstderr : r.stderr = s!"ParseError: {e.message}\n") :
    r.Answers host m file text := by
  refine ⟨⟨1, hstatus⟩, ⟨?_, ?_⟩, ?_, ?_⟩
  · intro hzero
    cases hzero.symm.trans hstatus
  · rintro ⟨p, hp, -⟩
    cases hp.symm.trans h
  · intro e' he'
    cases he'.symm.trans h
    exact ⟨hstatus, hstderr⟩
  · intro p raised hp _
    cases hp.symm.trans h

variable {p : Program}

theorem of_done (h : Program.ofText file text = .ok p)
    (hrun : ((p.execute depthLimit).run host m).1 = .ok ()) (hstatus : r.status = .ok 0) :
    r.Answers host m file text := by
  refine ⟨⟨0, hstatus⟩, ⟨fun _ => ⟨p, h, hrun⟩, fun _ => hstatus⟩, ?_, ?_⟩
  · intro e he
    cases he.symm.trans h
  · intro p' raised hp hfails
    cases hp.symm.trans h
    cases hfails.symm.trans hrun

theorem of_failed {raised : Raised} (h : Program.ofText file text = .ok p)
    (hrun : ((p.execute depthLimit).run host m).1 = .error raised) (hstatus : r.status = .ok 1)
    (hreport : ∃ calls frames,
      r.stderr = calls ++ "Traceback (most recent call last):\n" ++ frames) :
    r.Answers host m file text := by
  refine ⟨⟨1, hstatus⟩, ⟨?_, ?_⟩, ?_, fun _ _ _ _ => ⟨hstatus, hreport⟩⟩
  · intro hzero
    cases hzero.symm.trans hstatus
  · rintro ⟨p', hp, hend⟩
    cases hp.symm.trans h
    cases hend.symm.trans hrun
  · intro e he
    cases he.symm.trans h

end Result.Answers

section

variable {args : List String} {o : Options} {s : Surroundings} {file text : String}

theorem run_of_gives (ho : parseOptions args = .ok o) (hg : Gives o s file text) :
    run args s = runProgram o s.input file text := by
  unfold run
  rw [ho]
  dsimp only
  cases hg with
  | literal hs => rw [if_pos hs]
  | file hs hn hr hd =>
    have hsource : ¬ o.source = true := by
      rw [hs]
      exact Bool.false_ne_true
    rw [if_neg hsource, if_neg hn, hr]
    dsimp only
    rw [hd]

end

/-! What a program text comes to. -/

section

variable {o : Options} {input : List String} {file text : String}

/-- A numeral that is too long to be converted. -/
theorem runProgram_overlong (o : Options) (input : List String) {n : Nat}
    (h : Program.ofText file text = .error (.parse (.tooManyDigits n))) :
    (runProgram o input file text).status = .error (.tooManyDigits n) ∧
      (runProgram o input file text).stderr = "" := by
  simp only [runProgram, runText_of_sourceError h]
  exact ⟨trivial, rfl⟩

/-- Any other text that is no program. -/
theorem runProgram_invalid {e : SourceError} (h : Program.ofText file text = .error e)
    (he : e.IsSyntax) :
    (runProgram o input file text).status = .ok 1 ∧
      (runProgram o input file text).stderr = s!"ParseError: {e.message}\n" := by
  have hcalls : unlines (CallTrace.lines { input := { replies := input.map .line } }) = "" := rfl
  have hdigits (n : Nat) : e ≠ .parse (.tooManyDigits n) := by
    rintro rfl
    exact he.2.1 n rfl
  have hnumeral (text : String) : e ≠ .parse (.notANumeral text) := by
    rintro rfl
    exact he.2.2 text rfl
  simp only [runProgram, runText_of_sourceError h, hcalls]
  exact ⟨trivial, String.empty_append⟩

variable {p : Program}

theorem runProgram_done (hp : Program.ofText file text = .ok p)
    (hrun : ((p.execute depthLimit).run (hostFor o) (.fresh input)).1 = .ok ()) :
    (runProgram o input file text).status = .ok 0 := by
  have hmachine : Machine.fresh input = { input := { replies := input.map .line } } := rfl
  rw [hmachine] at hrun
  simp only [runProgram, runText_of_program hp, hrun]
  rfl

/-- The lines of a traceback start with its heading. -/
theorem unlines_traceback (m : Machine) (verbose : Bool) (e : RuntimeError) (more : List String) :
    ∃ frames, unlines (m.tracebackText verbose e :: more) =
      "Traceback (most recent call last):\n" ++ frames := by
  have hheading : "Traceback (most recent call last):" ++ "\n" =
      "Traceback (most recent call last):\n" := by decide
  have hrest : (m.traceback e).flatMap (TracebackFrame.lines verbose) ++
      [s!"{e.cause.kind}: {e.cause.message} (rewrite: {e.cause.rule})"] ≠ [] :=
    List.append_ne_nil_of_right_ne_nil _ (List.cons_ne_nil _ _)
  unfold unlines Machine.tracebackText
  rw [List.cons_append, String.intercalate_cons_of_ne_nil hrest, hheading, List.map_cons,
    String.join_cons, String.append_assoc, String.append_assoc]
  exact ⟨_, rfl⟩

theorem runProgram_failed {raised : Raised} (hp : Program.ofText file text = .ok p)
    (hrun : ((p.execute depthLimit).run (hostFor o) (.fresh input)).1 = .error raised) :
    (runProgram o input file text).status = .ok 1 ∧ ∃ calls frames,
      (runProgram o input file text).stderr =
        calls ++ "Traceback (most recent call last):\n" ++ frames := by
  rcases hm : (p.execute depthLimit).run (hostFor o) (.fresh input) with ⟨r, m⟩
  rw [hm] at hrun
  change r = _ at hrun
  subst hrun
  obtain ⟨e, he, -⟩ := Program.execute_error hm
  have hmachine : Machine.fresh input = { input := { replies := input.map .line } } := rfl
  rw [hmachine] at hm
  obtain ⟨frames, hframes⟩ := unlines_traceback m o.verbose e
    (if o.tracebackJson then [m.tracebackJson e] else [])
  simp only [runProgram, runText_of_program hp, hm]
  cases raised with
  | runtime | exhausted =>
    cases he
    refine ⟨rfl, unlines (CallTrace.lines m), frames, ?_⟩
    change _ ++ unlines _ = _
    rw [hframes, String.append_assoc]
  | host => cases he

end

/-- The command answers every program text it is given, but for those that reading gives up at a
numeral that is too long to be converted. There it stops without a status or a report. -/
theorem exit_status_iff {args : List String} {o : Options} {s : Surroundings} {file text : String}
    (ho : parseOptions args = .ok o) (hg : Gives o s file text) :
    ((run args s).Answers (hostFor o) (.fresh s.input) file text ↔
        ∀ n, Program.ofText file text ≠ .error (.parse (.tooManyDigits n))) ∧
      ∀ n, Program.ofText file text = .error (.parse (.tooManyDigits n)) →
        (run args s).status = .error (.tooManyDigits n) ∧ (run args s).stderr = "" ∧
          ∃ ts t, scan text = .ok ts ∧ t ∈ ts ∧ t.Overlong n := by
  rw [run_of_gives ho hg]
  refine ⟨⟨?_, ?_⟩, ?_⟩
  · rintro ⟨⟨code, hcode⟩, -, -, -⟩ n hn
    cases hcode.symm.trans (runProgram_overlong _ _ hn).1
  · intro hshort
    cases hp : Program.ofText file text with
    | error e =>
      have hsyntax : e.IsSyntax := by
        obtain ⟨p, ts, hok, -⟩ | ⟨e', he, hsyntax⟩ | ⟨n, ts, t, he, -⟩ :=
          Program.ofText_outcome file text
        · cases hok.symm.trans hp
        · cases he.symm.trans hp
          exact hsyntax
        · exact absurd he (hshort n)
      obtain ⟨hstatus, hstderr⟩ := runProgram_invalid hp hsyntax
      exact .of_invalid hp hstatus hstderr
    | ok p =>
      cases hrun : ((p.execute depthLimit).run (hostFor o) (.fresh s.input)).1 with
      | ok => exact .of_done hp hrun (runProgram_done hp hrun)
      | error raised =>
        obtain ⟨hstatus, hreport⟩ := runProgram_failed hp hrun
        exact .of_failed hp hrun hstatus hreport
  · intro n hn
    obtain ⟨hstatus, hstderr⟩ := runProgram_overlong o s.input hn
    refine ⟨hstatus, hstderr, ?_⟩
    obtain ⟨p, ts, hok, -⟩ | ⟨e, he, hother⟩ | ⟨n', ts, t, he, hts, ht, hlong⟩ :=
      Program.ofText_outcome file text
    · cases hok.symm.trans hn
    · cases he.symm.trans hn
      exact absurd rfl (hother.2.1 n)
    · cases he.symm.trans hn
      exact ⟨ts, t, hts, ht, hlong⟩

theorem parseOptions_source {text : String} (h : text.toList.head? ≠ some '-') :
    parseOptions ["-source", text] = .ok { program := text, source := true } := by
  have hne : text ≠ "--" := by
    rintro rfl
    exact h rfl
  have hplain : classify text = .ok (.plain text) := by
    unfold classify
    rw [if_pos h]
  have hswitch : classify "-source" = .ok (.switch .source "-source" none) := by decide +kernel
  have hall : classifyAll ["-source", text] =
      .ok [.switch .source "-source" none, .plain text] := by
    simp [classifyAll, hne, hplain, hswitch, bind, Except.bind, pure, Except.pure]
  unfold parseOptions
  rw [hall]
  rfl

/-- A program that writes a quotient. -/
theorem ofText_quotient (file text : String) (k : Token) (n : Nat)
    (hs : (scan text).toOption = some [⟨.beginKw, "begin", ⟨1, 1⟩⟩, ⟨.ident, "writeln", ⟨1, 7⟩⟩,
      ⟨.lparen, "(", ⟨1, 14⟩⟩, ⟨.number, "84", ⟨1, 15⟩⟩, ⟨.slash, "/", ⟨1, 18⟩⟩, k,
      ⟨.rparen, ")", ⟨1, 21⟩⟩, ⟨.endKw, "end", ⟨1, 23⟩⟩, ⟨.dot, ".", ⟨1, 26⟩⟩,
      ⟨.eof, "", ⟨1, 27⟩⟩])
    (hk : k.kind = .number)
    (hn : ∀ src, Parser.literal src k = .ok (.literal (Parser.placeOf src k) n)) :
    let place := (Source.ofText file text).place 1
    Program.ofText file text = .ok ⟨place 1, none, none, none, none, ⟨place 1,
      [.procedureCall (place 7) "writeln" [.binary (place 18) .div (.literal (place 15) 84)
        (.literal (Parser.placeOf (Source.ofText file text) k) n)]]⟩⟩ := by
  intro place
  have hplace (column : Nat) : (Source.ofText file text).place 1 column = place column := rfl
  have hnumeral : Parser.literal (Source.ofText file text) ⟨.number, "84", ⟨1, 15⟩⟩ =
      .ok (.literal (place 15) 84) := rfl
  rw [Program.ofText_of_scan hs]
  simp [Program.ofTokens, Parser.peek, Parser.next, Parser.accept, Parser.expect, Parser.title,
    Parser.sections, Parser.block, Parser.statements, Parser.statement, Parser.designator,
    Parser.selectors, Parser.optionalArguments, Parser.arguments, Parser.expressions,
    Parser.expression, Parser.sums, Parser.term, Parser.products, Parser.factor, Parser.isAdditive,
    Parser.multiplicative?, Parser.placeOf, bind, Except.bind, pure, Except.pure, Except.mapError,
    hk, hn, hnumeral, hplace]

/-- A quotient is written with status 0, and a division by zero reported with status 1. -/
theorem exit_status_iff_quotients :
    let s : Surroundings := ⟨"/", fun _ => .error .missing, []⟩
    let given (text : String) : Options := { program := text, source := true }
    let text := "begin writeln(84 / 2) end."
    let text' := "begin writeln(84 / 0) end."
    let r := run ["-source", text] s
    let r' := run ["-source", text'] s
    r.Answers (hostFor (given text)) (.fresh []) Source.anonymous text ∧ r.status = .ok 0 ∧
      r.stdout = "42\n" ∧
      r'.Answers (hostFor (given text')) (.fresh []) Source.anonymous text' ∧
      r'.status = .ok 1 := by
  intro s given text text' r r'
  have answered {text : String} {p : Program} (hplain : text.toList.head? ≠ some '-')
      (hp : Program.ofText Source.anonymous text = .ok p) :
      (run ["-source", text] s).Answers (hostFor (given text)) (.fresh []) Source.anonymous
        text := by
    refine (exit_status_iff (parseOptions_source hplain) (.literal rfl)).1.mpr ?_
    intro n hn
    cases hn.symm.trans hp
  have hp := ofText_quotient Source.anonymous text ⟨.number, "2", ⟨1, 20⟩⟩ 2 (by decide +kernel) rfl
    fun _ => rfl
  have hp' := ofText_quotient Source.anonymous text' ⟨.number, "0", ⟨1, 20⟩⟩ 0 (by decide +kernel)
    rfl fun _ => rfl
  have hanswer := answered (by decide +kernel) hp
  have hanswer' := answered (by decide +kernel) hp'
  refine ⟨hanswer, hanswer.done.mpr ⟨_, hp, by decide +kernel⟩, ?_, hanswer', ?_⟩
  · have hr : r = runProgram (given text) [] Source.anonymous text :=
      run_of_gives (parseOptions_source (by decide +kernel)) (.literal rfl)
    rw [hr]
    simp only [runProgram, runText_of_program hp]
    decide +kernel
  · let e : RuntimeError := { cause := .divisionByZero, step := some 1, stack := some [0]
                              location := some ((Source.ofText Source.anonymous text').place 1 18) }
    exact (hanswer'.failed _ (.runtime e) hp' (by decide +kernel)).1

/-- A numeral of 4301 digits stops the command without a status or a report. -/
theorem long_numeral_unanswered :
    let text := assigning (List.replicate 4301 '9')
    let o : Options := { program := text, source := true }
    let s : Surroundings := ⟨"/", fun _ => .error .missing, []⟩
    let r := run ["-source", text] s
    parseOptions ["-source", text] = .ok o ∧ Gives o s Source.anonymous text ∧
      r.status = .error (.tooManyDigits 4301) ∧ r.stderr = "" ∧
      ¬ r.Answers (hostFor o) (.fresh []) Source.anonymous text := by
  intro text o s r
  have hplain : text.toList.head? ≠ some '-' := by
    have htext : text.toList =
        "begin x := ".toList ++ (List.replicate 4301 '9' ++ " end.".toList) :=
      String.toList_ofList
    rw [htext]
    exact nofun
  have ho : parseOptions ["-source", text] = .ok o := parseOptions_source hplain
  have hg : Gives o s Source.anonymous text := .literal rfl
  have hread : Program.ofText Source.anonymous text = .error (.parse (.tooManyDigits 4301)) := by
    have hdigits : ∀ d ∈ List.replicate 4300 '9', Text.isDigit d := by
      intro d hd
      rw [List.eq_of_mem_replicate hd]
      decide
    have hlong : Text.maxDigits < (List.replicate 4300 '9').length + 1 := by
      rw [List.length_replicate]
      decide
    have hread := ofText_assigning Source.anonymous (c := '9') (by decide) hdigits hlong
    rw [List.length_replicate] at hread
    exact hread
  obtain ⟨hstatus, hstderr⟩ := runProgram_overlong o s.input hread
  have hr : r = runProgram o s.input Source.anonymous text := run_of_gives ho hg
  rw [hr]
  refine ⟨ho, hg, hstatus, hstderr, ?_⟩
  rintro ⟨⟨code, hcode⟩, -, -, -⟩
  cases hcode.symm.trans hstatus

end CommandLine

end ObjectPascal
