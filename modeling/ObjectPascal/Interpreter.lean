import ObjectPascal.Execution
import ObjectPascal.Program.Parser
import ObjectPascal.Token.Scan
import ObjectPascal.Text.Path

/-!
From program text to outcome.
-/

namespace ObjectPascal

/-- Why a text is no program. -/
inductive SourceError where
  | scan (file : String) (error : ScanError)
  | parse (error : ParseError)
  deriving DecidableEq

def SourceError.message : SourceError → String
  | .scan file e => e.message file
  | .parse e => e.message

/-- The program that a text is. -/
def Program.ofText (file text : String) : Except SourceError Program := do
  let tokens ← (scan text).mapError (.scan file)
  (Program.ofTokens (Source.ofText file text) tokens).mapError .parse

/-- A text whose tokens are known. -/
theorem Program.ofText_of_scan {text : String} {ts : List Token}
    (hs : (scan text).toOption = some ts) (file : String) :
    Program.ofText file text =
      (Program.ofTokens (Source.ofText file text) ts).mapError .parse := by
  unfold Program.ofText
  cases hts : scan text with
  | error e =>
    rw [hts] at hs
    cases hs
  | ok ts' =>
    rw [hts] at hs
    cases hs
    rfl

/-- How a text fails to run to its end. -/
inductive RunError where
  | source (error : SourceError)
  | raised (raised : Raised)
  deriving DecidableEq

/-- How deep calls may nest. -/
def depthLimit : Nat := 1000

/-- The name under which the text of a file is reported: its path from the root. -/
def reportedFile (dir file : String) : String :=
  if file = Source.anonymous then file else Text.Path.absolute dir file

/-- Reads and executes a program text. -/
def runText (host : Host) (file text : String) (m : Machine) : Except RunError Unit × Machine :=
  match Program.ofText file text with
  | .error e => (.error (.source e), m)
  | .ok p =>
    match (p.execute depthLimit).run host m with
    | (r, m) => (r.mapError .raised, m)

theorem runText_of_program {file text : String} {p : Program} (h : Program.ofText file text = .ok p)
    (host : Host) (m : Machine) :
    runText host file text m =
      (((p.execute depthLimit).run host m).1.mapError .raised,
        ((p.execute depthLimit).run host m).2) := by
  rw [runText, h]

theorem runText_of_sourceError {file text : String} {e : SourceError}
    (h : Program.ofText file text = .error e) (host : Host) (m : Machine) :
    runText host file text m = (.error (.source e), m) := by
  rw [runText, h]

end ObjectPascal
