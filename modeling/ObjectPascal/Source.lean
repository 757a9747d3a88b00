import ObjectPascal.Text.Blank
import ObjectPascal.Text.Lines

/-!
Program texts and places in them.
-/

namespace ObjectPascal

/-- A place: its line and column, counted from 1, with the text of the line for display. -/
structure Location where
  file : String
  line : Nat
  column : Nat
  statement : String
  deriving DecidableEq, Inhabited

/-- The name of a program text and its lines for display, without the blanks at their ends. -/
structure Source where
  file : String
  lines : List String

namespace Source

/-- The name of a text that comes from no file. -/
def anonymous : String := "<string>"

def ofLines (file : String) (lines : List String) : Source :=
  ⟨file, lines.map Text.strip⟩

def ofText (file text : String) : Source :=
  ofLines file (Text.lines text)

/-- The place at a line and column; a line that the text does not have shows nothing. -/
def place (s : Source) (line column : Nat) : Location where
  file := s.file
  line := line
  column := column
  statement := if line = 0 then "" else s.lines.getD (line - 1) ""

end Source

end ObjectPascal
