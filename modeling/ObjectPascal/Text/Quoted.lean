import ObjectPascal.Text.Hex
import ObjectPascal.Text.Printable

/-!
Names in quotes, as they are shown in complaints about them.
-/

namespace ObjectPascal.Text

/-- A character between two marks `mark`: those that cannot be shown stand as their number. -/
def quotedChar (mark c : Char) : List Char :=
  if c = mark || c = '\\' then ['\\', c]
  else if c = '\n' then ['\\', 'n']
  else if c = '\r' then ['\\', 'r']
  else if c = '\t' then ['\\', 't']
  else if isPrintable c then [c]
  else if c.toNat < 0x100 then '\\' :: 'x' :: hexPadded 2 c.toNat
  else if c.toNat < 0x10000 then '\\' :: 'u' :: hexPadded 4 c.toNat
  else '\\' :: 'U' :: hexPadded 8 c.toNat

/-- The text in single quotes, or in double ones if it holds single ones only. -/
def quoted (s : String) : String :=
  let cs := s.toList
  let mark := if '\'' ∈ cs && '"' ∉ cs then '"' else '\''
  String.ofList (mark :: cs.flatMap (quotedChar mark) ++ [mark])

end ObjectPascal.Text
