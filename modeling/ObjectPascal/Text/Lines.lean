/-!
Two ways to end a line. A program's lines for display end at any line boundary of Unicode; text
read from a file has its line ends made uniform first.
-/

namespace ObjectPascal.Text

def isLineBreak (c : Char) : Bool :=
  let n := c.toNat
  (0x0a ≤ n && n ≤ 0x0d) || (0x1c ≤ n && n ≤ 0x1e) || n == 0x85 || n == 0x2028 || n == 0x2029

/-- `linesFrom cur cs` cuts `cs` into lines, where `cur` is the line being read, backwards.
A carriage return and the line feed after it are one break. -/
def linesFrom (cur : List Char) : List Char → List String
  | [] => if cur.isEmpty then [] else [String.ofList cur.reverse]
  | '\r' :: '\n' :: cs => String.ofList cur.reverse :: linesFrom [] cs
  | c :: cs =>
    if isLineBreak c then String.ofList cur.reverse :: linesFrom [] cs
    else linesFrom (c :: cur) cs

/-- The lines of a text; a break at the very end opens no further line. -/
def lines (s : String) : List String :=
  linesFrom [] s.toList

/-- Every carriage return, alone or before a line feed, becomes a line feed. -/
def uniformNewlines : List Char → List Char
  | [] => []
  | '\r' :: '\n' :: cs => '\n' :: uniformNewlines cs
  | c :: cs => (if c = '\r' then '\n' else c) :: uniformNewlines cs

/-- The records of a stream: each ends at a line feed, the last one also at the end of text. -/
def feedLinesFrom (cur : List Char) : List Char → List String
  | [] => if cur.isEmpty then [] else [String.ofList cur.reverse]
  | c :: cs =>
    if c = '\n' then String.ofList cur.reverse :: feedLinesFrom [] cs
    else feedLinesFrom (c :: cur) cs

def feedLines (s : String) : List String :=
  feedLinesFrom [] s.toList

end ObjectPascal.Text
