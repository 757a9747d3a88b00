import ObjectPascal.Text.Hex

/-!
JSON documents with members in the order given, printed over several lines in ASCII.
-/

namespace ObjectPascal.Text

inductive Json where
  | null
  | number (n : Int)
  | string (s : String)
  | array (items : List Json)
  | object (members : List (String × Json))

namespace Json

/-- Four hexadecimal digits after a backslash and a `u`. -/
def unitEscape (n : Nat) : List Char :=
  '\\' :: 'u' :: hexPadded 4 n

/-- One character inside a string: the short escapes where they exist, and a unit of sixteen bits
(two for a character above them) for every other control or non-ASCII character. -/
def escapeChar (c : Char) : List Char :=
  if c = '"' then ['\\', '"']
  else if c = '\\' then ['\\', '\\']
  else if c = '\n' then ['\\', 'n']
  else if c = '\r' then ['\\', 'r']
  else if c = '\t' then ['\\', 't']
  else if c = '\x08' then ['\\', 'b']
  else if c = '\x0c' then ['\\', 'f']
  else
    let n := c.toNat
    if 0x20 ≤ n && n < 0x7f then [c]
    else if n < 0x10000 then unitEscape n
    else
      let above := n - 0x10000
      unitEscape (0xd800 + above / 0x400) ++ unitEscape (0xdc00 + above % 0x400)

def quote (s : String) : String :=
  String.ofList ('"' :: s.toList.flatMap escapeChar ++ ['"'])

def margin (depth : Nat) : String :=
  String.ofList (List.replicate (2 * depth) ' ')

/-- Items on lines of their own at `depth`, between brackets of which the second stands one level
further left. -/
def framed (opening closing : String) (depth : Nat) (items : List String) : String :=
  if items.isEmpty then opening ++ closing
  else
    opening ++ "\n" ++ String.intercalate ",\n" (items.map (margin (depth + 1) ++ ·)) ++ "\n" ++
      margin depth ++ closing

mutual

def render (depth : Nat) : Json → String
  | .null => "null"
  | .number n => toString n
  | .string s => quote s
  | .array items => framed "[" "]" depth (renderItems (depth + 1) items)
  | .object members => framed "\x7b" "\x7d" depth (renderMembers (depth + 1) members)

def renderItems (depth : Nat) : List Json → List String
  | [] => []
  | j :: js => render depth j :: renderItems depth js

def renderMembers (depth : Nat) : List (String × Json) → List String
  | [] => []
  | (name, j) :: js => (quote name ++ ": " ++ render depth j) :: renderMembers depth js

end

/-- The document with two columns of indentation a level. -/
def print (j : Json) : String :=
  render 0 j

end Json

end ObjectPascal.Text
