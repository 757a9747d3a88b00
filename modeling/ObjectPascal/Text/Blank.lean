/-!
Blanks, and the two things they are for here: trimming a line and cutting it into words.
-/

namespace ObjectPascal.Text

/-- The characters that separate words: the ASCII blanks, the four information separators, the
next-line control, and the Unicode space, line and paragraph separators. -/
def isBlank (c : Char) : Bool :=
  let n := c.toNat
  (0x09 ≤ n && n ≤ 0x0d) || (0x1c ≤ n && n ≤ 0x20) || n == 0x85 || n == 0xa0 || n == 0x1680 ||
    (0x2000 ≤ n && n ≤ 0x200a) || n == 0x2028 || n == 0x2029 || n == 0x202f || n == 0x205f ||
    n == 0x3000

/-- The text without the blanks at its two ends. -/
def strip (s : String) : String :=
  String.ofList (((s.toList.dropWhile isBlank).reverse.dropWhile isBlank).reverse)

/-- `wordsFrom cur cs` cuts `cs` into words, where `cur` is the word being read, backwards. -/
def wordsFrom (cur : List Char) : List Char → List String
  | [] => if cur.isEmpty then [] else [String.ofList cur.reverse]
  | c :: cs =>
    if isBlank c then
      if cur.isEmpty then wordsFrom [] cs else String.ofList cur.reverse :: wordsFrom [] cs
    else wordsFrom (c :: cur) cs

/-- The maximal runs of non-blank characters, in order. -/
def words (s : String) : List String :=
  wordsFrom [] s.toList

end ObjectPascal.Text
