import ObjectPascal.Text.Blank

/-!
Input: words drawn from lines, which are asked for only when no word is left.
-/

namespace ObjectPascal

/-- What asking for a line brings. -/
inductive Reply where
  | line (text : String)
  | nothing
  | failure (text : String)
  deriving DecidableEq

structure Input where
  /-- The words of the current line that have not been taken. -/
  pending : List String := []
  /-- What asking will bring; after the last one, the end of input. -/
  replies : List Reply := []
  /-- How often a line has been asked for. -/
  asked : Nat := 0
  deriving DecidableEq, Inhabited

namespace Input

/-- Asks for lines until one has a word, and takes that word; `none` at the end of input. -/
def refill (asked : Nat) : List Reply → Except String (Option String) × Input
  | [] => (.ok none, ⟨[], [], asked + 1⟩)
  | .nothing :: replies => (.ok none, ⟨[], replies, asked + 1⟩)
  | .failure text :: replies => (.error text, ⟨[], replies, asked + 1⟩)
  | .line text :: replies =>
    match Text.words text with
    | [] => refill (asked + 1) replies
    | word :: more => (.ok (some word), ⟨more, replies, asked + 1⟩)

/-- The next word. -/
def nextWord (input : Input) : Except String (Option String) × Input :=
  match input.pending with
  | word :: more => (.ok (some word), { input with pending := more })
  | [] => refill input.asked input.replies

end Input

end ObjectPascal
