/-!
Values: numbers, references to objects, and nothing.
-/

namespace ObjectPascal

/-- Objects are numbered in the order of their creation. -/
abbrev ObjectId := Nat

inductive Value where
  | int (n : Int)
  | object (id : ObjectId)
  | nil
  deriving DecidableEq, Inhabited

namespace Value

/-- The name of a value's sort. -/
def sort : Value → String
  | int _ => "INT"
  | object _ => "OBJ"
  | nil => "NIL"

/-- The line that writing a value gives. -/
def printed : Value → String
  | int n => toString n
  | object _ => "object"
  | nil => "nil"

end Value

end ObjectPascal
