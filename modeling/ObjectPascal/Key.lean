/-!
Names are compared without regard to letter case. A key is what is left of a name then.
-/

namespace ObjectPascal

/-- A name with its ASCII letters in lower case. -/
structure Key where
  text : String
  deriving DecidableEq, Inhabited

namespace Key

/-- The key of a name. Letters beyond ASCII stand as they are: two names that differ in the case of
such a letter have different keys. No name in a program text has any, for the words of a text are of
ASCII letters, digits and underscores. -/
def of (name : String) : Key :=
  ⟨String.ofList (name.toList.map Char.toLower)⟩

/-- The name by which a method body refers to its receiver. -/
def self : Key := ⟨"self"⟩

/-- The one type name whose variables start as a number. -/
def integer : Key := ⟨"integer"⟩

end Key

end ObjectPascal
