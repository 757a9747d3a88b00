import ObjectPascal.Store

/-!
The variables of a program and the objects that can be reached from them, free of object numbers
that no one can see: objects are numbered in the order in which they are met.
-/

namespace ObjectPascal

/-- A value with its object replaced by the object's place in the graph. -/
inductive ShownValue where
  | int (n : Int)
  | object (index : Nat)
  | nil
  deriving DecidableEq

structure ShownObject where
  text : String
  fields : List (String × ShownValue)
  deriving DecidableEq

structure Graph where
  vars : List (String × ShownValue)
  objects : List ShownObject
  deriving DecidableEq

namespace Store

/-- Adds the object of a value to those met, unless it has been met. -/
def meet (met : List ObjectId) : Value → List ObjectId
  | .object id => if id ∈ met then met else met ++ [id]
  | _ => met

/-- Meets the objects in the fields of the object at place `i`. -/
def meetFields (s : Store) (met : List ObjectId) (i : Nat) : List ObjectId :=
  match met[i]? with
  | none => met
  | some id => ((s.object id).fields.entries.map Prod.snd).foldl meet met

/-- The objects reached from some values: those of the values first, then those in the fields of
the first object, of the second, and so on. -/
def reached (s : Store) (roots : List Value) : List ObjectId :=
  (List.range s.objects.size).foldl s.meetFields (roots.foldl meet [])

def shown (met : List ObjectId) : Value → ShownValue
  | .int n => .int n
  | .object id => .object (met.idxOf id)
  | .nil => .nil

def fieldSpelling (s : Store) (id : ObjectId) (k : Key) : String :=
  ((s.objectClass id).fields.find? k).elim k.text FieldEntry.spelling

/-- The global variables and what they lead to. -/
def graph (s : Store) : Graph :=
  let vars := (s.frame globalFrame).slots.entries
  let met := s.reached (vars.map fun (_, slot) => slot.value)
  { vars := vars.map fun (k, slot) => (slot.spelling.getD k.text, shown met slot.value)
    objects := met.map fun id =>
      { text := s.objectText id
        fields := (s.object id).fields.entries.map fun (k, v) =>
          (s.fieldSpelling id k, shown met v) } }

end Store

end ObjectPascal
