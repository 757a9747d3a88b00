import ObjectPascal.Hook
import ObjectPascal.StepLog
import ObjectPascal.Value

/-!
What is told to handlers during a run, and what a handler can do in return.
-/

namespace ObjectPascal

/-- A moment of a run with its particulars; values stand as their texts. -/
inductive Event where
  | programStart (name : Option String)
  | beforeStatement (form : Form) (line : Nat)
  | afterStatement (form : Form) (line : Nat)
  | beforeCall (name : String) (args : List String) (line : Option Nat)
  | afterCall (name : String) (result : String) (line : Option Nat)
  | onError (raised : Raised)
  | programEnd
  deriving DecidableEq

def Event.name : Event → EventName
  | programStart _ => .programStart
  | beforeStatement .. => .beforeStatement
  | afterStatement .. => .afterStatement
  | beforeCall .. => .beforeCall
  | afterCall .. => .afterCall
  | onError _ => .onError
  | programEnd => .programEnd

/-- The step that a step rule is told of. -/
structure StepContext where
  index : Nat
  rule : String
  location : Option Location
  depth : Nat
  deriving DecidableEq

/-- Why a handler is called. -/
inductive Occasion where
  | event (event : Event)
  | step (context : StepContext)
  deriving DecidableEq

/-- What a handler writes down. -/
inductive Observation where
  | event (label : String) (event : Event) (depth lastIndex : Nat)
  | step (label : String) (context : StepContext)
  | line (text : String)
  deriving DecidableEq

/-- How a handler fails: in its own workings, or with a fault of the language, which may be one that
it has been told of and may have its place, its step and its frames noted. -/
inductive Failure where
  | host (text : String)
  | fault (error : RuntimeError)
  deriving DecidableEq

/-- What a handler does when called: it notes something, then assigns to variables by the rules of
the language, and then fails or not. -/
structure Reaction where
  observations : List Observation := []
  assignments : List (String × Value) := []
  failure : Option Failure := none
  deriving DecidableEq

end ObjectPascal
