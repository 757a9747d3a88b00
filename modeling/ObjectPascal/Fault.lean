import ObjectPascal.Program
import ObjectPascal.Text.Decimal

/-!
What can go wrong while a program runs. A cause knows its kind, its message and the rule of the
language under which it arose; where and when it arose is added on the way out.
-/

namespace ObjectPascal

inductive Cause where
  | undefinedVariable (name : String)
  | undeclaredTarget (name : String)
  | unknownClass (name : String)
  | duplicateClass (name : String)
  | notAConstructor (className member : String)
  | notImplemented (className member : String)
  | unknownProcedure (name : String)
  | accessDenied (visibility : Visibility) (className member : String)
  | argumentCount (expected got : Nat) (callee : String)
  | typeMismatch (expected got : String)
  | divisionByZero
  | noSelf
  | notAnObject (name got : String)
  | unknownField (className field : String)
  | malformedTarget (text : String)
  | invalidInput (text : Option String)
  | notAVariable
  | notSimple
  | unsupportedStatement
  | unsupportedExpression
  | unsupportedMember
  | unknownOperator (symbol : String)
  | internal (text : String)
  | observerFailed (observer text : String)
  | announced (text rule : String)
  deriving DecidableEq

namespace Cause

/-- The name of the kind of fault, which heads its report. -/
def kind : Cause → String
  | undefinedVariable _ => "UndefinedVariable"
  | undeclaredTarget _ => "UndeclaredAssignmentTarget"
  | unknownClass _ => "UnknownClass"
  | duplicateClass _ => "DuplicateClass"
  | notAConstructor .. => "NotAConstructor"
  | notImplemented .. => "MethodNotImplemented"
  | unknownProcedure _ => "UnknownProcedure"
  | accessDenied .. => "AccessDenied"
  | argumentCount .. => "ArgumentCountMismatch"
  | typeMismatch .. => "TypeMismatch"
  | divisionByZero => "DivisionByZero"
  | noSelf => "NoSelfInContext"
  | notAnObject .. => "NotAnObject"
  | unknownField .. => "UnknownField"
  | malformedTarget _ => "MalformedLvalue"
  | invalidInput _ => "InvalidInput"
  | notAVariable | notSimple => "InvalidArgument"
  | unsupportedStatement | unsupportedExpression | unsupportedMember | unknownOperator _
  | internal _ | observerFailed .. | announced .. => "DelphiRuntimeError"

def message : Cause → String
  | undefinedVariable name => s!"Undefined variable '{name}'"
  | undeclaredTarget name => s!"Assignment to undeclared variable '{name}'"
  | unknownClass name => s!"Unknown class '{name}'"
  | duplicateClass name => s!"Class '{name}' is already defined"
  | notAConstructor className member => s!"'{className}.{member}' is not a constructor"
  | notImplemented className member => s!"Method not implemented: {className}.{member}"
  | unknownProcedure name => s!"Unknown procedure '{name}'"
  | accessDenied visibility className member =>
    s!"{visibility.title} member access denied: {className}.{member}"
  | argumentCount expected got callee =>
    (if callee = "" then "" else callee ++ " ") ++
      s!"expects {expected} arguments but received {got}"
  | typeMismatch expected got => s!"Type mismatch: expected {expected} but got {got}"
  | divisionByZero => "Division by zero"
  | noSelf => "'self' used outside of a method body"
  | notAnObject name got => s!"Not an object: '{name}' holds {got}"
  | unknownField className field => s!"No such field: {className}.{field}"
  | malformedTarget text => s!"Only one level of member access is supported: '{text}'"
  | invalidInput none => "readln expected an integer but got end of input"
  | invalidInput (some text) => s!"readln expected an integer but got '{text}'"
  | notAVariable => "readln: argument must be a variable"
  | notSimple => "readln: only simple integer variables are supported"
  | unsupportedStatement => "Unsupported statement"
  | unsupportedExpression => "Unsupported expression"
  | unsupportedMember => "Unsupported class member Statement"
  | unknownOperator symbol => s!"Unknown operator '{symbol}'"
  | internal text => s!"Internal interpreter error: {text}"
  | observerFailed observer text => s!"{observer} failed: {text}"
  | announced text _ => text

/-- The rule that a fault falls under. -/
def rule : Cause → String
  | undefinedVariable _ => "IDENT"
  | undeclaredTarget _ => "ASSIGN"
  | unknownClass _ | duplicateClass _ | unsupportedMember => "CLASS"
  | notAConstructor .. => "NEW"
  | notImplemented .. | unknownProcedure _ | argumentCount .. => "CALL"
  | accessDenied .. => "ACCESS"
  | typeMismatch .. | unknownOperator _ => "ARITH"
  | divisionByZero => "DIV"
  | noSelf => "SELF"
  | notAnObject .. | malformedTarget _ => "DEREF"
  | unknownField .. => "FIELD"
  | invalidInput _ | notAVariable | notSimple => "readln"
  | unsupportedStatement | unsupportedExpression => "runtime"
  | internal _ => "internal"
  | observerFailed .. => "EXT"
  | announced _ rule => rule

end Cause

/-- Frames are numbered in the order of their creation; the global frame is the first. -/
abbrev FrameId := Nat

/-- A fault of the program. The place, the step and the frames live at the time are filled in
while the fault travels outward, by the first that knows them. -/
structure RuntimeError where
  cause : Cause
  location : Option Location := none
  step : Option Nat := none
  stack : Option (List FrameId) := none
  deriving DecidableEq

/-- What fails in the surroundings of the program and not in the program. -/
inductive HostCause where
  | inputFailed (text : String)
  | outputRefused (text : String)
  | tooManyDigits (count : Nat)
  | tooWide
  deriving DecidableEq

def HostCause.message : HostCause → String
  | .inputFailed text => text
  | .outputRefused text => text
  | .tooManyDigits count => Text.tooManyDigitsMessage count
  | .tooWide => "Python int too large to convert to C long"

structure HostFault where
  cause : HostCause
  stack : Option (List FrameId) := none
  deriving DecidableEq

/-- What is told of calls that are nested beyond the limit. -/
def RuntimeError.tooDeep : RuntimeError where
  cause := .internal "maximum recursion depth exceeded"

/-- What ends a computation early: a fault of the program, a fault of its surroundings, or calls
nested beyond the limit. The last is told as a fault of the program, too. -/
inductive Raised where
  | runtime (error : RuntimeError)
  | host (fault : HostFault)
  | exhausted (error : RuntimeError)
  deriving DecidableEq

namespace Raised

/-- A fault at a place. -/
def fault (location : Option Location) (cause : Cause) : Raised :=
  .runtime { cause, location }

/-- Gives a fault of the program its place, unless it has one. -/
def locate (location : Location) : Raised → Raised
  | .runtime e => .runtime { e with location := e.location.or (some location) }
  | raised => raised

/-- Notes the live frames, unless frames have been noted already. -/
def capture (frames : List FrameId) : Raised → Raised
  | .runtime e => .runtime { e with stack := e.stack.or (some frames) }
  | .host f => .host { f with stack := f.stack.or (some frames) }
  | .exhausted e => .exhausted { e with stack := e.stack.or (some frames) }

/-- A fault of the program that takes the place of the want of room. -/
def outOfRoom : Raised → Raised
  | .runtime e => .exhausted e
  | raised => raised

end Raised

end ObjectPascal
