import ObjectPascal.Script
import ObjectPascal.Word

/-!
What expressions and statements do. The functions of the first part are told how the body of a
called method is run; the last part ties the knot with a bound on how deep calls nest.
-/

namespace ObjectPascal

open Script

/-! Values. -/

def renderAll : List Value → Script (List String)
  | [] => return []
  | v :: vs => do
    let text ← perform (.render v)
    return text :: (← renderAll vs)

def expectInt (location : Location) : Value → Script Int
  | .int n => return n
  | v => fault (some location) (.typeMismatch (Value.int 0).sort v.sort)

/-- The low 32 bits of the exact result of an operation. -/
def narrow (n : Int) : Script Int :=
  match Word.narrow? n with
  | some w => return w
  | none => fail (.host { cause := .tooWide })

def arithmetic (location : Location) (op : Operator) (a b : Int) : Script Int :=
  match op with
  | .add => narrow (a + b)
  | .sub => narrow (a - b)
  | .mul => narrow (a * b)
  | .div =>
    match Word.quotient? a b with
    | some q => narrow q
    | none => fault (some location) .divisionByZero
  | .other symbol => fault (some location) (.unknownOperator symbol)

/-! Designators. -/

/-- The object that a name stands for. -/
def resolveObject (base : String) (location : Location) : Script ObjectId :=
  if Key.of base = Key.self then perform .receiver
  else do
    match ← perform (.lookup base) with
    | .object id => return id
    | v => fault (some location) (.notAnObject base v.sort)

def readDesignator (d : Designator) : Script Value :=
  match d.selectors with
  | [] => perform (.lookup d.base)
  | [field] => do
    let id ← resolveObject d.base d.location
    perform (.readField id field d.location)
  | _ => fault (some d.location) (.malformedTarget d.text)

def writeDesignator (d : Designator) (v : Value) : Script Unit :=
  match d.selectors with
  | [] => perform (.assign d.base v)
  | [field] => do
    let id ← resolveObject d.base d.location
    perform (.writeField id field v d.location)
  | _ => fault (some d.location) (.malformedTarget d.text)

/-! Procedures of the language. -/

def Builtin.ofName? (name : String) : Option Builtin :=
  [Builtin.writeln, Builtin.readln].find? fun b => Key.of name = ⟨b.name⟩

def writeAll : List String → Script Unit
  | [] => return ()
  | line :: lines => do
    perform (.write line)
    writeAll lines

/-- Writes each value on a line of its own, or an empty line for no value. -/
def writeln (args : List Value) : Script Unit := do
  let texts := args.map Value.printed
  writeAll (if texts.isEmpty then [""] else texts)
  perform (.transcribe (.writeln texts))

/-- Reads the next word as a number into a variable. -/
def readInto (name : String) (location : Location) : Script Unit := do
  match ← perform .nextWord with
  | none => fault (some location) (.invalidInput none)
  | some word =>
    let cs := word.toList
    let count := (Text.splitSign cs).2.length
    if !Text.isSignedNumeral cs then fault (some location) (.invalidInput (some word))
    else if Text.maxDigits < count then fail (.host { cause := .tooManyDigits count })
    else
      let n := Text.signedValue cs
      if Word.InRange n then do
        perform (.transcribe (.readln word))
        perform (.assign name (.int n))
      else fault (some location) (.invalidInput (some word))

/-- Reading needs a variable that is named and not selected from an object. -/
def readln (operand : Expr) (location : Location) : Script Unit :=
  match operand with
  | .ref d =>
    if d.selectors.isEmpty then readInto d.base location else fault (some location) .notSimple
  | _ => fault (some location) .notAVariable

/-- Carries out a procedure of the language: `args` are the values of its operands, which reading
does without. -/
def invokeBuiltin (name : String) (args : List Value) (operands : List Expr)
    (location : Location) : Script Unit :=
  match Builtin.ofName? name with
  | none => fault (some location) (.unknownProcedure name)
  | some .writeln => writeln args
  | some .readln =>
    match operands with
    | [operand] => readln operand location
    | _ => fault (some location) (.argumentCount 1 operands.length Builtin.readln.name)

section

-- How the body of a called method is run.
variable (body : List Statement → Script Unit)

/-! Calls. -/

/-- Runs a script inside a call. However it ends, the call ends too; a failure takes note of the
frames that were live. -/
def within (frame : FrameId) (receiver : ObjectId) (inside : Script Unit) : Script Unit := do
  perform (.enter frame receiver)
  match ← inside.attempt with
  | .ok () => perform .leave
  | .error raised =>
    let live ← perform .liveFrames
    perform .leave
    fail (raised.capture live)

def checkArity (m : Method) (args : List Value) (location : Option Location) : Script Unit :=
  if args.length = m.params.length then return ()
  else fault location (.argumentCount m.params.length args.length m.qualifiedName)

/-- What a call gives once it is over: the result of a function, else nothing. -/
def callResult (m : Method) (frame : FrameId) : Script Value :=
  if m.isFunction then perform (.result frame) else return .nil

/-- Runs a method on a receiver. -/
def runMethod (kind : CallKind) (receiver : ObjectId) (m : Method) (args : List Value)
    (location : Option Location) : Script Value := do
  let frame ← perform (.newFrame m args location)
  let texts ← renderAll args
  let line := location.map Location.line
  perform (.log (.enter kind m.qualifiedName texts) location)
  perform (.emit (.beforeCall m.qualifiedName texts line))
  within frame receiver (body (m.body.getD []))
  let result ← callResult m frame
  let text ← perform (.render result)
  perform (.emit (.afterCall m.qualifiedName text line))
  return result

/-- Makes an object of a class and runs its constructor on it. -/
def construct (id : ClassId) (member : String) (args : List Value) (location : Option Location) :
    Script Value := do
  let m ← perform (.findConstructor id member location)
  checkArity m args location
  let object ← perform (.newObject id)
  let _ ← runMethod body .new object m args location
  return .object object

def invokeMethod (receiver : ObjectId) (member : String) (args : List Value)
    (location : Option Location) : Script Value := do
  let (m, kind) ← perform (.findMethod receiver member location)
  checkArity m args location
  runMethod body kind receiver m args location

/-- A call on a name, its arguments evaluated. -/
def callMember (location : Location) (left member : String) (args : List Value) :
    Script Value := do
  match ← perform (.constructedClass left) with
  | some id => construct body id member args (some location)
  | none =>
    let receiver ← resolveObject left location
    invokeMethod body receiver member args (some location)

/-! Expressions. -/

mutual

def evaluate : Expr → Script Value
  | .literal _ n => return .int n
  | .ref d => readDesignator d
  | .parens _ e => evaluate e
  | .binary location op left right => do
    let a ← expectInt location (← evaluate left)
    let b ← expectInt location (← evaluate right)
    return .int (← arithmetic location op a b)
  | .call location left member args => do
    callMember body location left member (← evaluateAll args)
  | .bare location => fault (some location) .unsupportedExpression

/-- Evaluates from left to right. -/
def evaluateAll : List Expr → Script (List Value)
  | [] => return []
  | e :: es => do
    let v ← evaluate e
    return v :: (← evaluateAll es)

end

/-! Statements. -/

/-- The values of the operands of a procedure; reading names a variable and takes no value. -/
def operandValues (procedure : Builtin) (operands : List Expr) : Script (List Value) :=
  match procedure with
  | .writeln => evaluateAll body operands
  | .readln => return []

def callProcedure (location : Location) (name : String) (operands : List Expr) :
    Script Unit := do
  match Builtin.ofName? name with
  | none => fault (some location) (.unknownProcedure name)
  | some procedure =>
    let args ← operandValues body procedure operands
    let texts ← renderAll args
    perform (.emit (.beforeCall name texts (some location.line)))
    invokeBuiltin name args operands location
    perform (.log (.builtin procedure texts) (some location))
    perform (.emit (.afterCall name "nil" (some location.line)))

/-- What a statement does once it is logged. -/
def Statement.effect : Statement → Script Unit
  | .assignment _ target value => do
    let v ← evaluate body value
    writeDesignator target v
  | .methodCall location left member args => do
    let _ ← callMember body location left member (← evaluateAll body args)
  | .procedureCall location name args => callProcedure body location name args
  | .bare location => fault (some location) .unsupportedStatement

/-- Executes a statement; a fault that has no place yet is placed at the statement. -/
def Statement.execute (s : Statement) : Script Unit := do
  perform (.log (.statement s.form) (some s.location))
  (s.effect body).mapError (Raised.locate s.location)

def executeAll : List Statement → Script Unit
  | [] => return ()
  | s :: ss => do
    perform (.emit (.beforeStatement s.form s.location.line))
    s.execute body
    perform (.emit (.afterStatement s.form s.location.line))
    executeAll ss

end

/-- Runs the body of a method in which calls nest less than `depth` deep. -/
def runBody : (depth : Nat) → List Statement → Script Unit
  | 0, _ => fail (.exhausted .tooDeep)
  | depth + 1, ss => executeAll (runBody depth) ss

end ObjectPascal
