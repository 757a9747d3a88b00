import ObjectPascal.Evaluation

/-!
What a whole program does: its declarations, then its main block, with a report of how it ended.
-/

namespace ObjectPascal

open Script

def declareClass (d : ClassDecl) : Script Unit := do
  match Class.ofDecl d with
  | .error cause => fault none cause
  | .ok c =>
    perform (.defineClass c d.location)
    perform (.log (.declareClass d.name) (some d.location))

def declareClasses : List ClassDecl → Script Unit
  | [] => return ()
  | d :: ds => do
    declareClass d
    declareClasses ds

def attachMethods : List MethodImpl → Script Unit
  | [] => return ()
  | impl :: impls => do
    let name ← perform (.attachMethod impl)
    perform (.log (.attachMethod name) (some impl.location))
    attachMethods impls

/-- The value of a variable before anything is assigned to it. -/
def initialValue (typeName : String) : Value :=
  if Key.of typeName = Key.integer then .int 0 else .nil

def declareNames (typeName : String) : List String → Script Unit
  | [] => return ()
  | name :: names => do
    perform (.declareGlobal name (initialValue typeName))
    declareNames typeName names

def declareVars : List NameGroup → Script Unit
  | [] => return ()
  | group :: groups => do
    declareNames group.typeName group.names
    declareVars groups

namespace Program

/-- Classes first, then the bodies of their methods, then the variables, then the main block. -/
def effect (depth : Nat) (p : Program) : Script Unit := do
  declareClasses (p.classes.elim [] Section.items)
  attachMethods (p.methods.elim [] Section.items)
  declareVars (p.vars.elim [] Section.items)
  executeAll (runBody depth) p.block.statements

/-- Completes what is known of a failure and tells the handlers. A fault of the surroundings
becomes an internal fault of the program at the last step. So do calls nested beyond the limit, but
they stay what they are, also when a handler fails that is told of them. -/
def report (raised : Raised) : Script Unit := do
  match raised with
  | .runtime error =>
    let live ← perform .liveFrames
    let (index, _) ← perform .lastStep
    let raised := Raised.capture live (.runtime { error with step := some index })
    perform (.emit (.onError raised))
    fail raised
  | .host fault =>
    perform (.emit (.onError raised))
    let live ← perform .liveFrames
    let (index, location) ← perform .lastStep
    fail (.runtime
      { cause := .internal fault.cause.message
        location
        step := some index
        stack := fault.stack.or (some live) })
  | .exhausted error =>
    (perform (.emit (.onError raised))).mapError Raised.outOfRoom
    let live ← perform .liveFrames
    let (index, location) ← perform .lastStep
    fail (Raised.capture live (.exhausted { error with location, step := some index }))

/-- Executes a program in which calls nest at most `depth` deep. -/
def execute (depth : Nat) (p : Program) : Script Unit := do
  perform (.emit (.programStart p.name))
  match ← (p.effect depth).attempt with
  | .ok () => perform (.emit .programEnd)
  | .error raised => report raised

end Program

end ObjectPascal
