import ObjectPascal.Machine

/-!
The actions of the machine, each of which is carried out as a whole. Executing a program is
nothing but a sequence of actions.
-/

namespace ObjectPascal

inductive Action where
  /-- Logs a step. -/
  | log (step : Step) (location : Option Location)
  /-- Tells the handlers of an event. -/
  | emit (event : Event)
  /-- The text of a value. -/
  | render (value : Value)
  /-- The value of a variable. -/
  | lookup (name : String)
  /-- The receiver of the innermost call. -/
  | receiver
  | readField (object : ObjectId) (field : String) (location : Location)
  | writeField (object : ObjectId) (field : String) (value : Value) (location : Location)
  /-- Assigns to a variable, or to the result of the function that runs. -/
  | assign (name : String) (value : Value)
  /-- The class that a call on a name constructs, `none` if the name stands for a receiver. -/
  | constructedClass (left : String)
  | findConstructor (classId : ClassId) (member : String) (location : Option Location)
  | findMethod (object : ObjectId) (member : String) (location : Option Location)
  | newObject (classId : ClassId)
  /-- A frame for a call of a method, with the arguments bound to its parameters. -/
  | newFrame (method : Method) (args : List Value) (location : Option Location)
  /-- Makes a frame the innermost, for a method of the receiver's class. -/
  | enter (frame : FrameId) (receiver : ObjectId)
  | leave
  | liveFrames
  /-- The result that a frame holds. -/
  | result (frame : FrameId)
  | write (line : String)
  | nextWord
  | transcribe (entry : TranscriptEntry)
  | defineClass (decl : Class) (location : Location)
  /-- Gives a method its body, and tells the method's qualified name. -/
  | attachMethod (impl : MethodImpl)
  | declareGlobal (name : String) (value : Value)
  /-- The index and the place of the last step. -/
  | lastStep

/-- What an action brings when it succeeds. -/
@[reducible]
def Action.Result : Action → Type
  | .log .. | .emit _ | .writeField .. | .assign .. | .enter .. | .leave | .write _
  | .transcribe _ | .defineClass .. | .declareGlobal .. => Unit
  | .render _ | .attachMethod _ => String
  | .lookup _ | .readField .. | .result _ => Value
  | .receiver | .newObject _ => ObjectId
  | .constructedClass _ => Option ClassId
  | .findConstructor .. => Method
  | .findMethod .. => Method × CallKind
  | .newFrame .. => FrameId
  | .liveFrames => List FrameId
  | .nextWord => Option String
  | .lastStep => Nat × Option Location

/-- A fault with its place. -/
def faultAt {α : Type} (location : Option Location) : Except Cause α → Except Raised α
  | .ok a => .ok a
  | .error c => .error (.fault location c)

theorem faultAt_ok {α : Type} {location : Option Location} {r : Except Cause α} {a : α}
    (h : faultAt location r = .ok a) : r = .ok a := by
  cases r with
  | ok a' =>
    cases h
    rfl
  | error c => cases h

namespace Store

/-- Reading a field from outside asks first whether it may be used, then whether it exists. -/
def readField (s : Store) (id : ObjectId) (field : String) : Except Cause Value := do
  s.checkAccess (s.object id).classId field ((s.objectClass id).fieldVisibility field)
  s.getField id field

def writeField (s : Store) (id : ObjectId) (field : String) (v : Value) : Except Cause Store := do
  s.checkAccess (s.object id).classId field ((s.objectClass id).fieldVisibility field)
  s.setField id field v

/-- A class's name as declared always stands for the class; written otherwise, it stands for a
variable if there is one, and else for the class. -/
def constructedClass (s : Store) (left : String) : Option ClassId :=
  if Key.of left = Key.self then none
  else
    match s.findClass? left with
    | none => none
    | some id =>
      if (s.classOf id).name = left then some id
      else if (s.lookup? left).isSome then none
      else some id

def findConstructor (s : Store) (id : ClassId) (member : String) : Except Cause Method :=
  let c := s.classOf id
  if c.isConstructor member then
    match c.constructor? with
    | some m => if m.implemented then .ok m else .error (.notImplemented c.name member)
    | none => .error (.notImplemented c.name member)
  else .error (.notAConstructor c.name member)

def findMethod (s : Store) (id : ObjectId) (member : String) :
    Except Cause (Method × CallKind) := do
  let c := s.objectClass id
  s.checkAccess (s.object id).classId member (c.methodVisibility member)
  match c.findMethod? member with
  | some m =>
    if m.implemented then return (m, if c.isDestructor member then .destroy else .call)
    else throw (.notImplemented c.name member)
  | none => throw (.notImplemented c.name member)

/-- Adds a class and makes it known, or leaves the store as it is. -/
def defineNew (s : Store) (c : Class) : Except Cause Store :=
  let (s, id) := s.addClass c
  s.define id

end Store

/-- The frame that a call of a method starts with. -/
def Method.frame (m : Method) (args : List Value) (location : Option Location) : Frame :=
  Frame.declareAll
    { name := m.qualifiedName
      callLocation := location
      resultName := if m.isFunction then some m.name else none }
    (m.params.zip args)

namespace Machine

/-- Goes on with a changed store, or fails at a place and stays as it is. -/
def update (m : Machine) (location : Option Location) :
    Except Cause Store → Except Raised Unit × Machine
  | .ok store => (.ok (), { m with store })
  | .error c => (.error (.fault location c), m)

/-- Carries out an action. -/
def perform (host : Host) (m : Machine) : (a : Action) → Except Raised a.Result × Machine
  | .log step location => m.logStep host step location
  | .emit event => m.emit host event
  | .render value => (.ok (m.store.render value), m)
  | .lookup name => (faultAt none (m.store.lookup name), m)
  | .receiver => (faultAt none m.store.requireSelf, m)
  | .readField id field location => (faultAt (some location) (m.store.readField id field), m)
  | .writeField id field v location =>
    m.update (some location) (m.store.writeField id field v)
  | .assign name v => m.update none (m.store.assignName name v)
  | .constructedClass left => (.ok (m.store.constructedClass left), m)
  | .findConstructor id member location =>
    (faultAt location (m.store.findConstructor id member), m)
  | .findMethod id member location => (faultAt location (m.store.findMethod id member), m)
  | .newObject id =>
    let (store, object) := m.store.newObject id
    (.ok object, { m with store })
  | .newFrame method args location =>
    let (store, frame) := m.store.newFrame (method.frame args location)
    (.ok frame, { m with store })
  | .enter frame receiver =>
    let context := (m.store.object receiver).classId
    (.ok (), { m with store := m.store.enter ⟨frame, some context, some receiver⟩ })
  | .leave => (.ok (), { m with store := m.store.leave })
  | .liveFrames => (.ok m.store.liveFrames, m)
  | .result frame => (.ok (m.store.frame frame).result, m)
  | .write line => m.write host line
  | .nextWord => m.nextWord
  | .transcribe entry => (.ok (), { m with transcript := m.transcript.push entry })
  | .defineClass decl location => m.update (some location) (m.store.defineNew decl)
  | .attachMethod impl =>
    match m.store.attachMethod impl.className impl.method with
    | .ok (store, method) => (.ok method.qualifiedName, { m with store })
    | .error c => (.error (.fault (some impl.location) c), m)
  | .declareGlobal name v => (.ok (), { m with store := m.store.declareGlobal name v })
  | .lastStep => (.ok (m.log.lastIndex, m.log.lastLocation), m)

/-- The store after an update is the new one if there is one. -/
theorem update_store {m : Machine} {location : Option Location} {r : Except Cause Store}
    {P : Store → Prop} (hm : P m.store) (hr : ∀ s, r = .ok s → P s) :
    P (m.update location r).2.store := by
  cases r with
  | error c => exact hm
  | ok s => exact hr s rfl

end Machine

end ObjectPascal
