import ObjectPascal.Class
import ObjectPascal.Value
import ObjectPascal.Text.Decimal

/-!
The store: every class, object and frame there is, which classes have a name, and which calls are
active. Names are looked up in the innermost frame, then in the fields of its receiver, then in the
frames further out.
-/

namespace ObjectPascal

/-- Classes are numbered in the order of their creation. -/
abbrev ClassId := Nat

structure Object where
  classId : ClassId
  fields : Table Value := {}
  deriving Inhabited, DecidableEq

/-- A variable: its value, and its name as first declared. -/
structure Slot where
  value : Value
  spelling : Option String
  deriving DecidableEq

/-- The variables of one call, or of the program, and its result. -/
structure Frame where
  name : String
  callLocation : Option Location := none
  slots : Table Slot := {}
  resultName : Option String := none
  result : Value := .int 0
  returned : Bool := false
  deriving Inhabited, DecidableEq

namespace Frame

/-- The text by which reports refer to a frame. -/
def label (id : FrameId) : String :=
  "f_" ++ Text.padded 4 id

def declare (f : Frame) (name : String) (v : Value) : Frame :=
  let k := Key.of name
  let spelling := ((f.slots.find? k).bind Slot.spelling).getD name
  { f with slots := f.slots.insert k ⟨v, some spelling⟩ }

def declareAll (f : Frame) (bindings : List (String × Value)) : Frame :=
  bindings.foldl (fun f (name, v) => f.declare name v) f

def has (f : Frame) (name : String) : Bool :=
  f.slots.contains (Key.of name)

def get? (f : Frame) (name : String) : Option Value :=
  (f.slots.find? (Key.of name)).map Slot.value

def set (f : Frame) (name : String) (v : Value) : Frame :=
  let k := Key.of name
  let spelling := (f.slots.find? k).bind Slot.spelling
  { f with slots := f.slots.insert k ⟨v, spelling⟩ }

/-- In a function, the function's own name stands for its result. -/
def isResult (f : Frame) (name : String) : Bool :=
  f.resultName.any fun own => Key.of own = Key.of name

def recordResult (f : Frame) (v : Value) : Frame :=
  { f with result := v, returned := true }

end Frame

/-- One active call: its frame, the class whose method runs, and the receiver. -/
structure Activation where
  frame : FrameId
  context : Option ClassId := none
  receiver : Option ObjectId := none
  deriving DecidableEq

/-- The frame that is there from the start. -/
def globalFrame : FrameId := 0

structure Store where
  classes : Array Class := #[]
  catalog : Table ClassId := {}
  objects : Array Object := #[]
  frames : Array Frame := #[{ name := "<program>" }]
  /-- The active calls, innermost first; the program itself is below them all. -/
  calls : List Activation := []
  deriving Inhabited

/-- Where a variable lives. -/
inductive Owner where
  | frame (id : FrameId)
  | object (id : ObjectId)
  deriving DecidableEq

namespace Store

def classOf (s : Store) (id : ClassId) : Class :=
  s.classes.getD id default

def object (s : Store) (id : ObjectId) : Object :=
  s.objects.getD id default

def frame (s : Store) (id : FrameId) : Frame :=
  s.frames.getD id default

def objectClass (s : Store) (id : ObjectId) : Class :=
  s.classOf (s.object id).classId

/-- The text that stands for an object. -/
def objectText (s : Store) (id : ObjectId) : String :=
  "<object " ++ (s.objectClass id).name ++ ">"

def render (s : Store) : Value → String
  | .int n => toString n
  | .object id => s.objectText id
  | .nil => "nil"

/-- The variables of a frame with the texts of their values. -/
def snapshot (s : Store) (id : FrameId) : List (String × String) :=
  (s.frame id).slots.entries.map fun (k, slot) =>
    (slot.spelling.getD k.text, s.render slot.value)

/-! Classes. -/

def addClass (s : Store) (c : Class) : Store × ClassId :=
  ({ s with classes := s.classes.push c }, s.classes.size)

def updateClass (s : Store) (id : ClassId) (f : Class → Class) : Store :=
  { s with classes := s.classes.modify id f }

/-- Makes a class known by its name. -/
def define (s : Store) (id : ClassId) : Except Cause Store :=
  let name := (s.classOf id).name
  if s.catalog.contains (Key.of name) then .error (.duplicateClass name)
  else .ok { s with catalog := s.catalog.insert (Key.of name) id }

def findClass? (s : Store) (name : String) : Option ClassId :=
  s.catalog.find? (Key.of name)

def getClass (s : Store) (name : String) : Except Cause ClassId :=
  match s.findClass? name with
  | some id => .ok id
  | none => .error (.unknownClass name)

def classNames (s : Store) : List String :=
  s.catalog.entries.map fun (_, id) => (s.classOf id).name

/-- Gives a method to a class; `method` is told the name of the class as declared. -/
def attachMethod (s : Store) (className : String) (method : String → Method) :
    Except Cause (Store × Method) := do
  let id ← s.getClass className
  let m := method (s.classOf id).name
  return (s.updateClass id (·.attachMethod m), m)

/-! Objects. -/

/-- A new object, with every field of its class at zero. -/
def newObject (s : Store) (id : ClassId) : Store × ObjectId :=
  ({ s with objects := s.objects.push ⟨id, (s.classOf id).fields.map fun _ => .int 0⟩ },
    s.objects.size)

def hasField (s : Store) (id : ObjectId) (name : String) : Bool :=
  (s.object id).fields.contains (Key.of name)

def getField (s : Store) (id : ObjectId) (name : String) : Except Cause Value :=
  match (s.object id).fields.find? (Key.of name) with
  | some v => .ok v
  | none => .error (.unknownField (s.objectClass id).name name)

def setField (s : Store) (id : ObjectId) (name : String) (v : Value) : Except Cause Store :=
  if s.hasField id name then
    let update (o : Object) : Object := { o with fields := o.fields.insert (Key.of name) v }
    .ok { s with objects := s.objects.modify id update }
  else .error (.unknownField (s.objectClass id).name name)

/-! Frames and calls. -/

def newFrame (s : Store) (f : Frame) : Store × FrameId :=
  ({ s with frames := s.frames.push f }, s.frames.size)

def updateFrame (s : Store) (id : FrameId) (f : Frame → Frame) : Store :=
  { s with frames := s.frames.modify id f }

/-- The innermost call, or the program when no call is active. -/
def innermost (s : Store) : Activation :=
  s.calls.headD ⟨globalFrame, none, none⟩

/-- The number of active calls. -/
def depth (s : Store) : Nat :=
  s.calls.length

/-- The frames of the program and of the active calls, outermost first. -/
def liveFrames (s : Store) : List FrameId :=
  globalFrame :: (s.calls.map Activation.frame).reverse

/-- The frames around the innermost one, from inner to outer. -/
def outerFrames (s : Store) : List FrameId :=
  match s.calls with
  | [] => []
  | _ :: outer => outer.map Activation.frame ++ [globalFrame]

def enter (s : Store) (a : Activation) : Store :=
  { s with calls := a :: s.calls }

def leave (s : Store) : Store :=
  { s with calls := s.calls.tail }

def requireSelf (s : Store) : Except Cause ObjectId :=
  match s.innermost.receiver with
  | some id => .ok id
  | none => .error .noSelf

def inContextOf (s : Store) (id : ClassId) : Bool :=
  s.innermost.context = some id

/-! Names. -/

/-- The first of some frames that has a variable. -/
def frameWith? (s : Store) (name : String) : List FrameId → Option FrameId
  | [] => none
  | id :: ids => if (s.frame id).has name then some id else s.frameWith? name ids

/-- Where a name is found: in the innermost frame, else in the receiver, else further out. -/
def owner? (s : Store) (name : String) : Option Owner :=
  let inner := s.innermost
  if (s.frame inner.frame).has name then some (.frame inner.frame)
  else
    match inner.receiver.filter (s.hasField · name) with
    | some id => some (.object id)
    | none => (s.frameWith? name s.outerFrames).map .frame

def lookup? (s : Store) (name : String) : Option Value :=
  match s.owner? name with
  | none => none
  | some (.frame id) => (s.frame id).get? name
  | some (.object id) => (s.object id).fields.find? (Key.of name)

def lookup (s : Store) (name : String) : Except Cause Value :=
  match s.lookup? name with
  | some v => .ok v
  | none => .error (.undefinedVariable name)

/-- Changes the variable that looking the name up reads. -/
def assign (s : Store) (name : String) (v : Value) : Except Cause Store :=
  match s.owner? name with
  | none => .error (.undeclaredTarget name)
  | some (.frame id) => .ok (s.updateFrame id (·.set name v))
  | some (.object id) => s.setField id name v

/-- Assignment in the innermost frame, where a function's own name is its result. -/
def assignName (s : Store) (name : String) (v : Value) : Except Cause Store :=
  let id := s.innermost.frame
  if (s.frame id).isResult name then .ok (s.updateFrame id (·.recordResult v))
  else s.assign name v

/-- Declares a variable in the innermost frame. -/
def declare (s : Store) (name : String) (v : Value) : Store :=
  s.updateFrame s.innermost.frame (·.declare name v)

/-- Declares a variable of the program. -/
def declareGlobal (s : Store) (name : String) (v : Value) : Store :=
  s.updateFrame globalFrame (·.declare name v)

/-- A member that is not public is open only to methods of its class. -/
def checkAccess (s : Store) (id : ClassId) (member : String) (visibility : Visibility) :
    Except Cause Unit :=
  if visibility = .publ || s.inContextOf id then .ok ()
  else .error (.accessDenied visibility (s.classOf id).name member)

end Store

end ObjectPascal
