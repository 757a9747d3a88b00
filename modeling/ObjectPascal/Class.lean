import ObjectPascal.Table
import ObjectPascal.Fault

/-!
Classes: what members they have, who may use them, and which method makes or destroys an object.
-/

namespace ObjectPascal

structure Method where
  className : String
  name : String
  kind : MethodKind
  isFunction : Bool
  params : List String
  body : Option (List Statement)

namespace Method

def key (m : Method) : Key :=
  Key.of m.name

def qualifiedName (m : Method) : String :=
  m.className ++ "." ++ m.name

def implemented (m : Method) : Bool :=
  m.body.isSome

end Method

/-- A field's visibility as last declared, and its name as first written. -/
structure FieldEntry where
  visibility : Visibility
  spelling : String
  deriving DecidableEq

/-- The method that a name stands for, and the visibility of the header that declared it. -/
structure MethodEntry where
  method : Method
  visibility : Option Visibility

/-- A class. The constructor and the destructor are bound by name, so that an implementation that
replaces a method is the one that is bound from then on. -/
structure Class where
  name : String
  fields : Table FieldEntry := {}
  methods : Table MethodEntry := {}
  constructorKey : Option Key := none
  destructorKey : Option Key := none
  deriving Inhabited

namespace Class

def addField (c : Class) (name : String) (visibility : Visibility) : Class :=
  let k := Key.of name
  let spelling := (c.fields.find? k).elim name FieldEntry.spelling
  { c with fields := c.fields.insert k ⟨visibility, spelling⟩ }

/-- A constructor or destructor becomes the one of its class. -/
def bind (c : Class) (m : Method) : Class :=
  match m.kind with
  | .constructor => { c with constructorKey := some m.key }
  | .destructor => { c with destructorKey := some m.key }
  | _ => c

/-- Adds a method without a body, unless there is a method of that name. -/
def declareMethod (c : Class) (name : String) (kind : MethodKind) (params : List String)
    (visibility : Visibility) : Class :=
  let k := Key.of name
  if c.methods.contains k then c
  else
    let m : Method := ⟨c.name, name, kind, kind = .function, params, none⟩
    { c with methods := c.methods.insert k ⟨m, some visibility⟩ }.bind m

/-- Puts a method in the place of the one of its name, which keeps its visibility. -/
def attachMethod (c : Class) (m : Method) : Class :=
  let visibility := (c.methods.find? m.key).bind MethodEntry.visibility
  { c with methods := c.methods.insert m.key ⟨m, visibility⟩ }.bind m

def findMethod? (c : Class) (name : String) : Option Method :=
  (c.methods.find? (Key.of name)).map MethodEntry.method

def constructor? (c : Class) : Option Method :=
  (c.constructorKey.bind c.methods.find?).map MethodEntry.method

def destructor? (c : Class) : Option Method :=
  (c.destructorKey.bind c.methods.find?).map MethodEntry.method

def isConstructor (c : Class) (name : String) : Bool :=
  c.constructorKey = some (Key.of name)

def isDestructor (c : Class) (name : String) : Bool :=
  c.destructorKey = some (Key.of name)

def hasField (c : Class) (name : String) : Bool :=
  c.fields.contains (Key.of name)

/-- A name that is no field counts as public. -/
def fieldVisibility (c : Class) (name : String) : Visibility :=
  (c.fields.find? (Key.of name)).elim .publ FieldEntry.visibility

/-- A method without a header counts as public, and so does a name that is no method. -/
def methodVisibility (c : Class) (name : String) : Visibility :=
  ((c.methods.find? (Key.of name)).bind MethodEntry.visibility).getD .publ

def addMember (c : Class) (visibility : Visibility) : Member → Except Cause Class
  | .field group => .ok (group.names.foldl (fun c name => c.addField name visibility) c)
  | .method h => .ok (c.declareMethod h.name h.kind (paramNames h.params) visibility)
  | .bare _ => .error .unsupportedMember

def addMembers (visibility : Visibility) : List Member → Class → Except Cause Class
  | [], c => .ok c
  | m :: ms, c => do addMembers visibility ms (← c.addMember visibility m)

/-- Adds what a class body lists; a marker sets the visibility of all that follows it. -/
def addItems (visibility : Visibility) : List ClassItem → Class → Except Cause Class
  | [], c => .ok c
  | .member m :: items, c => do addItems visibility items (← c.addMember visibility m)
  | .marked _ visibility ms :: items, c => do
    addItems visibility items (← addMembers visibility ms c)

/-- The class that a declaration describes. -/
def ofDecl (d : ClassDecl) : Except Cause Class :=
  addItems .publ d.items { name := d.name }

end Class

/-- The method that an implementation in the program text gives to a class. -/
def MethodImpl.method (impl : MethodImpl) (className : String) : Method where
  className := className
  name := impl.methodName
  kind := impl.kind
  isFunction := impl.kind = .function
  params := paramNames impl.params
  body := some impl.body.statements

end ObjectPascal
