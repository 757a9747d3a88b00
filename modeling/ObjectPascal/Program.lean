import ObjectPascal.Source

/-!
Programs as trees. Every node knows its place. The constructors named `bare` are nodes of no
particular form: no text gives rise to one, and executing one is a fault.
-/

namespace ObjectPascal

inductive Visibility where
  | publ
  | prot
  | priv
  deriving DecidableEq, Inhabited

def Visibility.name : Visibility → String
  | .publ => "public"
  | .prot => "protected"
  | .priv => "private"

def Visibility.title : Visibility → String
  | .publ => "Public"
  | .prot => "Protected"
  | .priv => "Private"

inductive MethodKind where
  | constructor
  | destructor
  | procedure
  | function
  deriving DecidableEq, Inhabited

def MethodKind.name : MethodKind → String
  | .constructor => "constructor"
  | .destructor => "destructor"
  | .procedure => "procedure"
  | .function => "function"

/-- Names declared together with one type: fields, parameters or variables. -/
structure NameGroup where
  location : Location
  names : List String
  typeName : String
  deriving DecidableEq

/-- The names of a parameter list in order. -/
def paramNames (params : List NameGroup) : List String :=
  params.flatMap NameGroup.names

structure MethodHeader where
  location : Location
  kind : MethodKind
  name : String
  params : List NameGroup
  returnType : Option String
  deriving DecidableEq

inductive Member where
  | field (group : NameGroup)
  | method (header : MethodHeader)
  | bare (location : Location)
  deriving DecidableEq

/-- What a class body lists: a member, or a visibility marker with the members up to the next. -/
inductive ClassItem where
  | member (member : Member)
  | marked (location : Location) (visibility : Visibility) (members : List Member)
  deriving DecidableEq

structure ClassDecl where
  location : Location
  name : String
  items : List ClassItem
  deriving DecidableEq

/-- A name with the members selected from it: `a`, `a.b`, `a.b.c`. -/
structure Designator where
  location : Location
  base : String
  selectors : List String
  deriving DecidableEq

def Designator.parts (d : Designator) : List String :=
  d.base :: d.selectors

def Designator.text (d : Designator) : String :=
  String.intercalate "." d.parts

inductive Operator where
  | add
  | sub
  | mul
  | div
  | other (symbol : String)
  deriving DecidableEq

/-- The operator that a symbol stands for. -/
def Operator.ofSymbol : String → Operator
  | "+" => .add
  | "-" => .sub
  | "*" => .mul
  | "/" => .div
  | symbol => .other symbol

def Operator.symbol : Operator → String
  | .add => "+"
  | .sub => "-"
  | .mul => "*"
  | .div => "/"
  | .other s => s

inductive Expr where
  | literal (location : Location) (value : Nat)
  | ref (target : Designator)
  | binary (location : Location) (op : Operator) (left right : Expr)
  | parens (location : Location) (inner : Expr)
  | call (location : Location) (left member : String) (args : List Expr)
  | bare (location : Location)

inductive Statement where
  | assignment (location : Location) (target : Designator) (value : Expr)
  | methodCall (location : Location) (left member : String) (args : List Expr)
  | procedureCall (location : Location) (name : String) (args : List Expr)
  | bare (location : Location)

def Statement.location : Statement → Location
  | .assignment loc _ _ => loc
  | .methodCall loc _ _ _ => loc
  | .procedureCall loc _ _ => loc
  | .bare loc => loc

/-- The form of a statement, without its parts. -/
inductive Form where
  | assignment
  | methodCall
  | procedureCall
  | bare
  deriving DecidableEq

def Form.name : Form → String
  | .assignment => "Assignment"
  | .methodCall => "MethodOrStaticCall"
  | .procedureCall => "ProcCall"
  | .bare => "Statement"

def Statement.form : Statement → Form
  | .assignment .. => .assignment
  | .methodCall .. => .methodCall
  | .procedureCall .. => .procedureCall
  | .bare .. => .bare

structure Block where
  location : Location
  statements : List Statement

structure MethodImpl where
  location : Location
  kind : MethodKind
  className : String
  methodName : String
  params : List NameGroup
  returnType : Option String
  body : Block

/-- All declarations of one sort, with the place of the first section that holds any. -/
structure Section (α : Type) where
  location : Location
  items : List α

structure Program where
  location : Location
  name : Option String
  classes : Option (Section ClassDecl)
  vars : Option (Section NameGroup)
  methods : Option (Section MethodImpl)
  block : Block

end ObjectPascal
