import ObjectPascal.Program
import ObjectPascal.Token
import ObjectPascal.Text.Decimal
import ObjectPascal.Word

/-!
From tokens to programs. Each parsing function gives what it read together with the tokens left,
which are fewer; that is why the repetitions end.
-/

namespace ObjectPascal

/-- Why a token list is no program. -/
inductive ParseError where
  | expected (wanted found : TokenKind) (line : Nat)
  | expectedSection (found : TokenKind) (line : Nat)
  | inClassBody (found : TokenKind) (line : Nat)
  | missingResultType (line : Nat)
  | atStatement (found : TokenKind) (line : Nat)
  | expectedAssign (target : String) (line : Nat)
  | literalOutOfRange (digits : String) (line : Nat)
  | inExpression (found : TokenKind) (line : Nat)
  | notANumeral (text : String)
  | tooManyDigits (count : Nat)
  | pastEnd
  deriving DecidableEq

namespace ParseError

def message : ParseError → String
  | expected wanted found line =>
    s!"Expected token {wanted.name} but found {found.name} at line {line}"
  | expectedSection found line =>
    s!"Expected section or 'begin' but found {found.name} at line {line}"
  | inClassBody found line => s!"Unexpected token {found.name} in class body at line {line}"
  | missingResultType line => s!"Function declared without a result type at line {line}"
  | atStatement found line =>
    s!"Unexpected token {found.name} at start of statement at line {line}"
  | expectedAssign target line => s!"Expected ':=' after '{target}' at line {line}"
  | literalOutOfRange digits line => s!"Integer literal {digits} out of range at line {line}"
  | inExpression found line => s!"Unexpected token {found.name} in expression at line {line}"
  | notANumeral text => Text.notANumeralMessage text
  | tooManyDigits count => Text.tooManyDigitsMessage count
  | pastEnd => "list index out of range"

end ParseError

namespace Parser

/-- Fewer tokens than `ts`. -/
abbrev Fewer (ts : List Token) := { rest : List Token // rest.length < ts.length }

/-- No more tokens than `ts`. -/
abbrev NoMore (ts : List Token) := { rest : List Token // rest.length ≤ ts.length }

abbrev Result (α : Type) := Except ParseError α

def placeOf (src : Source) (t : Token) : Location :=
  src.place t.position.line t.position.column

/-- The next token, which stays. -/
def peek : List Token → Result Token
  | [] => .error .pastEnd
  | t :: _ => .ok t

/-- The next token, whatever it is. -/
def next (ts : List Token) : Result (Token × Fewer ts) :=
  match ts with
  | [] => .error .pastEnd
  | t :: rest => .ok (t, ⟨rest, by simp⟩)

/-- The next token, which must be of a kind. -/
def expect (kind : TokenKind) (ts : List Token) : Result (Token × Fewer ts) :=
  match ts with
  | [] => .error .pastEnd
  | t :: rest =>
    if t.kind = kind then .ok (t, ⟨rest, by simp⟩) else .error (.expected kind t.kind t.line)

/-- Takes the next token if it is of a kind. -/
def accept (kind : TokenKind) (ts : List Token) : Result (Option (Fewer ts)) :=
  match ts with
  | [] => .error .pastEnd
  | t :: rest => if t.kind = kind then .ok (some ⟨rest, by simp⟩) else .ok none

def methodKind? : TokenKind → Option MethodKind
  | .constructorKw => some .constructor
  | .destructorKw => some .destructor
  | .procedureKw => some .procedure
  | .functionKw => some .function
  | _ => none

def visibility? : TokenKind → Option Visibility
  | .publicKw => some .publ
  | .privateKw => some .priv
  | .protectedKw => some .prot
  | _ => none

/-- Whether a sign joins terms. Which operator it is, its text tells. -/
def isAdditive : TokenKind → Bool
  | .plus | .minus => true
  | _ => false

/-- The operator of a sign that joins factors, whatever its text. -/
def multiplicative? : TokenKind → Option Operator
  | .star => some .mul
  | .slash => some .div
  | .divKw => some .div
  | _ => none

/-- A name, and further names after commas. -/
def names (ts : List Token) : Result (List String × Fewer ts) := do
  let ⟨first, ts₁, h₁⟩ ← expect .ident ts
  match ← accept .comma ts₁ with
  | none => return ([first.text], ⟨ts₁, h₁⟩)
  | some ⟨ts₂, h₂⟩ =>
    let ⟨more, ts₃, h₃⟩ ← names ts₂
    return (first.text :: more, ⟨ts₃, by omega⟩)
termination_by ts.length

variable (src : Source)

/-- Names, a colon and a type. -/
def nameGroup (ts : List Token) : Result (NameGroup × Fewer ts) := do
  let first ← peek ts
  let ⟨ns, ts₁, h₁⟩ ← names ts
  let ⟨_, ts₂, h₂⟩ ← expect .colon ts₁
  let ⟨type, ts₃, h₃⟩ ← expect .ident ts₂
  return (⟨placeOf src first, ns, type.text⟩, ⟨ts₃, by omega⟩)

/-- Names, a colon, a type and a semicolon. -/
def nameGroupLine (ts : List Token) : Result (NameGroup × Fewer ts) := do
  let ⟨group, ts₁, h₁⟩ ← nameGroup src ts
  let ⟨_, ts₂, h₂⟩ ← expect .semi ts₁
  return (group, ⟨ts₂, by omega⟩)

/-- Parameter groups with semicolons between them. -/
def paramGroups (ts : List Token) : Result (List NameGroup × Fewer ts) := do
  let ⟨group, ts₁, h₁⟩ ← nameGroup src ts
  match ← accept .semi ts₁ with
  | none => return ([group], ⟨ts₁, h₁⟩)
  | some ⟨ts₂, h₂⟩ =>
    let ⟨more, ts₃, h₃⟩ ← paramGroups ts₂
    return (group :: more, ⟨ts₃, by omega⟩)
termination_by ts.length

/-- A parameter list in parentheses, or none at all. -/
def params (ts : List Token) : Result (List NameGroup × NoMore ts) := do
  match ← accept .lparen ts with
  | none => return ([], ⟨ts, by omega⟩)
  | some ⟨ts₁, h₁⟩ =>
    if (← peek ts₁).kind = .rparen then
      let ⟨_, ts₂, h₂⟩ ← expect .rparen ts₁
      return ([], ⟨ts₂, by omega⟩)
    else
      let ⟨groups, ts₂, h₂⟩ ← paramGroups src ts₁
      let ⟨_, ts₃, h₃⟩ ← expect .rparen ts₂
      return (groups, ⟨ts₃, by omega⟩)

/-- A colon and a type, which functions have and other methods do not. -/
def returnType (kind : MethodKind) (line : Nat) (ts : List Token) :
    Result (Option String × NoMore ts) := do
  if kind ≠ .function then return (none, ⟨ts, by omega⟩)
  else
    match ← accept .colon ts with
    | none => throw (.missingResultType line)
    | some ⟨ts₁, h₁⟩ =>
      let ⟨type, ts₂, h₂⟩ ← expect .ident ts₁
      return (some type.text, ⟨ts₂, by omega⟩)

/-- The rest of a method header, after the word `kindToken` that tells its kind. -/
def methodHeader (kindToken : Token) (kind : MethodKind) (ts : List Token) :
    Result (MethodHeader × Fewer ts) := do
  let ⟨name, ts₁, h₁⟩ ← expect .ident ts
  let ⟨ps, ts₂, h₂⟩ ← params src ts₁
  let ⟨type, ts₃, h₃⟩ ← returnType kind kindToken.line ts₂
  let ⟨_, ts₄, h₄⟩ ← expect .semi ts₃
  return (⟨placeOf src kindToken, kind, name.text, ps, type⟩, ⟨ts₄, by omega⟩)

def member (ts : List Token) : Result (Member × Fewer ts) := do
  let ⟨t, ts₁, h₁⟩ ← next ts
  match methodKind? t.kind with
  | some kind =>
    let ⟨header, ts₂, h₂⟩ ← methodHeader src t kind ts₁
    return (.method header, ⟨ts₂, by omega⟩)
  | none =>
    if t.kind = .ident then
      let ⟨group, ts₂, h₂⟩ ← nameGroupLine src ts
      return (.field group, ⟨ts₂, by omega⟩)
    else throw (.inClassBody t.kind t.line)

/-- Members up to the next visibility marker or the end of the class. -/
def markedMembers (ts : List Token) : Result (List Member × NoMore ts) := do
  let t ← peek ts
  if (visibility? t.kind).isSome || t.kind = .endKw then return ([], ⟨ts, by omega⟩)
  else
    let ⟨m, ts₁, h₁⟩ ← member src ts
    let ⟨ms, ts₂, h₂⟩ ← markedMembers ts₁
    return (m :: ms, ⟨ts₂, by omega⟩)
termination_by ts.length

/-- What a class body lists, up to the end of the class. -/
def classItems (ts : List Token) : Result (List ClassItem × NoMore ts) := do
  let ⟨t, ts₁, h₁⟩ ← next ts
  if t.kind = .endKw then return ([], ⟨ts, by omega⟩)
  else
    match visibility? t.kind with
    | some visibility =>
      let ⟨ms, ts₂, h₂⟩ ← markedMembers src ts₁
      let ⟨items, ts₃, h₃⟩ ← classItems ts₂
      return (.marked (placeOf src t) visibility ms :: items, ⟨ts₃, by omega⟩)
    | none =>
      let ⟨m, ts₂, h₂⟩ ← member src ts
      let ⟨items, ts₃, h₃⟩ ← classItems ts₂
      return (.member m :: items, ⟨ts₃, by omega⟩)
termination_by ts.length

def classDecl (ts : List Token) : Result (ClassDecl × Fewer ts) := do
  let ⟨name, ts₁, h₁⟩ ← expect .ident ts
  let ⟨_, ts₂, h₂⟩ ← expect .equals ts₁
  let ⟨_, ts₃, h₃⟩ ← expect .classKw ts₂
  let ⟨items, ts₄, h₄⟩ ← classItems src ts₃
  let ⟨_, ts₅, h₅⟩ ← expect .endKw ts₄
  let ⟨_, ts₆, h₆⟩ ← expect .semi ts₅
  return (⟨placeOf src name, name.text, items⟩, ⟨ts₆, by omega⟩)

/-- One class declaration, and more as long as a name follows. -/
def classDecls (ts : List Token) : Result (List ClassDecl × Fewer ts) := do
  let ⟨decl, ts₁, h₁⟩ ← classDecl src ts
  if (← peek ts₁).kind = .ident then
    let ⟨more, ts₂, h₂⟩ ← classDecls ts₁
    return (decl :: more, ⟨ts₂, by omega⟩)
  else return ([decl], ⟨ts₁, h₁⟩)
termination_by ts.length

/-- One variable declaration, and more as long as a name follows. -/
def varDecls (ts : List Token) : Result (List NameGroup × Fewer ts) := do
  let ⟨group, ts₁, h₁⟩ ← nameGroupLine src ts
  if (← peek ts₁).kind = .ident then
    let ⟨more, ts₂, h₂⟩ ← varDecls ts₁
    return (group :: more, ⟨ts₂, by omega⟩)
  else return ([group], ⟨ts₁, h₁⟩)
termination_by ts.length

/-- The members selected by what follows a name. -/
def selectors (ts : List Token) : Result (List String × NoMore ts) := do
  match ← accept .dot ts with
  | none => return ([], ⟨ts, by omega⟩)
  | some ⟨ts₁, h₁⟩ =>
    let ⟨name, ts₂, h₂⟩ ← expect .ident ts₁
    let ⟨more, ts₃, h₃⟩ ← selectors ts₂
    return (name.text :: more, ⟨ts₃, by omega⟩)
termination_by ts.length

def designator (ts : List Token) : Result (Designator × Fewer ts) := do
  let ⟨base, ts₁, h₁⟩ ← expect .ident ts
  let ⟨sels, ts₂, h₂⟩ ← selectors ts₁
  return (⟨placeOf src base, base.text, sels⟩, ⟨ts₂, by omega⟩)

/-- The value of a numeral, which must be one of the Integer type. Scanned numerals are decimal digits
throughout, and nothing else is taken for one here. -/
def literal (t : Token) : Result Expr := do
  let digits := t.text.toList
  if !Text.isNumeral digits then throw (.notANumeral t.text)
  if Text.maxDigits < digits.length then throw (.tooManyDigits digits.length)
  let value := Text.digitsValue digits
  if Word.maxValue < value then throw (.literalOutOfRange t.text t.line)
  return .literal (placeOf src t) value

mutual

/-- Terms joined by additive operators, which group to the left. -/
def expression (ts : List Token) : Result (Expr × Fewer ts) := do
  let ⟨first, ts₁, h₁⟩ ← term ts
  let ⟨e, ts₂, h₂⟩ ← sums first ts₁
  return (e, ⟨ts₂, by omega⟩)
termination_by (ts.length, 2)

def sums (left : Expr) (ts : List Token) : Result (Expr × NoMore ts) := do
  let ⟨t, ts₁, h₁⟩ ← next ts
  if isAdditive t.kind then
    let ⟨right, ts₂, h₂⟩ ← term ts₁
    let ⟨e, ts₃, h₃⟩ ← sums (.binary (placeOf src t) (.ofSymbol t.text) left right) ts₂
    return (e, ⟨ts₃, by omega⟩)
  else return (left, ⟨ts, by omega⟩)
termination_by (ts.length, 0)

/-- Factors joined by multiplicative operators, which group to the left. -/
def term (ts : List Token) : Result (Expr × Fewer ts) := do
  let ⟨first, ts₁, h₁⟩ ← factor ts
  let ⟨e, ts₂, h₂⟩ ← products first ts₁
  return (e, ⟨ts₂, by omega⟩)
termination_by (ts.length, 1)

def products (left : Expr) (ts : List Token) : Result (Expr × NoMore ts) := do
  let ⟨t, ts₁, h₁⟩ ← next ts
  match multiplicative? t.kind with
  | none => return (left, ⟨ts, by omega⟩)
  | some op =>
    let ⟨right, ts₂, h₂⟩ ← factor ts₁
    let ⟨e, ts₃, h₃⟩ ← products (.binary (placeOf src t) op left right) ts₂
    return (e, ⟨ts₃, by omega⟩)
termination_by (ts.length, 0)

/-- A numeral, an expression in parentheses, a call of a member, or a designator. -/
def factor (ts : List Token) : Result (Expr × Fewer ts) := do
  let ⟨t, ts₁, h₁⟩ ← next ts
  match t.kind with
  | .number => return (← literal src t, ⟨ts₁, h₁⟩)
  | .lparen =>
    let ⟨e, ts₂, h₂⟩ ← expression ts₁
    let ⟨_, ts₃, h₃⟩ ← expect .rparen ts₂
    return (.parens (placeOf src t) e, ⟨ts₃, by omega⟩)
  | .ident =>
    let ⟨d, ts₂, h₂⟩ ← designator src ts
    match d.selectors with
    | [name] =>
      if (← peek ts₂).kind = .lparen then
        let ⟨args, ts₃, h₃⟩ ← arguments ts₂
        return (.call d.location d.base name args, ⟨ts₃, by omega⟩)
      else return (.ref d, ⟨ts₂, h₂⟩)
    | _ =>
      return (.ref d, ⟨ts₂, h₂⟩)
  | _ => throw (.inExpression t.kind t.line)
termination_by (ts.length, 0)

/-- Arguments in parentheses. -/
def arguments (ts : List Token) : Result (List Expr × Fewer ts) := do
  let ⟨_, ts₁, h₁⟩ ← expect .lparen ts
  if (← peek ts₁).kind = .rparen then
    let ⟨_, ts₂, h₂⟩ ← expect .rparen ts₁
    return ([], ⟨ts₂, by omega⟩)
  else
    let ⟨args, ts₂, h₂⟩ ← expressions ts₁
    let ⟨_, ts₃, h₃⟩ ← expect .rparen ts₂
    return (args, ⟨ts₃, by omega⟩)
termination_by (ts.length, 0)

/-- Expressions with commas between them. -/
def expressions (ts : List Token) : Result (List Expr × Fewer ts) := do
  let ⟨e, ts₁, h₁⟩ ← expression ts
  match ← accept .comma ts₁ with
  | none => return ([e], ⟨ts₁, h₁⟩)
  | some ⟨ts₂, h₂⟩ =>
    let ⟨more, ts₃, h₃⟩ ← expressions ts₂
    return (e :: more, ⟨ts₃, by omega⟩)
termination_by (ts.length, 3)

end

/-- Arguments, if an opening parenthesis follows. -/
def optionalArguments (ts : List Token) : Result (List Expr × NoMore ts) := do
  if (← peek ts).kind = .lparen then
    let ⟨args, ts₁, h₁⟩ ← arguments src ts
    return (args, ⟨ts₁, by omega⟩)
  else return ([], ⟨ts, by omega⟩)

def statement (ts : List Token) : Result (Statement × Fewer ts) := do
  let t ← peek ts
  if t.kind ≠ .ident then throw (.atStatement t.kind t.line)
  let loc := placeOf src t
  let ⟨d, ts₁, h₁⟩ ← designator src ts
  match ← accept .assign ts₁ with
  | some ⟨ts₂, h₂⟩ =>
    let ⟨value, ts₃, h₃⟩ ← expression src ts₂
    return (.assignment loc d value, ⟨ts₃, by omega⟩)
  | none =>
    match d.selectors with
    | [] =>
      let ⟨args, ts₂, h₂⟩ ← optionalArguments src ts₁
      return (.procedureCall loc d.base args, ⟨ts₂, by omega⟩)
    | [name] =>
      let ⟨args, ts₂, h₂⟩ ← optionalArguments src ts₁
      return (.methodCall loc d.base name args, ⟨ts₂, by omega⟩)
    | _ => throw (.expectedAssign d.text t.line)

/-- Statements with semicolons between them, any number of these, up to the end of the block. -/
def statements (ts : List Token) : Result (List Statement × NoMore ts) := do
  let ⟨t, ts₁, h₁⟩ ← next ts
  if t.kind = .endKw then return ([], ⟨ts, by omega⟩)
  else if t.kind = .semi then
    let ⟨more, ts₂, h₂⟩ ← statements ts₁
    return (more, ⟨ts₂, by omega⟩)
  else
    let ⟨s, ts₂, h₂⟩ ← statement src ts
    if (← peek ts₂).kind = .endKw then return ([s], ⟨ts₂, by omega⟩)
    else
      let ⟨_, ts₃, h₃⟩ ← expect .semi ts₂
      let ⟨more, ts₄, h₄⟩ ← statements ts₃
      return (s :: more, ⟨ts₄, by omega⟩)
termination_by ts.length

def block (ts : List Token) : Result (Block × Fewer ts) := do
  let ⟨start, ts₁, h₁⟩ ← expect .beginKw ts
  let ⟨ss, ts₂, h₂⟩ ← statements src ts₁
  let ⟨_, ts₃, h₃⟩ ← expect .endKw ts₂
  return (⟨placeOf src start, ss⟩, ⟨ts₃, by omega⟩)

/-- The rest of a method implementation, after the word `kindToken` that tells its kind. -/
def methodImpl (kindToken : Token) (kind : MethodKind) (ts : List Token) :
    Result (MethodImpl × Fewer ts) := do
  let ⟨className, ts₁, h₁⟩ ← expect .ident ts
  let ⟨_, ts₂, h₂⟩ ← expect .dot ts₁
  let ⟨methodName, ts₃, h₃⟩ ← expect .ident ts₂
  let ⟨ps, ts₄, h₄⟩ ← params src ts₃
  let ⟨type, ts₅, h₅⟩ ← returnType kind kindToken.line ts₄
  let ⟨_, ts₆, h₆⟩ ← expect .semi ts₅
  let ⟨body, ts₇, h₇⟩ ← block src ts₆
  let ⟨_, ts₈, h₈⟩ ← expect .semi ts₇
  return (⟨placeOf src kindToken, kind, className.text, methodName.text, ps, type, body⟩,
    ⟨ts₈, by omega⟩)

/-- The declarations of a program, each sort by itself in the order of the text. -/
structure Declarations where
  classes : Option (Section ClassDecl) := none
  vars : Option (Section NameGroup) := none
  methods : Option (Section MethodImpl) := none

/-- Puts declarations in front of the later ones of their sort. -/
def prepend {α : Type} (loc : Location) (items : List α) (later : Option (Section α)) :
    Option (Section α) :=
  some ⟨loc, items ++ (later.elim [] Section.items)⟩

/-- Sections in any order, up to the main block. -/
def sections (ts : List Token) : Result (Declarations × NoMore ts) := do
  let ⟨t, ts₁, h₁⟩ ← next ts
  let loc := placeOf src t
  match t.kind with
  | .beginKw => return ({}, ⟨ts, by omega⟩)
  | .typeKw =>
    let ⟨decls, ts₂, h₂⟩ ← classDecls src ts₁
    let ⟨later, ts₃, h₃⟩ ← sections ts₂
    return ({ later with classes := prepend loc decls later.classes }, ⟨ts₃, by omega⟩)
  | .varKw =>
    let ⟨decls, ts₂, h₂⟩ ← varDecls src ts₁
    let ⟨later, ts₃, h₃⟩ ← sections ts₂
    return ({ later with vars := prepend loc decls later.vars }, ⟨ts₃, by omega⟩)
  | kindWord =>
    match methodKind? kindWord with
    | some kind =>
      let ⟨impl, ts₂, h₂⟩ ← methodImpl src t kind ts₁
      let ⟨later, ts₃, h₃⟩ ← sections ts₂
      return ({ later with methods := prepend loc [impl] later.methods }, ⟨ts₃, by omega⟩)
    | none => throw (.expectedSection t.kind t.line)
termination_by ts.length

/-- The name that a program may start with. -/
def title (ts : List Token) : Result (Option String × NoMore ts) := do
  match ← accept .programKw ts with
  | none => return (none, ⟨ts, by omega⟩)
  | some ⟨ts₁, h₁⟩ =>
    let ⟨name, ts₂, h₂⟩ ← expect .ident ts₁
    let ⟨_, ts₃, h₃⟩ ← expect .semi ts₂
    return (some name.text, ⟨ts₃, by omega⟩)

end Parser

/-- The program that a token list is. -/
def Program.ofTokens (src : Source) (ts : List Token) : Except ParseError Program := do
  let start ← Parser.peek ts
  let ⟨name, ts₁, _⟩ ← Parser.title ts
  let ⟨decls, ts₂, _⟩ ← Parser.sections src ts₁
  let ⟨main, ts₃, _⟩ ← Parser.block src ts₂
  let ⟨_, ts₄, _⟩ ← Parser.expect .dot ts₃
  let _ ← Parser.expect .eof ts₄
  return ⟨Parser.placeOf src start, name, decls.classes, decls.vars, decls.methods, main⟩

end ObjectPascal
