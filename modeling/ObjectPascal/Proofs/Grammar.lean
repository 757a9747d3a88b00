import ObjectPascal.Program.Parser

/-!
The grammar of the language, as a relation between stretches of tokens and the trees they stand
for. It says nothing of how a tree is found: repetitions have no greedy reading, and the operators
are given by left-recursive rules.
-/

namespace ObjectPascal

/-- A section of a program as it stands in the text. -/
inductive Part where
  | classes (location : Location) (decls : List ClassDecl)
  | vars (location : Location) (groups : List NameGroup)
  | method (location : Location) (impl : MethodImpl)

namespace Part

def classes? : Part → Option (Location × List ClassDecl)
  | classes location decls => some (location, decls)
  | _ => none

def vars? : Part → Option (Location × List NameGroup)
  | vars location groups => some (location, groups)
  | _ => none

def method? : Part → Option (Location × List MethodImpl)
  | method location impl => some (location, [impl])
  | _ => none

/-- Sections of one sort become one, which stands at the place of the first. -/
def merge {α : Type} : List (Location × List α) → Option (Section α)
  | [] => none
  | (location, items) :: more => some ⟨location, items ++ more.flatMap Prod.snd⟩

end Part

/-- The program made of a name, of sections in any order, and of a main block. -/
def Program.ofParts (location : Location) (name : Option String) (parts : List Part)
    (block : Block) : Program where
  location := location
  name := name
  classes := Part.merge (parts.filterMap Part.classes?)
  vars := Part.merge (parts.filterMap Part.vars?)
  methods := Part.merge (parts.filterMap Part.method?)
  block := block

namespace Grammar

open ObjectPascal.Parser (placeOf)

inductive Nonterminal where
  | names
  | group
  | groups
  | params
  | resultType (kind : MethodKind)
  | header
  | member
  | members
  | marked
  | classDecl
  | classDecls
  | varDecls
  | selectors
  | designator
  | factor
  | term
  | expr
  | exprs
  | arguments
  | optionalArguments
  | statement
  | optionalStatement
  | statements
  | block
  | impl
  | part
  | parts
  | title
  | program

/-- What a stretch of tokens of a sort stands for. -/
def Nonterminal.Tree : Nonterminal → Type
  | names | selectors => List String
  | group => NameGroup
  | groups | params | varDecls => List NameGroup
  | resultType _ | title => Option String
  | header => MethodHeader
  | member => Member
  | members => List Member
  | marked => List ClassItem
  | classDecl => ClassDecl
  | classDecls => List ClassDecl
  | designator => Designator
  | factor | term | expr => Expr
  | exprs | arguments | optionalArguments => List Expr
  | statement => Statement
  | optionalStatement | statements => List Statement
  | block => Block
  | impl => MethodImpl
  | part => Part
  | parts => List Part
  | program => Program

def methodWords : List (TokenKind × MethodKind) :=
  [(.constructorKw, .constructor), (.destructorKw, .destructor), (.procedureKw, .procedure),
    (.functionKw, .function)]

def markers : List (TokenKind × Visibility) :=
  [(.publicKw, .publ), (.privateKw, .priv), (.protectedKw, .prot)]

/-- Their texts tell which operators they are. -/
def additiveSigns : List TokenKind :=
  [.plus, .minus]

/-- The word `div` is another sign for the same division. -/
def multiplicativeSigns : List (TokenKind × Operator) :=
  [(.star, .mul), (.slash, .div), (.divKw, .div)]

/-- `Derives src n ts tree`: the tokens `ts`, all of them, are an `n` and stand for `tree`. -/
inductive Derives (src : Source) : (n : Nonterminal) → List Token → n.Tree → Prop
  | lastName {t : Token} (ht : t.kind = .ident) : Derives src .names [t] [t.text]
  | name {t comma : Token} {ts : List Token} {ns : List String} (ht : t.kind = .ident)
      (hc : comma.kind = .comma) (hs : Derives src .names ts ns) :
      Derives src .names (t :: comma :: ts) (t.text :: ns)
  | group {t colon type : Token} {ts : List Token} {ns : List String}
      (hs : Derives src .names (t :: ts) ns) (hc : colon.kind = .colon)
      (ht : type.kind = .ident) :
      Derives src .group (t :: ts ++ [colon, type]) ⟨placeOf src t, ns, type.text⟩
  | lastGroup {ts : List Token} {g : NameGroup} (hg : Derives src .group ts g) :
      Derives src .groups ts [g]
  | moreGroups {semi : Token} {ts ts' : List Token} {g : NameGroup} {gs : List NameGroup}
      (hg : Derives src .group ts g) (hs : semi.kind = .semi) (hm : Derives src .groups ts' gs) :
      Derives src .groups (ts ++ semi :: ts') (g :: gs)
  | noParams : Derives src .params [] []
  | emptyParams {l r : Token} (hl : l.kind = .lparen) (hr : r.kind = .rparen) :
      Derives src .params [l, r] []
  | params {l r : Token} {ts : List Token} {gs : List NameGroup} (hl : l.kind = .lparen)
      (hg : Derives src .groups ts gs) (hr : r.kind = .rparen) :
      Derives src .params (l :: ts ++ [r]) gs
  -- a result type is there exactly for a function
  | resultType {colon type : Token} (hc : colon.kind = .colon) (ht : type.kind = .ident) :
      Derives src (.resultType .function) [colon, type] (some type.text)
  | noResultType {kind : MethodKind} (hk : kind ≠ .function) :
      Derives src (.resultType kind) [] none
  | header {word name semi : Token} {kind : MethodKind} {ts ts' : List Token}
      {ps : List NameGroup} {type : Option String} (hw : (word.kind, kind) ∈ methodWords)
      (hn : name.kind = .ident) (hp : Derives src .params ts ps)
      (ht : Derives src (.resultType kind) ts' type) (hs : semi.kind = .semi) :
      Derives src .header (word :: name :: ts ++ ts' ++ [semi])
        ⟨placeOf src word, kind, name.text, ps, type⟩
  | field {semi : Token} {ts : List Token} {g : NameGroup} (hg : Derives src .group ts g)
      (hs : semi.kind = .semi) : Derives src .member (ts ++ [semi]) (.field g)
  | method {ts : List Token} {h : MethodHeader} (hh : Derives src .header ts h) :
      Derives src .member ts (.method h)
  | noMembers : Derives src .members [] []
  | moreMembers {ts ts' : List Token} {m : Member} {ms : List Member}
      (hm : Derives src .member ts m) (hs : Derives src .members ts' ms) :
      Derives src .members (ts ++ ts') (m :: ms)
  | noMarked : Derives src .marked [] []
  -- members after a marker are the marker's, up to the next marker
  | moreMarked {marker : Token} {visibility : Visibility} {ts ts' : List Token}
      {ms : List Member} {items : List ClassItem} (hv : (marker.kind, visibility) ∈ markers)
      (hm : Derives src .members ts ms) (hi : Derives src .marked ts' items) :
      Derives src .marked (marker :: ts ++ ts')
        (.marked (placeOf src marker) visibility ms :: items)
  | classDecl {name equals word last semi : Token} {ts ts' : List Token} {ms : List Member}
      {items : List ClassItem} (hn : name.kind = .ident) (he : equals.kind = .equals)
      (hc : word.kind = .classKw) (hm : Derives src .members ts ms)
      (hi : Derives src .marked ts' items) (hl : last.kind = .endKw) (hs : semi.kind = .semi) :
      Derives src .classDecl (name :: equals :: word :: ts ++ ts' ++ [last, semi])
        ⟨placeOf src name, name.text, ms.map .member ++ items⟩
  | lastClass {ts : List Token} {d : ClassDecl} (hd : Derives src .classDecl ts d) :
      Derives src .classDecls ts [d]
  | moreClasses {ts ts' : List Token} {d : ClassDecl} {ds : List ClassDecl}
      (hd : Derives src .classDecl ts d) (hs : Derives src .classDecls ts' ds) :
      Derives src .classDecls (ts ++ ts') (d :: ds)
  | lastVar {semi : Token} {ts : List Token} {g : NameGroup} (hg : Derives src .group ts g)
      (hs : semi.kind = .semi) : Derives src .varDecls (ts ++ [semi]) [g]
  | moreVars {semi : Token} {ts ts' : List Token} {g : NameGroup} {gs : List NameGroup}
      (hg : Derives src .group ts g) (hs : semi.kind = .semi)
      (hm : Derives src .varDecls ts' gs) :
      Derives src .varDecls (ts ++ semi :: ts') (g :: gs)
  | noSelectors : Derives src .selectors [] []
  | selector {dot name : Token} {ts : List Token} {names : List String} (hd : dot.kind = .dot)
      (hn : name.kind = .ident) (hs : Derives src .selectors ts names) :
      Derives src .selectors (dot :: name :: ts) (name.text :: names)
  | designator {base : Token} {ts : List Token} {names : List String} (hb : base.kind = .ident)
      (hs : Derives src .selectors ts names) :
      Derives src .designator (base :: ts) ⟨placeOf src base, base.text, names⟩
  | literal {t : Token} (ht : t.kind = .number) (hd : Text.isNumeral t.text.toList)
      (hv : (Text.digitsValue t.text.toList : Int) ≤ Word.maxValue) :
      Derives src .factor [t] (.literal (placeOf src t) (Text.digitsValue t.text.toList))
  | parens {l r : Token} {ts : List Token} {e : Expr} (hl : l.kind = .lparen)
      (he : Derives src .expr ts e) (hr : r.kind = .rparen) :
      Derives src .factor (l :: ts ++ [r]) (.parens (placeOf src l) e)
  | call {left dot member : Token} {ts : List Token} {args : List Expr}
      (hl : left.kind = .ident) (hd : dot.kind = .dot) (hm : member.kind = .ident)
      (ha : Derives src .arguments ts args) :
      Derives src .factor (left :: dot :: member :: ts)
        (.call (placeOf src left) left.text member.text args)
  | ref {ts : List Token} {d : Designator} (hd : Derives src .designator ts d) :
      Derives src .factor ts (.ref d)
  | factor {ts : List Token} {e : Expr} (he : Derives src .factor ts e) : Derives src .term ts e
  | product {sign : Token} {op : Operator} {ts ts' : List Token} {a b : Expr}
      (ha : Derives src .term ts a) (hs : (sign.kind, op) ∈ multiplicativeSigns)
      (hb : Derives src .factor ts' b) :
      Derives src .term (ts ++ sign :: ts') (.binary (placeOf src sign) op a b)
  | term {ts : List Token} {e : Expr} (he : Derives src .term ts e) : Derives src .expr ts e
  | sum {sign : Token} {ts ts' : List Token} {a b : Expr} (ha : Derives src .expr ts a)
      (hs : sign.kind ∈ additiveSigns) (hb : Derives src .term ts' b) :
      Derives src .expr (ts ++ sign :: ts') (.binary (placeOf src sign) (.ofSymbol sign.text) a b)
  | lastExpr {ts : List Token} {e : Expr} (he : Derives src .expr ts e) :
      Derives src .exprs ts [e]
  | moreExprs {comma : Token} {ts ts' : List Token} {e : Expr} {es : List Expr}
      (he : Derives src .expr ts e) (hc : comma.kind = .comma) (hs : Derives src .exprs ts' es) :
      Derives src .exprs (ts ++ comma :: ts') (e :: es)
  | emptyArguments {l r : Token} (hl : l.kind = .lparen) (hr : r.kind = .rparen) :
      Derives src .arguments [l, r] []
  | arguments {l r : Token} {ts : List Token} {es : List Expr} (hl : l.kind = .lparen)
      (he : Derives src .exprs ts es) (hr : r.kind = .rparen) :
      Derives src .arguments (l :: ts ++ [r]) es
  | noArguments : Derives src .optionalArguments [] []
  | someArguments {ts : List Token} {es : List Expr} (he : Derives src .arguments ts es) :
      Derives src .optionalArguments ts es
  | assignment {sign : Token} {ts ts' : List Token} {d : Designator} {e : Expr}
      (hd : Derives src .designator ts d) (hs : sign.kind = .assign)
      (he : Derives src .expr ts' e) :
      Derives src .statement (ts ++ sign :: ts') (.assignment d.location d e)
  | methodCall {left dot member : Token} {ts : List Token} {args : List Expr}
      (hl : left.kind = .ident) (hd : dot.kind = .dot) (hm : member.kind = .ident)
      (ha : Derives src .optionalArguments ts args) :
      Derives src .statement (left :: dot :: member :: ts)
        (.methodCall (placeOf src left) left.text member.text args)
  | procedureCall {name : Token} {ts : List Token} {args : List Expr} (hn : name.kind = .ident)
      (ha : Derives src .optionalArguments ts args) :
      Derives src .statement (name :: ts) (.procedureCall (placeOf src name) name.text args)
  | noStatement : Derives src .optionalStatement [] []
  | someStatement {ts : List Token} {s : Statement} (hs : Derives src .statement ts s) :
      Derives src .optionalStatement ts [s]
  | lastStatement {ts : List Token} {ss : List Statement}
      (hs : Derives src .optionalStatement ts ss) : Derives src .statements ts ss
  | moreStatements {semi : Token} {ts ts' : List Token} {ss ss' : List Statement}
      (hs : Derives src .optionalStatement ts ss) (h : semi.kind = .semi)
      (hm : Derives src .statements ts' ss') :
      Derives src .statements (ts ++ semi :: ts') (ss ++ ss')
  | block {first last : Token} {ts : List Token} {ss : List Statement}
      (hf : first.kind = .beginKw) (hs : Derives src .statements ts ss)
      (hl : last.kind = .endKw) :
      Derives src .block (first :: ts ++ [last]) ⟨placeOf src first, ss⟩
  | impl {word className dot name semi semi' : Token} {kind : MethodKind}
      {ts ts' body : List Token} {ps : List NameGroup} {type : Option String} {b : Block}
      (hw : (word.kind, kind) ∈ methodWords) (hc : className.kind = .ident)
      (hd : dot.kind = .dot) (hn : name.kind = .ident) (hp : Derives src .params ts ps)
      (ht : Derives src (.resultType kind) ts' type) (hs : semi.kind = .semi)
      (hb : Derives src .block body b) (hs' : semi'.kind = .semi) :
      Derives src .impl
        (word :: className :: dot :: name :: ts ++ ts' ++ semi :: body ++ [semi'])
        ⟨placeOf src word, kind, className.text, name.text, ps, type, b⟩
  | classPart {word : Token} {ts : List Token} {ds : List ClassDecl} (hw : word.kind = .typeKw)
      (hd : Derives src .classDecls ts ds) :
      Derives src .part (word :: ts) (.classes (placeOf src word) ds)
  | varPart {word : Token} {ts : List Token} {gs : List NameGroup} (hw : word.kind = .varKw)
      (hg : Derives src .varDecls ts gs) :
      Derives src .part (word :: ts) (.vars (placeOf src word) gs)
  | methodPart {ts : List Token} {m : MethodImpl} (hm : Derives src .impl ts m) :
      Derives src .part ts (.method m.location m)
  | noParts : Derives src .parts [] []
  | moreParts {ts ts' : List Token} {p : Part} {ps : List Part} (hp : Derives src .part ts p)
      (hs : Derives src .parts ts' ps) : Derives src .parts (ts ++ ts') (p :: ps)
  | noTitle : Derives src .title [] none
  | title {word name semi : Token} (hw : word.kind = .programKw) (hn : name.kind = .ident)
      (hs : semi.kind = .semi) : Derives src .title [word, name, semi] (some name.text)
  | program {first dot : Token} {ts ts' body : List Token} {name : Option String}
      {parts : List Part} {b : Block} (ht : Derives src .title ts name)
      (hp : Derives src .parts ts' parts) (hb : Derives src .block body b)
      (hf : (ts ++ ts' ++ body).head? = some first) (hd : dot.kind = .dot) :
      Derives src .program (ts ++ ts' ++ body ++ [dot])
        (.ofParts (placeOf src first) name parts b)

end Grammar

end ObjectPascal
