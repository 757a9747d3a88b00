/-!
Tokens: the words of a program text with their places.
-/

namespace ObjectPascal

/-- A line and a column, both counted from 1. -/
structure Position where
  line : Nat := 1
  column : Nat := 1
  deriving DecidableEq, Inhabited

namespace Position

/-- Past one character: only a line feed opens a new line. -/
def advance (p : Position) (c : Char) : Position :=
  if c = '\n' then ⟨p.line + 1, 1⟩ else ⟨p.line, p.column + 1⟩

/-- Past a stretch of text. -/
def advanceAll (p : Position) (cs : List Char) : Position :=
  cs.foldl advance p

end Position

inductive TokenKind where
  | programKw
  | typeKw
  | classKw
  | endKw
  | varKw
  | beginKw
  | constructorKw
  | destructorKw
  | procedureKw
  | functionKw
  | publicKw
  | privateKw
  | protectedKw
  | divKw
  | lparen
  | rparen
  | comma
  | semi
  | dot
  | equals
  | plus
  | minus
  | star
  | slash
  | colon
  | assign
  | number
  | ident
  | eof
  deriving DecidableEq, Inhabited

namespace TokenKind

/-- The name of a kind in messages. -/
def name : TokenKind → String
  | programKw => "PROGRAM"
  | typeKw => "TYPE"
  | classKw => "CLASS"
  | endKw => "END"
  | varKw => "VAR"
  | beginKw => "BEGIN"
  | constructorKw => "CONSTRUCTOR"
  | destructorKw => "DESTRUCTOR"
  | procedureKw => "PROCEDURE"
  | functionKw => "FUNCTION"
  | publicKw => "PUBLIC"
  | privateKw => "PRIVATE"
  | protectedKw => "PROTECTED"
  | divKw => "DIV"
  | lparen => "LPAREN"
  | rparen => "RPAREN"
  | comma => "COMMA"
  | semi => "SEMI"
  | dot => "DOT"
  | equals => "EQUALS"
  | plus => "PLUS"
  | minus => "MINUS"
  | star => "STAR"
  | slash => "SLASH"
  | colon => "COLON"
  | assign => "ASSIGN"
  | number => "NUMBER"
  | ident => "IDENT"
  | eof => "EOF"

def keywords : List TokenKind :=
  [programKw, typeKw, classKw, endKw, varKw, beginKw, constructorKw, destructorKw, procedureKw,
    functionKw, publicKw, privateKw, protectedKw, divKw]

/-- The kind of a word: a keyword in any letter case, else an identifier. -/
def ofWord (cs : List Char) : TokenKind :=
  let upper := cs.map Char.toUpper
  (keywords.find? fun k => k.name.toList = upper).getD ident

/-- The kind of a symbol of one character. -/
def ofSymbol? (c : Char) : Option TokenKind :=
  match c with
  | '(' => some lparen
  | ')' => some rparen
  | ',' => some comma
  | ';' => some semi
  | '.' => some dot
  | '=' => some equals
  | '+' => some plus
  | '-' => some minus
  | '*' => some star
  | '/' => some slash
  | _ => none

end TokenKind

/-- A word of the program: its kind, its text as written, and where it starts. -/
structure Token where
  kind : TokenKind
  text : String
  position : Position
  deriving DecidableEq, Inhabited

namespace Token

abbrev line (t : Token) : Nat := t.position.line

end Token

end ObjectPascal
