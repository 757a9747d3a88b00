import ObjectPascal.Token
import ObjectPascal.Text.Decimal

/-!
From text to tokens. A text is cut into pieces from left to right; a piece is a token, a run of
blanks or a comment, and the latter two leave no trace but in positions.
-/

namespace ObjectPascal

inductive ScanProblem where
  | unexpectedCharacter (c : Char)
  | unterminatedComment
  | malformedNumber
  deriving DecidableEq

/-- Why a text has no token list, and where the piece at fault starts. -/
structure ScanError where
  problem : ScanProblem
  position : Position
  deriving DecidableEq

namespace ScanError

def message (file : String) (e : ScanError) : String :=
  let what :=
    match e.problem with
    | .unexpectedCharacter c => "Unexpected character '" ++ String.singleton c ++ "'"
    | .unterminatedComment => "Unterminated comment"
    | .malformedNumber => "Malformed number"
  s!"{what} at {file}:{e.position.line}:{e.position.column}"

end ScanError

namespace Scan

def isBlank (c : Char) : Bool :=
  c = ' ' || c = '\t' || c = '\r' || c = '\n'

def isWordStart (c : Char) : Bool :=
  c = '_' || ('a' ≤ c && c ≤ 'z') || ('A' ≤ c && c ≤ 'Z')

def isWordPart (c : Char) : Bool :=
  isWordStart c || Text.isDigit c

/-- The text up to and with the first closing brace. -/
def throughBrace? : List Char → Option (List Char)
  | [] => none
  | '\x7d' :: _ => some ['\x7d']
  | c :: cs => (throughBrace? cs).map (c :: ·)

/-- The text up to and with the first star that a closing parenthesis follows, and that. -/
def throughStarParen? : List Char → Option (List Char)
  | [] => none
  | '*' :: ')' :: _ => some ['*', ')']
  | c :: cs => (throughStarParen? cs).map (c :: ·)

/-- A piece of text: what it is as a token (`none` for blanks or a comment) and its characters
after the first. -/
structure Piece where
  kind : Option TokenKind
  tail : List Char
  deriving DecidableEq

/-- The piece that a text starts with. -/
def firstPiece (c : Char) (rest : List Char) : Except ScanProblem Piece :=
  if isBlank c then .ok ⟨none, rest.takeWhile isBlank⟩
  else if c = '\x7b' then
    match throughBrace? rest with
    | some tail => .ok ⟨none, tail⟩
    | none => .error .unterminatedComment
  else if c = '(' ∧ rest.head? = some '*' then
    match throughStarParen? rest.tail with
    | some tail => .ok ⟨none, '*' :: tail⟩
    | none => .error .unterminatedComment
  else if c = '/' ∧ rest.head? = some '/' then .ok ⟨none, rest.takeWhile (· ≠ '\n')⟩
  else if c = ':' then
    if rest.head? = some '=' then .ok ⟨some .assign, ['=']⟩ else .ok ⟨some .colon, []⟩
  else if Text.isDigit c then
    if (rest.dropWhile Text.isDigit).head?.any isWordStart then .error .malformedNumber
    else .ok ⟨some .number, rest.takeWhile Text.isDigit⟩
  else if isWordStart c then
    let tail := rest.takeWhile isWordPart
    .ok ⟨some (TokenKind.ofWord (c :: tail)), tail⟩
  else
    match TokenKind.ofSymbol? c with
    | some kind => .ok ⟨some kind, []⟩
    | none => .error (.unexpectedCharacter c)

/-- The tokens of a text that starts at a position, with the end marker. -/
def tokensFrom (p : Position) (cs : List Char) : Except ScanError (List Token) :=
  match cs with
  | [] => .ok [⟨.eof, "", p⟩]
  | c :: rest =>
    match firstPiece c rest with
    | .error problem => .error ⟨problem, p⟩
    | .ok ⟨kind, tail⟩ =>
      match tokensFrom (p.advanceAll (c :: tail)) (rest.drop tail.length) with
      | .error e => .error e
      | .ok tokens =>
        match kind with
        | none => .ok tokens
        | some kind => .ok (⟨kind, String.ofList (c :: tail), p⟩ :: tokens)
termination_by cs.length

end Scan

/-- The tokens of a program text, ending in the end marker. -/
def scan (text : String) : Except ScanError (List Token) :=
  Scan.tokensFrom {} text.toList

end ObjectPascal
