/-!
Absolute file paths in normal form.
-/

namespace ObjectPascal.Text.Path

/-- The parts of a path between slashes, `cur` being the part being read, backwards. -/
def partsFrom (cur : List Char) : List Char → List String
  | [] => [String.ofList cur.reverse]
  | c :: cs =>
    if c = '/' then String.ofList cur.reverse :: partsFrom [] cs else partsFrom (c :: cur) cs

/-- Adds one part to the parts kept so far (innermost first): empty parts and `.` add nothing, and
`..` drops the part before it, or nothing at the root. -/
def climb (kept : List String) (part : String) : List String :=
  if part = "" || part = "." then kept
  else if part = ".." then kept.tail
  else part :: kept

/-- An absolute path without empty parts, `.` and `..`. Exactly two leading slashes stay two. -/
def collapse (path : String) : String :=
  let cs := path.toList
  let root :=
    match cs with
    | '/' :: '/' :: '/' :: _ => "/"
    | '/' :: '/' :: _ => "//"
    | _ => "/"
  root ++ String.intercalate "/" ((partsFrom [] cs).foldl climb []).reverse

/-- The path itself if it starts at the root, else the path taken from `dir`; in normal form. -/
def absolute (dir path : String) : String :=
  if path.toList.head? = some '/' then collapse path
  else collapse (dir ++ "/" ++ path)

end ObjectPascal.Text.Path
