import TaintReach.Text.Split

/-! Paths, their extensions, and where the report of a file goes. -/
namespace TaintReach.Path

/-- Splits a path in front of the last point of its last name, if there is one. -/
def splitExtension (path : String) : String × String :=
  let name := path.toList.reverse.takeWhile (· ≠ '/')
  if name.contains '.' then
    let length := path.length - ((name.takeWhile (· ≠ '.')).length + 1)
    (String.ofList (path.toList.take length), String.ofList (path.toList.drop length))
  else (path, "")

/-- The extension of a path with its point, or nothing. -/
def extension (path : String) : String := (splitExtension path).2

/-- Adds a name to the names of a path, which come in reverse; two points take one
away, except at the front of a path that starts nowhere. -/
def step (rooted : Bool) (names : List (List Char)) (name : List Char) : List (List Char) :=
  if name = [] || name = ['.'] then names
  else if name = ['.', '.'] then
    match names with
    | [] => if rooted then [] else [name]
    | last :: rest => if last = name then name :: names else rest
  else name :: names

/-- A path without names that lead nowhere; a point if nothing is left. -/
def clean (cs : List Char) : List Char :=
  let rooted := cs.head? = some '/'
  let names := (Text.split '/' cs).foldl (step rooted) []
  let joined := ['/'].intercalate names.reverse
  if rooted then '/' :: joined else if joined.isEmpty then ['.'] else joined

/-- The path of the directory a file is in. -/
def directory (cs : List Char) : List Char :=
  clean ((cs.reverse.dropWhile (· ≠ '/')).reverse)

/-- What takes the place of the extension in the path of a file's own report. -/
def reportSuffix : String := "_out.json"

/-- Where the report of a file goes that is written beside it. -/
def sibling (path : String) : String := (splitExtension path).1 ++ reportSuffix

end TaintReach.Path
