import TaintReach.Fault
import TaintReach.Files
import TaintReach.Html.Script
import TaintReach.Path
import TaintReach.Script.Reading

/-! Inputs of a run and the scripts in them.

An input is a file, or a text that is given outright. A page is taken apart into its
inline scripts; anything else is one script. Files are told apart by their
extension, a text without a path by what it looks like. -/
namespace TaintReach

structure Input where
  /-- Empty for the standard input. -/
  path : String := ""
  /-- Read from the path if it is not given. -/
  content : Option String := none
deriving DecidableEq, Repr

namespace Input

/-- The name of an input in logs and messages. -/
def name (i : Input) : String := if i.path = "" then "<stdin>" else i.path

/-- What keeps an input from being reported. -/
inductive Problem where
  | stdin (reason : String)
  | unreadable (problem : Files.Problem)
  /-- A script in it is none. -/
  | malformed (script : String)
  | unanalysable (input : String) (faults : List Fault)
  | unwritable (problem : Files.Problem)
deriving DecidableEq, Repr

def Problem.message : Problem → String
  | .stdin reason => "read stdin: " ++ reason
  | .unreadable problem => "read " ++ problem.path ++ ": " ++ problem.message
  | .malformed script => "parse " ++ script ++ ": <syntax error>"
  | .unanalysable input faults =>
    "analyse " ++ input ++ ": " ++ "\n".intercalate (faults.map Fault.message)
  | .unwritable problem => "write " ++ problem.path ++ ": " ++ problem.message

/-! ### From the command line -/

/-- Paths without empty ones, each once, where it stands first. -/
def distinctPaths (paths : List String) : List String :=
  paths.foldl (fun seen p => if p = "" || p ∈ seen then seen else seen ++ [p]) []

/-- The inputs that paths name; without any the standard input is read. -/
def ofPaths {m : Type → Type} [Monad m] (stdin : m (Except String String)) (paths : List String) :
    m (Except Problem (List Input)) :=
  match distinctPaths paths with
  | [] => return (← stdin).mapError Problem.stdin |>.map fun text => [{ content := some text }]
  | paths => return .ok (paths.map fun path => { path })

/-! ### Scripts -/

/-- Extensions of pages. -/
def pageExtensions : List String := [".html", ".htm"]

/-- Whether an input that holds a text is a page. -/
def isPage (i : Input) (text : String) : Bool :=
  if i.path = "" then Html.looksLikePage text
  else Text.lower (Path.extension i.path) ∈ pageExtensions

/-- A script in an input, with the name it goes by. -/
structure Piece where
  name : String
  code : String
deriving DecidableEq, Repr

/-- The scripts in an input that holds a text. -/
def pieces (i : Input) (text : String) : List Piece :=
  if i.isPage text then (Html.scripts text).map fun s => ⟨s.name i.name, s.source⟩
  else [⟨i.name, text⟩]

/-- The text of an input. -/
def text {m : Type → Type} [Monad m] [Files m] (i : Input) : m (Except Problem String) :=
  match i.content with
  | some text => return .ok text
  | none => return (← Files.read i.path).mapError Problem.unreadable

end Input

end TaintReach
