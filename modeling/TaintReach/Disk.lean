import TaintReach.Files
import TaintReach.Text.Split

/-! A disk held in memory.

Entries are kept by their path below the root, as a list of names. A directory is
there if it was made, if something lies in it, or if the working directory is it or
lies in it. Paths start from the root or from the working directory, may hold empty
names and dots, and may step back up. -/
namespace TaintReach

inductive Disk.Entry where
  | file (content : String)
  | directory
deriving DecidableEq, Repr

structure Disk where
  entries : List (List String × Disk.Entry) := []
  /-- The place of the working directory. -/
  base : List String := []
deriving Repr

namespace Disk

def isDirectory (d : Disk) (place : List String) : Bool :=
  place.isPrefixOf d.base || d.entries.any fun (path, entry) =>
    (path = place && entry = .directory) || (place.isPrefixOf path && path ≠ place)

def content? (d : Disk) (place : List String) : Option String :=
  match d.entries.lookup place with
  | some (.file content) => some content
  | _ => none

/-- What stands between the slashes of a path. -/
def components (path : String) : List String := (Text.split '/' path.toList).map String.ofList

/-- Follows names from a place. All but the last have to be directories. -/
def locate (d : Disk) (place : List String) : List String → Except Files.Reason (List String)
  | [] => .ok place
  | name :: rest =>
    if d.isDirectory place then
      if name = "" || name = "." then locate d place rest
      else if name = ".." then locate d place.dropLast rest
      else locate d (place ++ [name]) rest
    else if (d.content? place).isSome then .error .notDirectory
    else .error .missing

/-- Where a path starts: at the root behind a slash, else in the working directory. -/
def origin (d : Disk) (path : String) : List String :=
  if path.toList.head? = some '/' then [] else d.base

/-- The place a path names. Nothing lies above the root. -/
def resolve (d : Disk) (path : String) : Except Files.Reason (List String) :=
  if path = "" then .error .missing else d.locate (d.origin path) (components path)

def read (d : Disk) (path : String) : Except Files.Problem String :=
  match d.resolve path with
  | .error r => .error (.reading path r)
  | .ok place =>
    match d.content? place with
    | some content => .ok content
    | none => .error (.reading path (if d.isDirectory place then .isDirectory else .missing))

/-- Puts an entry at a place, in the stead of one that is there. -/
def put (d : Disk) (place : List String) (entry : Entry) : Disk :=
  if d.entries.any (·.1 = place) then
    { d with entries := d.entries.map fun e => if e.1 = place then (place, entry) else e }
  else { d with entries := d.entries ++ [(place, entry)] }

def write (d : Disk) (path content : String) : Except Files.Problem Unit × Disk :=
  match d.resolve path with
  | .error r => (.error (.writing path r), d)
  | .ok place =>
    if d.isDirectory place then (.error (.writing path .isDirectory), d)
    else (.ok (), d.put place (.file content))

/-- The names of a path, without those that lead nowhere. -/
def names (path : String) : List String :=
  (components path).filter fun n => n ≠ "" && n ≠ "."

/-- The place that the names of a path lead to, if all of them lead down. -/
def below (d : Disk) (path : String) : List String := d.origin path ++ names path

/-- A disk that holds the given files, and directories where there is no content. The
working directory is not the root. -/
def ofFiles (files : List (String × Option String)) : Disk :=
  files.foldl (fun d (path, content) =>
    d.put (d.below path) (content.elim .directory .file)) { base := ["work"] }

/-- Files in the working directory that are not as they were before, by path. -/
def changes (before after : Disk) : List (String × String) :=
  after.entries.filterMap fun (place, entry) =>
    match entry with
    | .file content =>
      if before.content? place = some content || !after.base.isPrefixOf place then none
      else some ("/".intercalate (place.drop after.base.length), content)
    | .directory => none

instance : Files (StateM Disk) where
  read path := return (← get).read path
  write path content := fun d => d.write path content

end Disk

end TaintReach
