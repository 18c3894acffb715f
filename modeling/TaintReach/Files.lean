/-! Files as a program sees them.

`Files m` is what the program needs of a file system: whole files read and written
by path. A disk held in memory and the one of the machine both offer it. -/
namespace TaintReach

namespace Files

/-- Why a file cannot be read or written. -/
inductive Reason where
  | missing
  | isDirectory
  | notDirectory
  /-- Anything else, in the words of the system. -/
  | failed (text : String)
deriving DecidableEq, Repr

def Reason.message : Reason → String
  | .missing => "no such file or directory"
  | .isDirectory => "is a directory"
  | .notDirectory => "not a directory"
  | .failed text => text

/-- A file that could not be read or written. -/
structure Problem where
  /-- What was tried on the file. -/
  action : String
  path : String
  reason : Reason
deriving DecidableEq, Repr

namespace Problem

def message (p : Problem) : String := p.action ++ " " ++ p.path ++ ": " ++ p.reason.message

/-- The problem of reading a file. A directory can be opened but not read. -/
def reading (path : String) (reason : Reason) : Problem :=
  ⟨if reason = .isDirectory then "read" else "open", path, reason⟩

/-- The problem of writing a file, which shows when it is opened. -/
def writing (path : String) (reason : Reason) : Problem := ⟨"open", path, reason⟩

end Problem

end Files

/-- Reading and writing whole files. -/
class Files (m : Type → Type) where
  read : String → m (Except Files.Problem String)
  /-- Makes the file or replaces what it holds. -/
  write : String → String → m (Except Files.Problem Unit)

end TaintReach
