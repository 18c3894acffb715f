/-! Why a scope cannot be analysed at all. -/
namespace TaintReach

inductive FaultKind where
  /-- The tree is broken: something is missing, or it stands below itself. -/
  | malformedInput
  | unknown (code : Int)
deriving DecidableEq, Repr

namespace FaultKind

def ofCode (code : Int) : FaultKind :=
  if code = 1 then .malformedInput else .unknown code

def name : FaultKind → String
  | .malformedInput => "MalformedInput"
  | .unknown code => "ErrorKind(" ++ toString code ++ ")"

end FaultKind

structure Fault where
  kind : FaultKind
  scope : String
  line : Int
  reason : String
deriving DecidableEq, Repr

namespace Fault

def malformed (scope : String) (line : Int) (reason : String) : Fault :=
  ⟨.malformedInput, scope, line, reason⟩

def isMalformed (f : Fault) : Bool := f.kind = .malformedInput

/-- A line that is not positive is not told. -/
def message (f : Fault) : String :=
  "analysis of " ++ f.scope ++ " failed (" ++ f.kind.name ++ "): " ++ f.reason ++
    (if 0 < f.line then " at line " ++ toString f.line else "")

end Fault

end TaintReach
