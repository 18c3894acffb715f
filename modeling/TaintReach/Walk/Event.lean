import TaintReach.Variable
import TaintReach.Node

/-! What a walk tells about itself as it goes. -/
namespace TaintReach.Walk

inductive Event where
  | opened (scope : String)
  | registered (id : String)
  | sourceMet (id : String) (line : Int)
  | sinkMet (line : Int) (id : String) (taint : Taint)
  | sinkMetThrough (line : Int) (id : String) (taint : Taint) (via : String)
  | guardClassified (kind : CondKind) (line : Int) (reach : Reachable)
  | summed (v : Variable)
  | cyclicDependencies (scope : String)
deriving Repr

namespace Event

/-- The heading an event opens a section with, if it does. -/
def section? : Event → Option String
  | .opened scope => some ("Scope " ++ scope)
  | _ => none

/-- Findings are set off by an arrow, headings by a rule. -/
def message : Event → String
  | .opened scope => "=== Scope " ++ scope ++ " ==="
  | .registered id => "register " ++ id
  | .sourceMet id line => "→ source " ++ id ++ " at line " ++ toString line
  | .sinkMet line id taint =>
    "→ sink at line " ++ toString line ++ ": " ++ id ++ " is " ++ taint.name
  | .sinkMetThrough line id taint via =>
    "→ sink at line " ++ toString line ++ ": " ++ id ++ " is " ++ taint.name ++ " through " ++ via
  | .guardClassified kind line reach =>
    kind.name ++ " at line " ++ toString line ++ " is " ++ reach.name
  | .summed v => "→ " ++ v.describe
  | .cyclicDependencies scope => "dependency cycle in " ++ scope

end Event

end TaintReach.Walk
