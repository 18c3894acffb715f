import TaintReach.Reachability

/-! Variables and the sets of variables they derive from.

A variable is known by its name inside one scope. Several scopes can exist side
by side, so each carries a number, its home, and a `VarRef` names a variable
across scopes. The dependents of a variable are kept flat: deriving from `o`
takes over what `o` derives from, and `o` itself only when it has nothing behind
it or is a source. -/
namespace TaintReach

/-- The text under which a thing first seen on a line is reported. -/
def idText (name : String) (line : Int) : String := name ++ "@" ++ toString line

/-- A variable as seen from any scope. -/
structure VarRef where
  home : Nat
  name : String
  line : Int
deriving DecidableEq, Repr

def VarRef.id (r : VarRef) : String := idText r.name r.line

structure Variable where
  home : Nat
  name : String
  /-- Where the variable was first registered. -/
  line : Int
  source : Bool := false
  taint : Taint := .clean
  reachable : Reachable := .always
  /-- The function does not declare the name itself. -/
  escaped : Bool := false
  /-- What the variable derives from, in order of insertion. -/
  dependents : List VarRef := []
deriving DecidableEq, Repr

namespace Variable

def ref (v : Variable) : VarRef := ⟨v.home, v.name, v.line⟩

def id (v : Variable) : String := idText v.name v.line

/-- Appends one dependent; the variable itself and repetitions are dropped. -/
def addDependent (v : Variable) (d : VarRef) : Variable :=
  if d = v.ref ∨ d ∈ v.dependents then v
  else { v with dependents := v.dependents ++ [d] }

/-- Records that `v` may derive from `o`. -/
def addDependency (v o : Variable) : Variable :=
  if o.ref = v.ref then v
  else if o.dependents = [] then v.addDependent o.ref
  else
    let absorbed := o.dependents.foldl addDependent v
    if o.source then absorbed.addDependent o.ref else absorbed

/-- Raises the verdict to what class `r` gives; `none` when that is no rise. -/
def promote? (v : Variable) (r : Reachable) : Option Variable :=
  if v.taint.rank < r.taint.rank then some { v with taint := r.taint } else none

/-- One line that sums the variable up. -/
def describe (v : Variable) : String :=
  v.id ++ "[source=" ++ toString v.source ++ " taint=" ++ v.taint.name ++
    " reachable=" ++ v.reachable.name ++ " deps=" ++ toString v.dependents.length ++ "]"

end Variable

end TaintReach
