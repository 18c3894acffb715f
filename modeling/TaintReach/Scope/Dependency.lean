import TaintReach.Scope

/-! The dependency relation of a scope as a directed graph.

Variables are numbered in order of registration, and an edge leads from each
dependent to the variable that derives from it. Dependents that live in another
scope have no number and no edge. `Scope.acyclic` looks for cycles among the bare
numbers; `Scope.dependencyGraph?` makes the graph that is shown, node by node and
edge by edge. -/
namespace TaintReach

namespace Scope

/-! ### The search for cycles -/

/-- The numbers of the variables that the `i`-th variable derives from. -/
def predecessors (s : Scope) (v : Variable) : List Nat :=
  v.dependents.filterMap fun d => s.vars.findIdx? (·.ref = d)

/-- Edges from dependency to derived variable, in order of registration. -/
def edges (s : Scope) : List (Nat × Nat) :=
  s.vars.zipIdx.flatMap fun (v, i) => (s.predecessors v).map (·, i)

/-- The vertices of `rest` that an edge from `rest` leads to. -/
def held (edges : List (Nat × Nat)) (rest : List Nat) : List Nat :=
  rest.filter fun i => edges.any fun e => e.2 = i && rest.contains e.1

/-- Takes away the vertices that are not held, as long as there are any. What is
left of a finite graph in the end is what lies on or behind a cycle. -/
def peel (edges : List (Nat × Nat)) (rest : List Nat) : List Nat :=
  if (held edges rest).length < rest.length then peel edges (held edges rest) else rest
termination_by rest.length

/-- The dependency relation has no cycle. -/
def acyclic (s : Scope) : Bool :=
  (peel s.edges (List.range s.vars.length)).isEmpty

end Scope

/-! ### The graph that is shown -/

/-- A directed graph whose nodes are numbered variables. -/
structure DependencyGraph where
  nodes : List (Nat × Variable) := []
  edges : List (Nat × Nat) := []
deriving DecidableEq, Repr

namespace DependencyGraph

/-- Adds a node. A number is given once only. -/
def addNode? (g : DependencyGraph) (i : Nat) (v : Variable) : Option DependencyGraph :=
  if g.nodes.any (·.1 = i) then none else some { g with nodes := g.nodes ++ [(i, v)] }

/-- Sets an edge, if it is not there yet. No edge leads from a node to itself. -/
def setEdge? (g : DependencyGraph) (j i : Nat) : Option DependencyGraph :=
  if j = i then none
  else if (j, i) ∈ g.edges then some g
  else some { g with edges := g.edges ++ [(j, i)] }

/-- The number of the node that stands for a variable. -/
def number? (g : DependencyGraph) (d : VarRef) : Option Nat :=
  (g.nodes.find? (·.2.ref = d)).map Prod.fst

/-- Sets an edge from each dependent of `v` that has a node. -/
def derive? (g : DependencyGraph) (v : Variable) : Option DependencyGraph :=
  v.dependents.foldlM (fun g d =>
    match g.number? d, g.number? v.ref with
    | some j, some i => g.setEdge? j i
    | _, _ => some g) g

end DependencyGraph

/-- The graph of a scope: first all nodes, then the edges. None when it cannot be
made. -/
def Scope.dependencyGraph? (s : Scope) : Option DependencyGraph :=
  (s.vars.zipIdx.foldlM (fun (g : DependencyGraph) (v, i) => g.addNode? i v) {}).bind
    fun g => s.vars.foldlM DependencyGraph.derive? g

end TaintReach
