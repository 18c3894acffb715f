import TaintReach.Scope

/-! The join of two scopes where their flows merge.

Variables are united by name. One that stands in both takes the higher verdict,
the weaker reachability, both marks and the dependents of both, remapped by name
onto the joined scope; the first operand gives order and lines. -/
namespace TaintReach.Scope

/-- Adds what `v` knows to the variable of its name; dependents come later. -/
def absorb (out : Scope) (v : Variable) : Scope :=
  match out.lookup? v.name with
  | none =>
    out.add { v with dependents := [], taint := Taint.clean.max v.taint }
  | some _ =>
    out.update v.name fun cur =>
      { cur with
        reachable := cur.reachable.meet v.reachable
        taint := cur.taint.max v.taint
        source := cur.source || v.source
        escaped := cur.escaped || v.escaped }

/-- Carries the dependents of `v` over, each to the variable of its name. -/
def remap (out : Scope) (v : Variable) : Scope :=
  v.dependents.foldl (fun acc d =>
    match acc.lookup? d.name with
    | none => acc
    | some dep => acc.update v.name (·.addDependent dep.ref)) out

/-- Joins scopes from left to right into an empty one called `name`. -/
def merge (name : String) (operands : List Scope) : Scope :=
  let vars := operands.flatMap Scope.vars
  vars.foldl remap (vars.foldl absorb (new name 0))

/-- The scope at a merge point; an absent operand adds nothing. The first
operand names the result unless it is unnamed. -/
def join : Option Scope → Option Scope → Scope
  | none, none => new unnamedScope 0
  | none, some b => merge b.name [b]
  | some a, none => merge a.name [a]
  | some a, some b => merge (if a.name = unnamedScope then b.name else a.name) [a, b]

end TaintReach.Scope
