import TaintReach.Scope.Join

/-! Reports and the ordered table they are kept in.

A report lists the sources of one scope that reach a sink. `Results` keeps reports
by scope name, in the order the names came first; a name that comes again has its
report replaced where it stands. `Document.collect` joins scopes of one name and
reports on the join. -/
namespace TaintReach

/-- The ids of the sources of one scope that reach a sink. -/
structure Report where
  /-- On every path. -/
  must : List String := []
  /-- On some path; those that must are among them. -/
  may : List String := []
deriving DecidableEq, Repr

/-- The report on a scope, in order of registration. -/
def Scope.report (s : Scope) : Report :=
  { must := (s.vars.filter (·.taint = .must)).map Variable.id
    may := (s.vars.filter fun v => Taint.may.rank ≤ v.taint.rank).map Variable.id }

/-- Reports by scope name, in order of first insertion. -/
structure Results where
  entries : List (String × Report) := []
deriving DecidableEq, Repr

namespace Results

def keys (r : Results) : List String := r.entries.map Prod.fst

def size (r : Results) : Nat := r.entries.length

def get? (r : Results) (scope : String) : Option Report := r.entries.lookup scope

/-- Sets the report of a scope: in place if the scope is known, else at the end. -/
def add (r : Results) (scope : String) (report : Report) : Results :=
  if scope ∈ r.keys then
    ⟨r.entries.map fun e => if e.1 = scope then (scope, report) else e⟩
  else ⟨r.entries ++ [(scope, report)]⟩

end Results

/-- Reports together with the scopes behind them. -/
structure Document where
  results : Results := {}
  /-- The joined scope of each name. -/
  scopes : List (String × Scope) := []
deriving Repr

namespace Document

/-- Sets the scope of its name. -/
def keep (d : Document) (s : Scope) : Document :=
  { d with
    scopes := if d.scopes.any (·.1 = s.name) then
        d.scopes.map fun e => if e.1 = s.name then (s.name, s) else e
      else d.scopes ++ [(s.name, s)] }

/-- Adds a scope, joined with the one of its name if there is one. -/
def collectOne (d : Document) (s : Scope) : Document :=
  let s := match d.scopes.lookup s.name with
    | some earlier => Scope.join (some earlier) (some s)
    | none => s
  let d := d.keep s
  { d with results := d.results.add s.name s.report }

/-- Adds scopes in order. -/
def collect (d : Document) (scopes : List Scope) : Document := scopes.foldl collectOne d

end Document

end TaintReach
