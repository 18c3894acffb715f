import TaintReach.Variable

/-! Scopes: the variables of one function, in the order they were first seen.

Names are unique in a scope, so a variable is reached by its name. `findOrCreate`
is the only way in, and `update` changes a variable in place. -/
namespace TaintReach

/-- The name of a scope that stands for no function yet. -/
def unnamedScope : String := "scope@-1"

structure Scope where
  /-- Tells scopes that exist side by side apart. -/
  home : Nat := 0
  name : String := unnamedScope
  vars : List Variable := []
deriving DecidableEq, Repr

namespace Scope

/-- A scope without variables; an empty name stands for none. -/
def new (name : String) (home : Nat) : Scope :=
  { home, name := if name = "" then unnamedScope else name }

def lookup? (s : Scope) (name : String) : Option Variable :=
  s.vars.find? (·.name = name)

/-- Appends a variable at the home of the scope. -/
def add (s : Scope) (v : Variable) : Scope :=
  { s with vars := s.vars ++ [{ v with home := s.home }] }

/-- The variable of this name, registered at `line` if there was none; the flag
says which happened. -/
def findOrCreate (s : Scope) (name : String) (line : Int) : Scope × Bool :=
  match s.lookup? name with
  | some _ => (s, false)
  | none => (s.add { home := s.home, name, line }, true)

/-- Changes the variable of this name in place. -/
def update (s : Scope) (name : String) (f : Variable → Variable) : Scope :=
  { s with vars := s.vars.map fun v => if v.name = name then f v else v }

/-- Records that one variable of the scope may derive from another. -/
def depend (s : Scope) (name on : String) : Scope :=
  match s.lookup? on with
  | none => s
  | some o => s.update name (·.addDependency o)

/-- Gives every variable the class `r`. -/
def stamp (s : Scope) (r : Reachable) : Scope :=
  { s with vars := s.vars.map fun v => { v with reachable := r } }

/-- The same scope under another number. -/
def moveTo (s : Scope) (home : Nat) : Scope :=
  let moved (r : VarRef) : VarRef := if r.home = s.home then { r with home } else r
  { s with
    home
    vars := s.vars.map fun v => { v with home, dependents := v.dependents.map moved } }

end Scope

end TaintReach
