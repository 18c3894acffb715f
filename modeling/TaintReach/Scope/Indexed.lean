import TaintReach.Scope.Join

/-! Scopes with an index.

Beside its variables a scope keeps an index that finds each by its name, and beside
its dependents a variable keeps the set of those it has taken. Whether a name is
registered, and whether a dependent is new, is asked of these two alone; the lists
only say in which order things came. -/
namespace TaintReach

/-- What is known of a variable apart from where it comes from. -/
structure Marks where
  source : Bool := false
  escaped : Bool := false
  taint : Taint := .clean
  reachable : Reachable := .always
deriving DecidableEq, Repr

def Variable.marks (v : Variable) : Marks := ⟨v.source, v.escaped, v.taint, v.reachable⟩

def Variable.withMarks (v : Variable) (m : Marks) : Variable :=
  { v with source := m.source, escaped := m.escaped, taint := m.taint, reachable := m.reachable }

/-- A variable and the set of its dependents. -/
structure Slot where
  content : Variable
  seen : List VarRef := []
deriving DecidableEq, Repr

namespace Slot

def ofVariable (v : Variable) : Slot := ⟨v, v.dependents.reverse⟩

/-- Appends one dependent; the variable itself and those already taken are dropped. -/
def addDependent (c : Slot) (d : VarRef) : Slot :=
  if d = c.content.ref ∨ d ∈ c.seen then c
  else
    { content := { c.content with dependents := c.content.dependents ++ [d] }
      seen := d :: c.seen }

/-- Records that the variable may derive from `o`. -/
def addDependency (c : Slot) (o : Variable) : Slot :=
  if o.ref = c.content.ref then c
  else if o.dependents = [] then c.addDependent o.ref
  else
    let absorbed := o.dependents.foldl addDependent c
    if o.source then absorbed.addDependent o.ref else absorbed

end Slot

structure Indexed where
  home : Nat := 0
  name : String := unnamedScope
  slots : List Slot := []
  /-- The place of each name among the slots. -/
  index : List (String × Nat) := []
deriving DecidableEq, Repr

namespace Indexed

/-- A scope without variables; an empty name stands for none. -/
def new (name : String) (home : Nat) : Indexed :=
  { home, name := if name = "" then unnamedScope else name }

/-- Where the variable of a name stands. -/
def place? (s : Indexed) (name : String) : Option Nat := s.index.lookup name

def lookup? (s : Indexed) (name : String) : Option Slot :=
  (s.place? name).bind fun i => s.slots[i]?

/-- Appends a variable, which derives from nothing yet. -/
def add (s : Indexed) (v : Variable) : Indexed :=
  { s with
    slots := s.slots ++ [{ content := { v with home := s.home, dependents := [] } }]
    index := (v.name, s.slots.length) :: s.index }

/-- The variable of this name, registered at `line` if there was none; the flag
says which happened. -/
def findOrCreate (s : Indexed) (name : String) (line : Int) : Indexed × Bool :=
  match s.place? name with
  | some _ => (s, false)
  | none => (s.add { home := s.home, name, line }, true)

/-- Changes the variable of this name where it stands. -/
def modify (s : Indexed) (name : String) (f : Slot → Slot) : Indexed :=
  match s.place? name with
  | none => s
  | some i => { s with slots := s.slots.modify i f }

/-- Sets the marks of a variable. -/
def mark (s : Indexed) (name : String) (f : Marks → Marks) : Indexed :=
  s.modify name fun c => { c with content := c.content.withMarks (f c.content.marks) }

/-- Records that the variable of a name may derive from `o`, of whatever scope. -/
def dependOn (s : Indexed) (name : String) (o : Variable) : Indexed :=
  s.modify name (·.addDependency o)

/-- Records that one variable of the scope may derive from another. -/
def depend (s : Indexed) (name on : String) : Indexed :=
  match s.lookup? on with
  | none => s
  | some o => s.dependOn name o.content

/-- Gives every variable the class `r`. -/
def stamp (s : Indexed) (r : Reachable) : Indexed :=
  { s with
    slots := s.slots.map fun c => { c with content := { c.content with reachable := r } } }

/-! ### Joins -/

/-- Adds what `v` knows to the variable of its name; dependents come later. -/
def absorb (out : Indexed) (v : Variable) : Indexed :=
  match out.place? v.name with
  | none => out.add { v with taint := Taint.clean.max v.taint }
  | some _ =>
    out.mark v.name fun cur =>
      { source := cur.source || v.source
        escaped := cur.escaped || v.escaped
        taint := cur.taint.max v.taint
        reachable := cur.reachable.meet v.reachable }

/-- Carries the dependents of `v` over, each to the variable of its name. -/
def remap (out : Indexed) (v : Variable) : Indexed :=
  v.dependents.foldl (fun acc d =>
    match acc.lookup? d.name with
    | none => acc
    | some dep => acc.modify v.name (·.addDependent dep.content.ref)) out

/-- Joins scopes from left to right into an empty one called `name`. -/
def merge (name : String) (home : Nat) (operands : List Indexed) : Indexed :=
  let vars := operands.flatMap fun s => s.slots.map Slot.content
  vars.foldl remap (vars.foldl absorb (new name home))

/-- The scope at a merge point; an absent operand adds nothing. The first operand
names the result unless it is unnamed. -/
def join (home : Nat) : Option Indexed → Option Indexed → Indexed
  | none, none => new unnamedScope home
  | none, some b => merge b.name home [b]
  | some a, none => merge a.name home [a]
  | some a, some b => merge (if a.name = unnamedScope then b.name else a.name) home [a, b]

/-! ### Scopes and their indexed form -/

/-- The scope without its index and sets. -/
def plain (s : Indexed) : Scope :=
  { home := s.home, name := s.name, vars := s.slots.map Slot.content }

/-- The scope with its index and sets. -/
def ofScope (s : Scope) : Indexed :=
  { home := s.home
    name := s.name
    slots := s.vars.map Slot.ofVariable
    index := (s.vars.map Variable.name).zipIdx.reverse }

end Indexed

end TaintReach
