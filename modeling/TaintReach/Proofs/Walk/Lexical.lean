import TaintReach.Walk

/-! A walk whose surroundings are passed down.

This is a second engine for the analysis of one function, simpler than the first
in what it keeps. Entries have no reachability, and the state has neither a
current class nor a variable being defined: both belong to the place in the tree
(`Site`) and are handed to each sub-node as they are there, so nothing has to be
stamped and nothing restored. A branch that cannot run is not visited, and a
sink raises its argument and the sources behind it to what the class of its
place gives, whatever happened to them elsewhere. -/
namespace TaintReach.Lexical

open Walk (Setting Consts Classified classify)

/-! ### Tables -/

/-- What is kept of a variable. -/
structure Entry where
  ref : VarRef
  source : Bool := false
  taint : Taint := .clean
  escaped : Bool := false
  dependents : List VarRef := []
deriving DecidableEq, Repr

namespace Entry

def addDependent (e : Entry) (d : VarRef) : Entry :=
  if d = e.ref ∨ d ∈ e.dependents then e else { e with dependents := e.dependents ++ [d] }

/-- Takes over what `o` derives from, and `o` itself if it is a source or derives
from nothing. -/
def addDependency (e o : Entry) : Entry :=
  if o.ref = e.ref then e
  else
    let kept := if o.dependents = [] ∨ o.source = true then o.dependents ++ [o.ref] else o.dependents
    kept.foldl addDependent e

/-- Raises the verdict on a source to `t`. -/
def raise (t : Taint) (e : Entry) : Entry :=
  if e.source = true ∧ e.taint.rank < t.rank then { e with taint := t } else e

end Entry

/-- The entries of one function, in order of registration. -/
structure Table where
  home : Nat := 0
  name : String := unnamedScope
  entries : List Entry := []
deriving DecidableEq, Repr

namespace Table

def lookup? (t : Table) (ident : String) : Option Entry :=
  t.entries.find? (·.ref.name = ident)

def update (t : Table) (ident : String) (f : Entry → Entry) : Table :=
  { t with entries := t.entries.map fun e => if e.ref.name = ident then f e else e }

def depend (t : Table) (ident on : String) : Table :=
  match t.lookup? on with
  | none => t
  | some o => t.update ident (·.addDependency o)

/-- Raises all sources among some entries at once. -/
def raiseAll (t : Table) (refs : List VarRef) (verdict : Taint) : Table :=
  { t with entries := t.entries.map fun e => if e.ref ∈ refs then e.raise verdict else e }

end Table

/-! ### Sites and states -/

/-- What surrounds a node: the class it runs at, and the variable whose value it is
part of. -/
structure Site where
  ambient : Reachable := .always
  defining : Option String := none

structure State where
  table : Table := {}
  consts : Consts := []
  fault : Option Fault := none

namespace State

def failCyclic (line : Int) (s : State) : State :=
  { s with fault := some (.malformed s.table.name line "cyclic syntax tree") }

def register (E : Setting) (ident : String) (line : Int) (s : State) : State :=
  match s.table.lookup? ident with
  | some _ => s
  | none =>
    let e : Entry :=
      { ref := ⟨s.table.home, ident, line⟩
        escaped := E.declared.any fun declares => !declares ident }
    { s with table := { s.table with entries := s.table.entries ++ [e] } }

/-- Registers the name that receives a value, of which no constant is known then. -/
def bind (E : Setting) (ident : String) (line : Int) (s : State) : State :=
  { s with consts := s.consts.forget ident }.register E ident line

def depend (ident on : String) (s : State) : State :=
  { s with table := s.table.depend ident on }

/-- What is read at a site flows into the variable it defines. -/
def flow (site : Site) (on : String) (s : State) : State :=
  match site.defining with
  | none => s
  | some ident => s.depend ident on

def mark (site : Site) (s : State) : State :=
  match site.defining with
  | none => s
  | some ident => { s with table := s.table.update ident fun e => { e with source := true } }

def sink (site : Site) (ident : String) (s : State) : State :=
  match s.table.lookup? ident with
  | none => s
  | some e =>
    { s with table := s.table.raiseAll (e.ref :: e.dependents) site.ambient.taint }

end State

/-! ### The rules -/

/-- How a rule hands a sub-node down with what surrounds it. -/
abbrev Visit := Site → Option NodeId → State → State

section
variable (E : Setting) (visit : Visit) (site : Site)

def visitAll (children : List (Option NodeId)) (s : State) : State :=
  children.foldl (fun s c => visit site c s) s

/-- Binds a value to a target, and gives the variable that received it. -/
def assign (target value : Option NodeId) (s : State) : Option String × State :=
  let receive (ident : String) : State → State := visit { site with defining := some ident } value
  let discard : Option NodeId → State → State := visit { site with defining := none }
  match E.graph.at? target with
  | some ⟨line, .name ident⟩ => (some ident, receive ident (s.bind E ident line))
  | some ⟨_, .pattern names defaults⟩ =>
    let s := if names = [] then discard value s else s
    let s := names.foldl (fun s n =>
      match E.graph.name? (some n) with
      | some (ident, line) => receive ident (s.bind E ident line)
      | none => s) s
    (none, defaults.foldl (fun s d => discard d s) s)
  | some ⟨_, .member _ property _ computed⟩ =>
    match E.graph.root? target with
    | none => (none, visit site value (visit site target s))
    | some (ident, line) =>
      let s := s.register E ident line
      let s := if computed then discard property s else s
      match E.graph.name? value with
      | some (on, onLine) => (some ident, (s.register E on onLine).depend ident on)
      | none => (some ident, receive ident s)
  | _ => (none, visit site value (visit site target s))

def recordConst (binding : NodeId) (s : State) : State :=
  match E.graph.node? binding with
  | some ⟨_, .binding target init⟩ =>
    match E.graph.name? target, E.graph.at? init with
    | some (ident, _), some ⟨_, .literal _ _ truthy⟩ =>
      { s with consts := s.consts.record ident truthy }
    | _, _ => s
  | _ => s

def declaration (kind : DeclKind) (bindings : List NodeId) (s : State) : State :=
  bindings.foldl (fun s b =>
    let s := visit site (some b) s
    if kind = .const then recordConst E b s else s) s

def methodCall (callee : Option NodeId) (args : List (Option NodeId)) (s : State) : State :=
  match E.graph.isMember callee, E.graph.root? callee with
  | true, some (ident, line) =>
    args.foldl (fun s a =>
      match E.graph.name? a with
      | some (on, onLine) => (s.register E on onLine).depend ident on
      | none => s) (s.register E ident line)
  | _, _ => s

def call (callee : Option NodeId) (args : List (Option NodeId)) (isNew : Bool) (s : State) :
    State :=
  match (if isNew then none else E.graph.name? callee) with
  | some (ident, _) =>
    if ident = E.endpoints.source then
      if args = [] then s.mark site else s
    else if ident = E.endpoints.sink then
      match args with
      | [arg] =>
        match E.graph.name? arg with
        | some (y, line) => (s.register E y line).sink site y
        | none => s
      | _ => s
    else visitAll visit site args s
  | none => visitAll visit site args (visit site callee (methodCall E callee args s))

/-- Runs `step` one class deeper, unless that is `never`. -/
def guarded (guard : Reachable) (step : Site → State → State) (s : State) : State :=
  let inner := site.ambient.meet guard
  if inner = .never then s else step { site with ambient := inner } s

def conditional (path : List NodeId) (kind : CondKind)
    (init test update each body otherwise : Option NodeId) (s : State) : State :=
  let s := if kind = .forLoop then visit site init s else s
  let guard : Classified :=
    if kind = .forIn ∨ kind = .forOf then ⟨.maybe, none⟩ else classify E.graph s.consts path test
  let s := guard.loopLine.elim s fun line => s.failCyclic line
  let s := guarded site guard.reach
    (fun site s => visit site update (visit site body (visit site each s))) s
  guarded site guard.reach.negate (fun site s => visit site otherwise s) s

def switch (clauses : List NodeId) (s : State) : State :=
  let inner : Site := { site with ambient := site.ambient.meet .maybe }
  clauses.foldl (fun s c =>
    match E.graph.node? c with
    | some ⟨_, .clause _ body⟩ => visitAll visit inner body s
    | _ => s) s

def visitNode (path : List NodeId) (n : Node) (s : State) : State :=
  match n.form with
  | .function .. => s
  | .declaration kind bindings => declaration E visit site kind bindings s
  | .binding target init => (assign E visit site target init s).2
  | .assignment _ target value =>
    match assign E visit site target value s with
    | (some v, s) => s.flow site v
    | (none, s) => s
  | .name ident =>
    if site.defining.isNone then s else (s.register E ident n.line).flow site ident
  | .call callee args isNew => call E visit site callee args isNew s
  | .conditional kind init test update each body otherwise =>
    conditional E visit site path kind init test update each body otherwise s
  | .switch _ clauses => switch E visit site clauses s
  | form => visitAll visit site form.children s

end

def walk (E : Setting) (path : List NodeId) (site : Site) (child : Option NodeId) (s : State) :
    State :=
  match child with
  | none => s
  | some id =>
    if s.fault.isSome then s else
    match _found : E.graph.node? id with
    | none => s
    | some n =>
      if _fresh : id ∈ path then s.failCyclic n.line
      else visitNode E (fun site c s => walk E (id :: path) site c s) site (id :: path) n s
termination_by E.graph.room path
decreasing_by exact E.graph.room_cons_lt _found _fresh

section
variable {E : Setting} {path : List NodeId} {site : Site} {id : NodeId} {n : Node} {s : State}

theorem walk_none : walk E path site none s = s := by
  rw [walk.eq_def]

theorem walk_of_fault (child : Option NodeId) (hs : s.fault.isSome) :
    walk E path site child s = s := by
  rw [walk.eq_def]
  cases child with
  | none => rfl
  | some id => exact if_pos hs

theorem walk_missing (hn : E.graph.node? id = none) : walk E path site (some id) s = s := by
  rw [walk.eq_def]
  simp only
  split
  · rfl
  · split
    · rfl
    · rename_i h
      rw [hn] at h
      cases h

theorem walk_cyclic (hs : s.fault = none) (hn : E.graph.node? id = some n) (hp : id ∈ path) :
    walk E path site (some id) s = s.failCyclic n.line := by
  rw [walk.eq_def]
  simp only [hs, Option.isSome_none, Bool.false_eq_true, if_false]
  split
  · rename_i h
    rw [hn] at h
    cases h
  · rename_i h
    obtain rfl := Option.some.inj (hn.symm.trans h)
    exact dif_pos hp

theorem walk_some (hs : s.fault = none) (hn : E.graph.node? id = some n) (hp : id ∉ path) :
    walk E path site (some id) s =
      visitNode E (walk E (id :: path)) site (id :: path) n s := by
  rw [walk.eq_def]
  simp only [hs, Option.isSome_none, Bool.false_eq_true, if_false]
  split
  · rename_i h
    rw [hn] at h
    cases h
  · rename_i h
    obtain rfl := Option.some.inj (hn.symm.trans h)
    exact dif_neg hp

end

/-- The table of one function, or why there is none. -/
def analyzeFunction (E : Setting) (fn : Option NodeId) : Except Fault Table :=
  match fn, E.graph.at? fn with
  | some id, some ⟨line, .function name params body _⟩ =>
    let start : State := { table := { name := idText name line } }
    let done := visitAll (walk E [id]) {} body (visitAll (walk E [id]) {} params start)
    match done.fault with
    | some f => .error f
    | none => .ok done.table
  | _, _ => .error (.malformed unnamedScope 0 "nil function")

end TaintReach.Lexical
