import TaintReach.Scope.Dependency
import TaintReach.Walk.State

/-! The walk over one function, and the analysis built on it.

`walk` visits a node unless it already stands on the path to it, in which case
the tree is cyclic and the walk fails. Each visit hands its sub-nodes back to
the walk through `visit`, so the rules for the single constructs are plain
functions, and the path shrinks the room left in the graph at every step down.
Nested functions are never entered. -/
namespace TaintReach.Walk

/-- How a rule hands a sub-node back to the walk. -/
abbrev Visit := Option NodeId → State → State

def visitAll (visit : Visit) (children : List (Option NodeId)) (s : State) : State :=
  children.foldl (fun s c => visit c s) s

/-- Binds `value` to `target`, and gives the variable that received it. -/
def assign (E : Setting) (visit : Visit) (target value : Option NodeId) (s : State) :
    Option String × State :=
  match E.graph.at? target with
  | some ⟨line, .name ident⟩ =>
    (some ident, (s.bind E.declared ident line).route (some ident) (visit value))
  | some ⟨_, .pattern names defaults⟩ =>
    let s := if names = [] then s.route none (visit value) else s
    let s := names.foldl (fun s n =>
      match E.graph.name? (some n) with
      | some (ident, line) => (s.bind E.declared ident line).route (some ident) (visit value)
      | none => s) s
    (none, defaults.foldl (fun s d => s.route none (visit d)) s)
  | some ⟨_, .member _ property _ computed⟩ =>
    match E.graph.root? target with
    | none => (none, visit value (visit target s))
    | some (ident, line) =>
      let s := s.lookup E.declared ident line
      let s := if computed then s.route none (visit property) else s
      match E.graph.name? value with
      | some (on, onLine) => (some ident, (s.lookup E.declared on onLine).depend ident on)
      | none => (some ident, s.route (some ident) (visit value))
  | _ => (none, visit value (visit target s))

/-- A binding of a constant to a literal makes its truth known. -/
def recordConst (g : Graph) (binding : NodeId) (s : State) : State :=
  match g.node? binding with
  | some ⟨_, .binding target init⟩ =>
    match g.name? target, g.at? init with
    | some (ident, _), some ⟨_, .literal _ _ truthy⟩ =>
      { s with consts := s.consts.record ident truthy }
    | _, _ => s
  | _ => s

def declaration (E : Setting) (visit : Visit) (kind : DeclKind) (bindings : List NodeId)
    (s : State) : State :=
  bindings.foldl (fun s b =>
    let s := visit (some b) s
    if kind = .const then recordConst E.graph b s else s) s

/-- Names passed to a method flow into the object it is called on. -/
def methodCall (E : Setting) (callee : Option NodeId) (args : List (Option NodeId)) (s : State) :
    State :=
  match E.graph.isMember callee, E.graph.root? callee with
  | true, some (ident, line) =>
    args.foldl (fun s a =>
      match E.graph.name? a with
      | some (on, onLine) => (s.lookup E.declared on onLine).depend ident on
      | none => s) (s.lookup E.declared ident line)
  | _, _ => s

/-- A source call without arguments marks the variable being defined; a sink call
checks its single argument when that is a name. The callee of a plain call is
not read. -/
def call (E : Setting) (visit : Visit) (line : Int) (callee : Option NodeId)
    (args : List (Option NodeId)) (isNew : Bool) (s : State) : State :=
  match (if isNew then none else E.graph.name? callee) with
  | some (ident, _) =>
    if ident = E.endpoints.source then
      if args = [] then s.markSource line else s
    else if ident = E.endpoints.sink then
      match args with
      | [arg] =>
        match E.graph.name? arg with
        | some (y, yLine) => (s.lookup E.declared y yLine).sink y line
        | none => s
      | _ => s
    else visitAll visit args s
  | none => visitAll visit args (visit callee (methodCall E callee args s))

/-- Runs `step` at class `inner`, unless that is `never`, and returns to `outer`. -/
def branch (inner outer : Reachable) (step : State → State) (s : State) : State :=
  let s := s.enter inner
  (if inner = .never then s else step s).enter outer

def conditional (E : Setting) (path : List NodeId) (visit : Visit) (line : Int) (kind : CondKind)
    (init test update each body otherwise : Option NodeId) (s : State) : State :=
  let s := if kind = .forLoop then visit init s else s
  let outer := s.ambient
  let guard : Classified :=
    if kind = .forIn ∨ kind = .forOf then ⟨.maybe, none⟩ else classify E.graph s.consts path test
  let s := guard.loopLine.elim s fun line => s.failCyclic line
  let s := s.tell (.guardClassified kind line guard.reach)
  let s := branch (outer.meet guard.reach) outer
    (fun s => visit update (visit body (visit each s))) s
  if otherwise.isNone then s
  else branch (outer.meet guard.reach.negate) outer (visit otherwise) s

/-- The clauses of a switch may run; what they are compared with is not read. -/
def switch (E : Setting) (visit : Visit) (clauses : List NodeId) (s : State) : State :=
  let outer := s.ambient
  let s := s.enter (outer.meet .maybe)
  let s := clauses.foldl (fun s c =>
    match E.graph.node? c with
    | some ⟨_, .clause _ body⟩ => visitAll visit body s
    | _ => s) s
  s.enter outer

/-- The rule for one node; `path` ends in it. -/
def visitNode (E : Setting) (path : List NodeId) (visit : Visit) (n : Node) (s : State) : State :=
  match n.form with
  | .function .. => s
  | .declaration kind bindings => declaration E visit kind bindings s
  | .binding target init => (assign E visit target init s).2
  | .assignment _ target value =>
    match assign E visit target value s with
    | (some v, s) => s.dependDefining v
    | (none, s) => s
  | .name ident =>
    if s.defining.isNone then s
    else (s.lookup E.declared ident n.line).dependDefining ident
  | .call callee args isNew => call E visit n.line callee args isNew s
  | .conditional kind init test update each body otherwise =>
    conditional E path visit n.line kind init test update each body otherwise s
  | .switch _ clauses => switch E visit clauses s
  | form => visitAll visit form.children s

/-- Visits a node that is not on the path. Nothing is visited after a fault. -/
def walk (E : Setting) (path : List NodeId) (child : Option NodeId) (s : State) : State :=
  match child with
  | none => s
  | some id =>
    if s.fault.isSome then s else
    match _found : E.graph.node? id with
    | none => s
    | some n =>
      if _fresh : id ∈ path then s.failCyclic n.line
      else visitNode E (id :: path) (fun c s => walk E (id :: path) c s) n s
termination_by E.graph.room path
decreasing_by exact E.graph.room_cons_lt _found _fresh

section
variable {E : Setting} {path : List NodeId} {id : NodeId} {n : Node} {s : State}

theorem walk_none : walk E path none s = s := by
  rw [walk.eq_def]

theorem walk_of_fault (child : Option NodeId) (hs : s.fault.isSome) : walk E path child s = s := by
  rw [walk.eq_def]
  cases child with
  | none => rfl
  | some id => exact if_pos hs

theorem walk_missing (hn : E.graph.node? id = none) : walk E path (some id) s = s := by
  rw [walk.eq_def]
  simp only
  split
  · rfl
  · split
    · rfl
    · rename_i h
      rw [hn] at h
      cases h

theorem walk_cyclic (hs : s.fault = none) (hn : E.graph.node? id = some n) (hp : id ∈ path) :
    walk E path (some id) s = s.failCyclic n.line := by
  rw [walk.eq_def]
  simp only [hs, Option.isSome_none, Bool.false_eq_true, if_false]
  split
  · rename_i h
    rw [hn] at h
    cases h
  · rename_i h
    obtain rfl := Option.some.inj (hn.symm.trans h)
    exact dif_pos hp

theorem walk_some (hs : s.fault = none) (hn : E.graph.node? id = some n) (hp : id ∉ path) :
    walk E path (some id) s = visitNode E (id :: path) (walk E (id :: path)) n s := by
  rw [walk.eq_def]
  simp only [hs, Option.isSome_none, Bool.false_eq_true, if_false]
  split
  · rename_i h
    rw [hn] at h
    cases h
  · rename_i h
    obtain rfl := Option.some.inj (hn.symm.trans h)
    exact dif_neg hp

end

/-- What came of an analysis, and what it told on the way. -/
structure Outcome (α : Type) where
  result : Except Fault α
  events : List Event

def Outcome.fault? {α : Type} (o : Outcome α) : Option Fault :=
  match o.result with
  | .error f => some f
  | .ok _ => none

/-- Analyses one function in a scope of its own. -/
def analyzeFunction (E : Setting) (fn : Option NodeId) : Outcome Scope :=
  match fn, E.graph.at? fn with
  | some id, some ⟨line, .function name params body _⟩ =>
    let scope : Scope := { name := idText name line }
    let start := { scope : State }.tell (.opened scope.name)
    let done := visitAll (walk E [id]) body (visitAll (walk E [id]) params start)
    match done.fault with
    | some f => ⟨.error f, done.events.reverse⟩
    | none =>
      let summary := done.scope.vars.map Event.summed ++
        (if done.scope.acyclic then [] else [Event.cyclicDependencies scope.name])
      ⟨.ok done.scope, done.events.reverse ++ summary⟩
  | _, _ => ⟨.error (.malformed unnamedScope 0 "nil function"), []⟩

/-- The names a function declares itself. -/
def declaredBy (g : Graph) (fn : Option NodeId) : List String :=
  match g.at? fn with
  | some ⟨_, .function _ _ _ locals⟩ => locals
  | _ => []

/-- Analyses functions in order, each against its own declarations, up to the
first that fails. -/
def analyzeAll (g : Graph) (endpoints : Endpoints) : List (Option NodeId) → Outcome (List Scope)
  | [] => ⟨.ok [], []⟩
  | fn :: rest =>
    let one := analyzeFunction { graph := g, endpoints, declared := some (declaredBy g fn).contains } fn
    match one.result with
    | .error f => ⟨.error f, one.events⟩
    | .ok scope =>
      let more := analyzeAll g endpoints rest
      ⟨more.result.map (scope :: ·), one.events ++ more.events⟩

/-- Analyses the functions of a program, which may be missing. -/
def analyzeProgram (g : Graph) (endpoints : Endpoints) :
    Option (List (Option NodeId)) → Outcome (List Scope)
  | none => ⟨.error (.malformed unnamedScope 0 "nil program"), []⟩
  | some functions => analyzeAll g endpoints functions

end TaintReach.Walk
