/-! Syntax nodes and the finite graphs they form.

A program is a table of nodes that name each other by number. Nothing keeps a
node from being named twice or from standing below itself: a graph may share
nodes and may be cyclic, and a missing node is `none`. Every construct without a
rule of its own is an `other` node that only shows its children. -/
namespace TaintReach

/-- The keyword of a declaration. -/
inductive DeclKind where
  | var
  | lexical
  | const
deriving DecidableEq, Repr

namespace DeclKind

def name : DeclKind → String
  | .var => "var"
  | .lexical => "let"
  | .const => "const"

/-- Kinds by number; an unknown number reads as the first. -/
def ofCode (code : Int) : DeclKind :=
  if code = 1 then .lexical else if code = 2 then .const else .var

end DeclKind

/-- The statements that guard a body. -/
inductive CondKind where
  | branch
  | forLoop
  | forIn
  | forOf
  | whileLoop
deriving DecidableEq, Repr

namespace CondKind

def name : CondKind → String
  | .branch => "if"
  | .forLoop => "for"
  | .forIn => "for-in"
  | .forOf => "for-of"
  | .whileLoop => "while"

/-- Kinds by number; an unknown number reads as the first. -/
def ofCode (code : Int) : CondKind :=
  if code = 1 then .forLoop else if code = 2 then .forIn
  else if code = 3 then .forOf else if code = 4 then .whileLoop else .branch

end CondKind

inductive LiteralKind where
  | bool
  | number
  | string
  | null
  | regexp
deriving DecidableEq, Repr

def LiteralKind.name : LiteralKind → String
  | .bool => "bool"
  | .number => "number"
  | .string => "string"
  | .null => "null"
  | .regexp => "regexp"

abbrev NodeId := Nat

/-- What a node is, its children given by number. -/
inductive Form where
  /-- A function body boundary; `locals` are the names the function itself declares. -/
  | function (name : String) (params body : List (Option NodeId)) (locals : List String)
  | declaration (kind : DeclKind) (bindings : List NodeId)
  | binding (target init : Option NodeId)
  /-- Any assignment operator applied to `target`. -/
  | assignment (operator : String) (target value : Option NodeId)
  | name (ident : String)
  /-- A destructuring target, flattened to the names it binds. -/
  | pattern (names : List NodeId) (defaults : List (Option NodeId))
  | thisRef
  | call (callee : Option NodeId) (args : List (Option NodeId)) (isNew : Bool)
  /-- `object.propName`, or `object[property]` when computed. -/
  | member (object property : Option NodeId) (propName : String) (computed : Bool)
  /-- `each` binds the target of an enumerating loop from what it runs over. -/
  | conditional (kind : CondKind) (init test update each body otherwise : Option NodeId)
  | switch (discriminant : Option NodeId) (clauses : List NodeId)
  | clause (test : Option NodeId) (body : List (Option NodeId))
  | literal (kind : LiteralKind) (raw : String) (truthy : Bool)
  | composite (array : Bool) (elements : List (Option NodeId))
  | operation (operator : String) (operands : List (Option NodeId))
  | other (kind : String) (nodes : List (Option NodeId))
deriving DecidableEq, Repr

/-- The word for a form. -/
def Form.tag : Form → String
  | .function .. => "function"
  | .declaration .. => "decl"
  | .binding .. => "binding"
  | .assignment .. => "assign"
  | .name .. => "name"
  | .pattern .. => "pattern"
  | .thisRef => "this"
  | .call .. => "call"
  | .member .. => "member"
  | .conditional .. => "cond"
  | .switch .. => "switch"
  | .clause .. => "case"
  | .literal .. => "literal"
  | .composite .. => "composite"
  | .operation .. => "op"
  | .other .. => "other"

/-- Fields that are present. -/
def present (fields : List (Option NodeId)) : List (Option NodeId) :=
  fields.filter Option.isSome

/-- The direct sub-nodes. Absent fields are left out; gaps inside lists stay,
and so does an absent callee. -/
def Form.children : Form → List (Option NodeId)
  | .function _ params body _ => params ++ body
  | .declaration _ bindings => bindings.map some
  | .binding target init => present [target, init]
  | .assignment _ target value => present [target, value]
  | .name _ => []
  | .pattern names defaults => names.map some ++ defaults
  | .thisRef => []
  | .call callee args _ => callee :: args
  | .member object property _ _ => present [object, property]
  | .conditional _ init test update each body otherwise =>
    present [init, test, each, body, update, otherwise]
  | .switch discriminant clauses => present [discriminant] ++ clauses.map some
  | .clause test body => present [test] ++ body
  | .literal .. => []
  | .composite _ elements => elements
  | .operation _ operands => operands
  | .other _ nodes => nodes

structure Node where
  /-- The source line the node starts on. -/
  line : Int
  form : Form
deriving DecidableEq, Repr

instance : Inhabited Node := ⟨0, .thisRef⟩

/-- A finite table of nodes. -/
structure Graph where
  nodes : Array Node := #[]
deriving Repr

namespace Graph

def size (g : Graph) : Nat := g.nodes.size

def node? (g : Graph) (id : NodeId) : Option Node := g.nodes[id]?

/-- The node behind a field. -/
def at? (g : Graph) (child : Option NodeId) : Option Node := child.bind g.node?

/-- The identifier and line behind a field that holds a plain name. -/
def name? (g : Graph) (child : Option NodeId) : Option (String × Int) :=
  match g.at? child with
  | some ⟨line, .name ident⟩ => some (ident, line)
  | _ => none

/-- The names that a target binds: itself, or those of a pattern. -/
def targetNames (g : Graph) (target : Option NodeId) : List (String × Int) :=
  match g.at? target with
  | some ⟨line, .name ident⟩ => [(ident, line)]
  | some ⟨_, .pattern names _⟩ => names.filterMap fun n => g.name? (some n)
  | _ => []

/-- Follows a member chain through at most `steps` objects. -/
def rootWithin (g : Graph) : Nat → Option NodeId → Option (String × Int)
  | 0, _ => none
  | steps + 1, child =>
    match g.at? child with
    | some ⟨line, .name ident⟩ => some (ident, line)
    | some ⟨_, .member object _ _ _⟩ => g.rootWithin steps object
    | _ => none

/-- The name at the base of a member chain. A chain with more objects than there
are nodes runs in a loop and has no base. -/
def root? (g : Graph) (chain : Option NodeId) : Option (String × Int) :=
  g.rootWithin (g.size + 1) chain

/-- Whether a field holds a member expression. -/
def isMember (g : Graph) (child : Option NodeId) : Bool :=
  match g.at? child with
  | some ⟨_, .member ..⟩ => true
  | _ => false

/-- How many nodes are not on a path. -/
def room (g : Graph) (path : List NodeId) : Nat :=
  ((List.range g.size).filter (· ∉ path)).length

theorem lt_size_of_node? {g : Graph} {id : NodeId} {n : Node} (h : g.node? id = some n) :
    id < g.size := by
  unfold node? at h
  exact (Array.getElem?_eq_some_iff.mp h).1

/-- Stepping to a node that is not on the path leaves less room. -/
theorem room_cons_lt {g : Graph} {path : List NodeId} {id : NodeId} {n : Node}
    (hn : g.node? id = some n) (hp : id ∉ path) : g.room (id :: path) < g.room path := by
  have hlt := lt_size_of_node? hn
  unfold room
  have hsub : (List.range g.size).filter (· ∉ id :: path) =
      ((List.range g.size).filter (· ∉ path)).filter (· ≠ id) := by
    rw [List.filter_filter]
    congr 1
    funext i
    by_cases h : i = id <;> simp [h]
  rw [hsub]
  refine List.length_filter_lt_length_iff_exists.mpr ⟨id, ?_, by simp⟩
  simp [hlt, hp]

/-- A node and everything below it, each with its depth, parents first. What stands
below itself is not shown a second time. -/
def outline (g : Graph) (path : List NodeId) (child : Option NodeId) :
    List (Nat × Option Node) :=
  match child with
  | none => [(path.length, none)]
  | some id =>
    match _found : g.node? id with
    | none => [(path.length, none)]
    | some n =>
      if _fresh : id ∈ path then []
      else (path.length, some n) :: n.form.children.flatMap (g.outline (id :: path))
termination_by g.room path
decreasing_by exact room_cons_lt _found _fresh

end Graph

end TaintReach
