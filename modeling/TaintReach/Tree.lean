import TaintReach.Node

/-! Syntax trees and their place in a graph.

A script is read as trees, with nothing shared and nothing missing inside lists.
`Tree.place` lays a tree down in a node table, children before parents, and lists
the functions in it: an enclosing function before those inside it, the rest in the
order of the text, except that a handler comes before the body it guards. -/
namespace TaintReach

/-- A syntax node with its children. The fields are those of `Form`. -/
inductive Tree where
  | function (line : Int) (name : String) (params body : List Tree) (locals : List String)
  | declaration (line : Int) (kind : DeclKind) (bindings : List Tree)
  | binding (line : Int) (target init : Option Tree)
  | assignment (line : Int) (operator : String) (target value : Tree)
  | name (line : Int) (ident : String)
  | pattern (line : Int) (names : List (Int × String)) (defaults : List Tree)
  | thisRef (line : Int)
  | call (line : Int) (callee : Tree) (args : List Tree) (isNew : Bool)
  | member (line : Int) (object : Tree) (property : Option Tree) (propName : String)
  | conditional (line : Int) (kind : CondKind) (init test update each body otherwise : Option Tree)
  | switch (line : Int) (discriminant : Tree) (clauses : List Tree)
  | clause (line : Int) (test : Option Tree) (body : List Tree)
  | literal (line : Int) (kind : LiteralKind) (raw : String) (truthy : Bool)
  | composite (line : Int) (array : Bool) (elements : List Tree)
  | operation (line : Int) (operator : String) (operands : List Tree)
  | other (line : Int) (kind : String) (nodes : List Tree)
  /-- An `other` node over a body, its handler and what runs in the end. -/
  | tryCatch (line : Int) (body : Tree) (handler finalizer : Option Tree)

/-- Nodes laid down so far. -/
abbrev Placing := StateM (Array Node)

namespace Placing

/-- Lays down one node. -/
def add (line : Int) (form : Form) : Placing NodeId := fun nodes =>
  (nodes.size, nodes.push ⟨line, form⟩)

/-- Lays down plain names. -/
def names : List (Int × String) → Placing (List NodeId)
  | [] => return []
  | (line, ident) :: rest => do
    let id ← add line (.name ident)
    return id :: (← names rest)

end Placing

open Placing (add)

mutual

/-- Lays down a tree. Gives its node and the functions met. -/
def Tree.place : Tree → Placing (NodeId × List NodeId)
  | .function line name params body locals => do
    let (params, fs) ← placeAll params
    let (body, gs) ← placeAll body
    let id ← add line (.function name params body locals)
    return (id, id :: fs ++ gs)
  | .declaration line kind bindings => do
    let (bindings, fs) ← placeAll bindings
    return (← add line (.declaration kind (bindings.filterMap id)), fs)
  | .binding line target init => do
    let (target, fs) ← place? target
    let (init, gs) ← place? init
    return (← add line (.binding target init), fs ++ gs)
  | .assignment line operator target value => do
    let (target, fs) ← target.place
    let (value, gs) ← value.place
    return (← add line (.assignment operator (some target) (some value)), fs ++ gs)
  | .name line ident => return (← add line (.name ident), [])
  | .pattern line names defaults => do
    let names ← Placing.names names
    let (defaults, fs) ← placeAll defaults
    return (← add line (.pattern names defaults), fs)
  | .thisRef line => return (← add line .thisRef, [])
  | .call line callee args isNew => do
    let (callee, fs) ← callee.place
    let (args, gs) ← placeAll args
    return (← add line (.call (some callee) args isNew), fs ++ gs)
  | .member line object property propName => do
    let (object, fs) ← object.place
    let (property, gs) ← place? property
    return (← add line (.member (some object) property propName property.isSome), fs ++ gs)
  | .conditional line kind init test update each body otherwise => do
    let (init, f₁) ← place? init
    let (test, f₂) ← place? test
    let (update, f₃) ← place? update
    let (each, f₄) ← place? each
    let (body, f₅) ← place? body
    let (otherwise, f₆) ← place? otherwise
    let id ← add line (.conditional kind init test update each body otherwise)
    return (id, f₁ ++ f₂ ++ f₃ ++ f₄ ++ f₅ ++ f₆)
  | .switch line discriminant clauses => do
    let (discriminant, fs) ← discriminant.place
    let (clauses, gs) ← placeAll clauses
    return (← add line (.switch (some discriminant) (clauses.filterMap id)), fs ++ gs)
  | .clause line test body => do
    let (test, fs) ← place? test
    let (body, gs) ← placeAll body
    return (← add line (.clause test body), fs ++ gs)
  | .literal line kind raw truthy => return (← add line (.literal kind raw truthy), [])
  | .composite line array elements => do
    let (elements, fs) ← placeAll elements
    return (← add line (.composite array elements), fs)
  | .operation line operator operands => do
    let (operands, fs) ← placeAll operands
    return (← add line (.operation operator operands), fs)
  | .other line kind nodes => do
    let (nodes, fs) ← placeAll nodes
    return (← add line (.other kind nodes), fs)
  | .tryCatch line body handler finalizer => do
    let (handler, fs) ← place? handler
    let (body, gs) ← body.place
    let (finalizer, hs) ← place? finalizer
    let id ← add line (.other "try" (present [some body, handler, finalizer]))
    return (id, fs ++ gs ++ hs)

/-- Lays down trees in order. -/
def placeAll : List Tree → Placing (List (Option NodeId) × List NodeId)
  | [] => return ([], [])
  | t :: ts => do
    let (id, fs) ← t.place
    let (ids, gs) ← placeAll ts
    return (some id :: ids, fs ++ gs)

def place? : Option Tree → Placing (Option NodeId × List NodeId)
  | none => return (none, [])
  | some t => do
    let (id, fs) ← t.place
    return (some id, fs)

end

/-- A program: its nodes, those of its body, and its functions. -/
structure Program where
  file : String
  graph : Graph := {}
  body : List (Option NodeId) := []
  functions : List NodeId := []

/-- The program that trees make. -/
def Program.ofTrees (file : String) (trees : List Tree) : Program :=
  let ((body, functions), nodes) := placeAll trees #[]
  { file, graph := ⟨nodes⟩, body, functions }

end TaintReach
