import TaintReach.Report
import TaintReach.Scope.Dependency
import TaintReach.Text.Fold
import TaintReach.Text.Quote

/-! Dependency graphs in the DOT language.

Each scope is a directed graph with an edge from every dependency to the variable
that derives from it. Sources are boxes, and tainted variables have a colour. -/
namespace TaintReach.Report.Dot

/-! ### Identifiers -/

/-- Words of the language, in any case. -/
def isKeyword (s : String) : Bool :=
  ["node", "edge", "graph", "digraph", "subgraph", "strict"].any (Text.isWordFolded · s)

/-- Letters, the underscore, and the upper half of the first 256 characters. -/
def isWordStart (c : Char) : Bool :=
  c.isAlpha || c = '_' || (0x80 ≤ c.toNat && c.toNat < 0x100)

def isWord : List Char → Bool
  | [] => false
  | c :: cs => isWordStart c && cs.all fun c => isWordStart c || c.isDigit

/-- An optional minus, then digits with at most one point among them. -/
def isNumeral (cs : List Char) : Bool :=
  let cs := match cs with
    | '-' :: r => r
    | r => r
  let whole := cs.takeWhile Char.isDigit
  match cs.drop whole.length with
  | [] => !whole.isEmpty
  | '.' :: fraction => fraction.all Char.isDigit && !(whole.isEmpty && fraction.isEmpty)
  | _ => false

/-- Text between angle brackets. -/
def isMarkup (cs : List Char) : Bool := cs.head? = some '<' && cs.getLast? = some '>'

/-- An identifier, in quotes if it cannot stand as it is. -/
def ident (s : String) : String :=
  let cs := s.toList
  if !isKeyword s && (isWord cs || isNumeral cs || Text.isQuoted cs || isMarkup cs) then s
  else Text.quote s

/-! ### Graphs -/

def nodeName (i : Nat) : String := "v" ++ toString i

/-- What is shown of a variable. -/
def attributes (v : Variable) : List (String × String) :=
  ("label", v.id) :: (if v.source then [("shape", "box")] else []) ++
    (if v.taint = .must then [("color", "red")]
      else if v.taint = .may then [("color", "orange")] else [])

/-- Edges by the number of their ends. -/
def sortedEdges (g : DependencyGraph) : List (Nat × Nat) :=
  g.edges.mergeSort fun a b => a.1 < b.1 || (a.1 = b.1 && a.2 ≤ b.2)

/-- Several attributes take a line each. -/
def attributeText : List (String × String) → String
  | [] => ""
  | [(k, v)] => " [" ++ ident k ++ "=" ++ ident v ++ "]"
  | list =>
    " [" ++ String.join (list.map fun (k, v) => "\n\t\t" ++ ident k ++ "=" ++ ident v) ++
      "\n\t]"

def nodeLine (n : Nat × Variable) : String :=
  "\n\t" ++ nodeName n.1 ++ attributeText (attributes n.2) ++ ";"

def edgeLine (e : Nat × Nat) : String :=
  "\n\t" ++ nodeName e.1 ++ " -> " ++ nodeName e.2 ++ ";"

/-- The graph of one scope. -/
def graph (name : String) (g : DependencyGraph) : String :=
  let nodes := if g.nodes.isEmpty then "" else
    "\n\t// Node definitions." ++ String.join (g.nodes.map nodeLine)
  let edges := if g.edges.isEmpty then "" else
    "\n\n\t// Edge definitions." ++ String.join ((sortedEdges g).map edgeLine)
  "strict digraph " ++ (if name = "" then "" else ident name ++ " ") ++ "\x7b" ++ nodes ++ edges ++
    "\n\x7d"

/-- One graph per reported scope; a scope that is not known is passed over. -/
def render (d : Document) : String :=
  String.join (d.results.keys.filterMap fun name =>
    ((d.scopes.lookup name).bind Scope.dependencyGraph?).map fun g => graph name g ++ "\n")

end TaintReach.Report.Dot
