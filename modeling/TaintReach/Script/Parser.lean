import TaintReach.Script.Parser.Statement
import TaintReach.Script.SourceMap

/-! Reading a whole script. -/
namespace TaintReach.Script.Parser

/-- The grammar with `n` levels left. Each level gives the parts of the level
above what they refer to. -/
def grammar : Nat → Grammar
  | 0 => ⟨0, fail, fail, fail, fail, fail, fail, fail, fail, fail⟩
  | n + 1 =>
    { depth := n
      expression := fun s => Parser.expression (grammar n) s
      assignment := fun s => Parser.assignment (grammar n) s
      unary := fun s => Parser.unary (grammar n) s
      power := fun s => Parser.power (grammar n) s
      relation := fun s => Parser.relation (grammar n) s
      callable := fun s => Parser.callable (grammar n) s
      constructed := fun s => Parser.constructed (grammar n) s
      target := fun s => Parser.declaredTarget (grammar n) s
      statement := fun s => Parser.statement (grammar n) s }

/-- All statements up to the end of the text. -/
def script (G : Grammar) : Parse Ast := do
  next
  iterate (fun list => do
    if ← isAt .eof then return .inr list.reverse
    modify fun s => { s with context := { s.context with allowLet := true } }
    return .inl ((← G.statement) :: list)) G.depth []

/-- A text of `n` characters is read with this many levels: a level down is taken
at most a few times between two characters. -/
def levels (n : Nat) : Nat := 4 * n + 64

/-- Reads a script from the state at its start. -/
def parseFrom (start : State) : Except SyntaxError Ast :=
  match script (grammar (levels start.after.rest.length)) start with
  | .error e => .error e
  | .ok (ast, s) => if s.noted then .error ⟨s.current.pos⟩ else .ok ast

/-- Reads a script. If it has a source map, its lines are those of the sources; a map
that cannot be had is a mistake in the script. -/
def parse (load : String → Option String) (file code : String) : Except SyntaxError Ast := do
  let start : State := { current := default, after := { rest := code.toList }, canEnd := false }
  let ast ← parseFrom start
  match SourceMap.find load file code with
  | .error _ => .error ⟨{}⟩
  | .ok none => return ast
  | .ok (some map) => parseFrom { start with lineOf := map.lineOf, noLine := map.noLine }

end TaintReach.Script.Parser
