import TaintReach.Node
import TaintReach.Reachability

/-! The reachability class of a branch, read off its condition.

Constants are judged by their truth, the logical operators combine the classes
of their operands, and any other expression is as sure as the least sure of its
parts. A node met again below itself makes the answer `never`, and the line of
that node is handed back. -/
namespace TaintReach.Walk

/-- Names bound to a literal, with its truth; the latest binding stands first. -/
abbrev Consts := List (String × Bool)

namespace Consts

def truth? (c : Consts) (ident : String) : Option Bool := c.lookup ident

def forget (c : Consts) (ident : String) : Consts := c.filter (·.1 ≠ ident)

def record (c : Consts) (ident : String) (truthy : Bool) : Consts :=
  (ident, truthy) :: c.forget ident

end Consts

/-- A class, and the line of the last node found below itself. -/
structure Classified where
  reach : Reachable
  loopLine : Option Int := none
deriving DecidableEq, Repr

namespace Classified

/-- Combines two answers; what was found later is what is told. -/
def combine (op : Reachable → Reachable → Reachable) (a b : Classified) : Classified :=
  ⟨op a.reach b.reach, b.loopLine <|> a.loopLine⟩

def negate (a : Classified) : Classified := { a with reach := a.reach.negate }

end Classified

/-- The truth of literals, of names bound to one, and of functions. -/
def constant? (consts : Consts) : Form → Option Bool
  | .literal _ _ truthy => some truthy
  | .name ident => consts.truth? ident
  | .function .. => some true
  | _ => none

/-- Meets the classes of parts from left to right and stops at `never`. -/
def foldParts (part : Option NodeId → Classified) : Classified → List (Option NodeId) → Classified
  | acc, [] => acc
  | acc, child :: rest =>
    let met := acc.combine .meet (part child)
    if met.reach = .never then met else foldParts part met rest

/-- The class of a part of an expression: constants are known values, names are not. -/
def operand (g : Graph) (consts : Consts) (path : List NodeId) (child : Option NodeId) :
    Classified :=
  match child with
  | none => ⟨.always, none⟩
  | some id =>
    match _found : g.node? id with
    | none => ⟨.always, none⟩
    | some n =>
      if (constant? consts n.form).isSome then ⟨.always, none⟩ else
      match n.form with
      | .name _ | .thisRef => ⟨.maybe, none⟩
      | form =>
        if _fresh : id ∈ path then ⟨.never, some n.line⟩
        else foldParts (fun c => operand g consts (id :: path) c) ⟨.always, none⟩ form.children
termination_by g.room path
decreasing_by exact g.room_cons_lt _found _fresh

/-- The class of the branch that a condition guards. -/
def classify (g : Graph) (consts : Consts) (path : List NodeId) (child : Option NodeId) :
    Classified :=
  match child with
  | none => ⟨.always, none⟩
  | some id =>
    match _found : g.node? id with
    | none => ⟨.always, none⟩
    | some n =>
      if _fresh : id ∈ path then ⟨.never, some n.line⟩ else
      match constant? consts n.form with
      | some truthy => ⟨if truthy then .always else .never, none⟩
      | none =>
        match n.form with
        | .name _ | .thisRef => ⟨.maybe, none⟩
        | .operation "!" [a] => (classify g consts (id :: path) a).negate
        | .operation "&&" [a, b] =>
          (classify g consts (id :: path) a).combine .meet (classify g consts (id :: path) b)
        | .operation "||" [a, b] | .operation "??" [a, b] =>
          (classify g consts (id :: path) a).combine .either (classify g consts (id :: path) b)
        | .other "sequence" (first :: rest) =>
          classify g consts (id :: path) ((first :: rest).getLast (by simp))
        | form => foldParts (operand g consts (id :: path)) ⟨.always, none⟩ form.children
termination_by g.room path
decreasing_by all_goals exact g.room_cons_lt _found _fresh

end TaintReach.Walk
