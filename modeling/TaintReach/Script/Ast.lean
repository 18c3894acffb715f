import TaintReach.Node
import TaintReach.Script.Cursor
import TaintReach.Script.Numeral

/-! The grammar's own trees.

Parentheses leave no trace, an optional chain is the plain chain, and a gap in an
array is an expression of its own. What can be assigned to or declared is a
`Pattern`; expressions that turn out to be one are read again as such. -/
namespace TaintReach.Script

mutual

inductive Expr where
  | identifier (pos : Pos) (name : String)
  | thisRef (pos : Pos)
  | null (pos : Pos)
  | boolean (pos : Pos) (value : Bool)
  | number (pos : Pos) (raw : String) (value : Numeral)
  | string (pos : Pos) (raw : String) (units : List Nat)
  | regexp (pos : Pos) (raw : String)
  /-- `chunks` are the texts around the substitutions, as spelled. -/
  | template (pos : Pos) (tag : Option Expr) (chunks : List String) (holes : List Expr)
  /-- `commaAfterLast` tells whether a comma stands between the last item and the bracket. -/
  | array (pos : Pos) (items : List Expr) (commaAfterLast : Bool)
  /-- A position of an array that is left out. -/
  | gap
  | spread (argument : Expr)
  | object (pos : Pos) (properties : List Property)
  | assign (operator : String) (target : Pattern) (value : Expr)
  | binary (operator : String) (left right : Expr)
  | unary (pos : Pos) (operator : String) (operand : Expr)
  | postfixOp (operator : String) (operand : Expr)
  | call (callee : Expr) (args : List Expr)
  | construct (pos : Pos) (callee : Expr) (args : List Expr)
  | dot (object : Expr) (name : String)
  | privateDot (object : Expr)
  | bracket (object key : Expr)
  | ternary (test yes no : Expr)
  | sequence (items : List Expr)
  | function (f : Function)
  | arrow (f : Function)
  | classExpr (c : Class)
  | await (pos : Pos) (argument : Expr)
  | yield (pos : Pos) (argument : Option Expr)
  /-- A chain with an optional step in it. -/
  | chain (e : Expr)
  /-- The object of an optional step. -/
  | optional (e : Expr)
  | superRef (pos : Pos)
  | privateName (pos : Pos)
  | newTarget (pos : Pos)

inductive Property where
  /-- `plain` holds for `key: value`, not for methods and accessors. -/
  | keyed (key : Key) (value : Expr) (plain : Bool)
  | short (pos : Pos) (name : String) (default : Option Expr)
  | spread (argument : Expr)

inductive Key where
  /-- A name or string. -/
  | text (name : String)
  | number (raw : String)
  | computed (e : Expr)
  | hidden

/-- What a value is bound to. -/
inductive Pattern where
  | name (pos : Pos) (ident : String)
  /-- A property of an object, or whatever else may stand there. -/
  | member (e : Expr)
  | withDefault (target : Pattern) (default : Expr)
  | array (pos : Pos) (elements : List Pattern) (rest : Option Pattern)
  | object (pos : Pos) (properties : List PatternProperty) (rest : Option Pattern)

inductive PatternProperty where
  | short (pos : Pos) (name : String) (default : Option Expr)
  | keyed (key : Key) (value : Pattern)

inductive Binding where
  | mk (target : Pattern) (init : Option Expr)

inductive Function where
  | mk (pos : Pos) (name : Option String) (params : List Binding) (rest : Option Pattern)
    (body : FunctionBody)

inductive FunctionBody where
  | block (statements : List Stmt)
  | concise (value : Expr)

inductive Class where
  | mk (pos : Pos) (name : Option String) (superClass : Option Expr) (members : List Member)

inductive Member where
  | method (key : Key) (f : Function)
  | field (key : Key) (init : Option Expr)
  | staticBlock (body : List Stmt)

inductive Stmt where
  | block (pos : Pos) (statements : List Stmt)
  | expression (e : Expr)
  | declare (pos : Pos) (kind : DeclKind) (bindings : List Binding)
  | function (f : Function)
  | classDecl (c : Class)
  | ifElse (test : Expr) (yes : Stmt) (no : Option Stmt)
  | forLoop (pos : Pos) (init : Option Stmt) (test update : Option Expr) (body : Stmt)
  /-- `kind` is one of the two enumerating loops; `declares` tells whether the target is new. -/
  | forEach (pos : Pos) (kind : CondKind) (declares : Bool) (target : Pattern) (source : Expr)
    (body : Stmt)
  | whileLoop (pos : Pos) (test : Expr) (body : Stmt)
  | doLoop (pos : Pos) (body : Stmt) (test : Expr)
  | switch (pos : Pos) (discriminant : Expr) (clauses : List Clause)
  | ret (pos : Pos) (value : Option Expr)
  | throw (pos : Pos) (value : Expr)
  | tryCatch (pos : Pos) (body : Stmt) (handler : Option Handler) (finalizer : Option Stmt)
  | labelled (label : String) (body : Stmt)
  | withObject (pos : Pos) (object : Expr) (body : Stmt)
  /-- Empty statements, jumps and breakpoints. -/
  | nothing

inductive Clause where
  | mk (pos : Pos) (test : Option Expr) (body : List Stmt)

inductive Handler where
  | mk (pos : Pos) (param : Option Pattern) (body : Stmt)

end

instance : Inhabited Expr := ⟨.gap⟩
instance : Inhabited Pattern := ⟨.member .gap⟩
instance : Inhabited Stmt := ⟨.nothing⟩

/-! ### Where things start -/

mutual

/-- The place of the first token of an expression; templates start at their quote. -/
def Expr.pos : Expr → Pos
  | .identifier pos _ | .thisRef pos | .null pos | .boolean pos _ | .number pos _ _
  | .string pos _ _ | .regexp pos _ | .template pos .. | .array pos .. | .object pos _
  | .unary pos .. | .construct pos .. | .await pos _ | .yield pos _ | .superRef pos
  | .privateName pos | .newTarget pos => pos
  | .gap => {}
  | .spread e | .postfixOp _ e | .call e _ | .dot e _ | .privateDot e | .bracket e _
  | .ternary e _ _ | .binary _ e _ | .chain e | .optional e => e.pos
  | .assign _ target _ => target.pos
  | .sequence items => Expr.posOfFirst items
  | .function (.mk pos ..) | .arrow (.mk pos ..) | .classExpr (.mk pos ..) => pos

def Expr.posOfFirst : List Expr → Pos
  | [] => {}
  | e :: _ => e.pos

def Pattern.pos : Pattern → Pos
  | .name pos _ | .array pos .. | .object pos .. => pos
  | .member e => e.pos
  | .withDefault target _ => target.pos

end

/-- A script: its statements in order. -/
abbrev Ast := List Stmt

end TaintReach.Script
