import TaintReach.Script.Parser
import TaintReach.Tree

/-! Scripts as syntax trees.

`Expr.tree` and `Stmt.tree?` keep what the analysis looks at: names, assignments,
calls, members, conditions and literals. Labels, jumps and empty statements vanish,
patterns are flattened to the names they bind, and a construct without a rule of
its own is an `other` node. A function without a name takes that of the variable,
property or member it becomes the value of. -/
namespace TaintReach.Script

/-- The name of a function that has none. -/
def anonymous : String := "anonymous"

/-! ### Names -/

/-- What a value bound to a target is called. -/
def Pattern.label : Pattern → String
  | .name _ ident => ident
  | .member (.dot _ property) => property
  | _ => anonymous

/-- What a value under a key is called. -/
def Key.label : Key → String
  | .text name => name
  | .number raw => raw
  | .computed (.identifier _ name) => name
  | .computed (.string _ _ units) => String.ofList (Text.ofUnits units)
  | .computed (.number _ raw _) => raw
  | .computed _ | .hidden => anonymous

mutual

/-- The names in a pattern with their lines, in order. -/
def Pattern.names : Pattern → List (Int × String)
  | .name pos ident => [(pos.line, ident)]
  | .member _ => []
  | .withDefault target _ => target.names
  | .array _ elements rest => namesOfElements elements ++ namesOfRest rest
  | .object _ properties rest => namesOfProperties properties ++ namesOfRest rest

def namesOfElements : List Pattern → List (Int × String)
  | [] => []
  | p :: ps => p.names ++ namesOfElements ps

def namesOfProperties : List PatternProperty → List (Int × String)
  | [] => []
  | .short pos name _ :: ps => (pos.line, name) :: namesOfProperties ps
  | .keyed _ value :: ps => value.names ++ namesOfProperties ps

def namesOfRest : Option Pattern → List (Int × String)
  | none => []
  | some p => p.names

end

/-! ### Declared names -/

/-- The names a target declares. -/
def Pattern.idents (p : Pattern) : List String := p.names.map Prod.snd

def Binding.idents : Binding → List String
  | .mk target _ => target.idents

def bindingIdents (bs : List Binding) : List String := bs.flatMap Binding.idents

mutual

/-- The names a statement declares in the function it stands in. -/
def Stmt.declared : Stmt → List String
  | .block _ list => declaredByAll list
  | .declare _ _ bindings => bindingIdents bindings
  | .function (.mk _ name _ _ _) | .classDecl (.mk _ name _ _) => name.toList
  | .ifElse _ yes no => yes.declared ++ declaredBy? no
  | .forLoop _ init _ _ body => declaredBy? init ++ body.declared
  | .forEach _ _ declares target _ body =>
    (if declares then target.idents else []) ++ body.declared
  | .whileLoop _ _ body | .doLoop _ body _ | .labelled _ body | .withObject _ _ body =>
    body.declared
  | .switch _ _ clauses => declaredByClauses clauses
  | .tryCatch _ body handler finalizer =>
    body.declared ++ declaredByHandler handler ++ declaredBy? finalizer
  | .expression _ | .ret .. | .throw .. | .nothing => []

def declaredByAll : List Stmt → List String
  | [] => []
  | s :: ss => s.declared ++ declaredByAll ss

def declaredBy? : Option Stmt → List String
  | none => []
  | some s => s.declared

def declaredByClauses : List Clause → List String
  | [] => []
  | .mk _ _ body :: cs => declaredByAll body ++ declaredByClauses cs

def declaredByHandler : Option Handler → List String
  | none => []
  | some (.mk _ param body) =>
    (match param with
      | some p => p.idents
      | none => []) ++ body.declared

end

/-- The names a function declares: those of its parameters and of its own body. -/
def Function.declared : Function → List String
  | .mk _ _ params rest body =>
    bindingIdents params ++
    (match rest with
      | some p => p.idents
      | none => []) ++
    (match body with
      | .block list => declaredByAll list
      | .concise _ => [])

/-- The declared names as a set: each once, in the order of their characters. -/
def Function.locals (f : Function) : List String :=
  (f.declared.mergeSort fun a b => decide (a ≤ b)).eraseReps

/-! ### Trees -/

mutual

/-- The tree of an expression. A function without a name takes `given`. -/
def Expr.tree (given : String) (e : Expr) : Tree :=
  match e with
  | .identifier pos name => .name pos.line name
  | .thisRef pos => .thisRef pos.line
  | .null pos => .literal pos.line .null "null" false
  | .boolean pos value => .literal pos.line .bool (if value then "true" else "false") value
  | .number pos raw value => .literal pos.line .number raw value.truthy
  | .string pos raw units => .literal pos.line .string raw (!units.isEmpty)
  | .regexp pos raw => .literal pos.line .regexp raw true
  | .template pos none chunks [] => .literal pos.line .string "" (chunks.any (· ≠ ""))
  | .template pos tag _ holes =>
    .other pos.line "template" ((Expr.tree? tag).toList ++ Expr.trees holes)
  | .array pos items _ => .composite pos.line true (Expr.trees items)
  | .gap => .other 0 "expression" []
  | .spread argument => argument.tree anonymous
  | .object pos properties => .composite pos.line false (Property.trees properties)
  | .assign operator target value =>
    .assignment target.pos.line operator target.tree (value.tree target.label)
  | .binary operator left right =>
    .operation left.pos.line operator [left.tree anonymous, right.tree anonymous]
  | .unary pos operator operand => .operation pos.line operator [operand.tree anonymous]
  | .postfixOp operator operand =>
    .operation operand.pos.line operator [operand.tree anonymous]
  | .call callee args => .call callee.pos.line (callee.tree anonymous) (Expr.trees args) false
  | .construct pos callee args =>
    .call pos.line (callee.tree anonymous) (Expr.trees args) true
  | .dot object name => .member object.pos.line (object.tree anonymous) none name
  | .privateDot object => .other object.pos.line "expression" []
  | .bracket object key =>
    .member object.pos.line (object.tree anonymous) (some (key.tree anonymous)) ""
  | .ternary test yes no =>
    .other test.pos.line "ternary" [test.tree anonymous, yes.tree anonymous, no.tree anonymous]
  | .sequence items => .other (Expr.posOfFirst items).line "sequence" (Expr.trees items)
  | .function f | .arrow f => f.tree given
  | .classExpr c => c.tree
  | .await pos argument => .other pos.line "await" [argument.tree anonymous]
  | .yield pos argument => .other pos.line "yield" (Expr.tree? argument).toList
  | .chain e | .optional e => e.tree anonymous
  | .superRef pos | .privateName pos | .newTarget pos => .other pos.line "expression" []

/-- Gaps vanish. -/
def Expr.trees : List Expr → List Tree
  | [] => []
  | .gap :: es => Expr.trees es
  | e :: es => e.tree anonymous :: Expr.trees es

def Expr.tree? : Option Expr → Option Tree
  | none => none
  | some e => some (e.tree anonymous)

/-- The value of a property is called by its key; computed keys stand before it. -/
def Property.trees : List Property → List Tree
  | [] => []
  | .keyed (.computed key) value _ :: ps =>
    key.tree anonymous :: value.tree (Key.computed key).label :: Property.trees ps
  | .keyed key value _ :: ps => value.tree key.label :: Property.trees ps
  | .short pos name default :: ps =>
    .name pos.line name :: ((Expr.tree? default).toList ++ Property.trees ps)
  | .spread argument :: ps => argument.tree anonymous :: Property.trees ps

/-- The tree of what is assigned to. -/
def Pattern.tree : Pattern → Tree
  | .name pos ident => .name pos.line ident
  | .member e => e.tree anonymous
  | .withDefault target value =>
    .pattern target.pos.line target.names (target.defaults ++ [value.tree anonymous])
  | .array pos elements rest =>
    .pattern pos.line (namesOfElements elements ++ namesOfRest rest)
      (defaultsOfElements elements ++ defaultsOfRest rest)
  | .object pos properties rest =>
    .pattern pos.line (namesOfProperties properties ++ namesOfRest rest)
      (defaultsOfProperties properties ++ defaultsOfRest rest)

/-- The default values in a pattern, in order. -/
def Pattern.defaults : Pattern → List Tree
  | .name .. => []
  | .member _ => []
  | .withDefault target value => target.defaults ++ [value.tree anonymous]
  | .array _ elements rest => defaultsOfElements elements ++ defaultsOfRest rest
  | .object _ properties rest => defaultsOfProperties properties ++ defaultsOfRest rest

def defaultsOfElements : List Pattern → List Tree
  | [] => []
  | p :: ps => p.defaults ++ defaultsOfElements ps

def defaultsOfProperties : List PatternProperty → List Tree
  | [] => []
  | .short _ _ default :: ps => (Expr.tree? default).toList ++ defaultsOfProperties ps
  | .keyed _ value :: ps => value.defaults ++ defaultsOfProperties ps

def defaultsOfRest : Option Pattern → List Tree
  | none => []
  | some p => p.defaults

def Binding.trees : List Binding → List Tree
  | [] => []
  | .mk target none :: bs =>
    .binding target.pos.line (some target.tree) none :: Binding.trees bs
  | .mk target (some init) :: bs =>
    .binding target.pos.line (some target.tree) (some (init.tree target.label)) ::
      Binding.trees bs

/-- The tree of a function, called `given` if it has no name of its own. -/
def Function.tree (given : String) : Function → Tree
  | .mk pos name params rest body =>
    .function pos.line (name.getD given) (Binding.trees params ++ restTree rest) body.trees
      (Function.mk pos name params rest body).locals

def restTree : Option Pattern → List Tree
  | none => []
  | some p => [.binding p.pos.line (some p.tree) none]

/-- A body that is one value returns it. -/
def FunctionBody.trees : FunctionBody → List Tree
  | .block list => Stmt.trees list
  | .concise value => [.other value.pos.line "return" [value.tree anonymous]]

/-- A class shows what it extends, its methods and the values of its fields. -/
def Class.tree : Class → Tree
  | .mk pos _ superClass members =>
    .other pos.line "class" ((Expr.tree? superClass).toList ++ Member.trees members)

def Member.trees : List Member → List Tree
  | [] => []
  | .method key f :: ms => f.tree key.label :: Member.trees ms
  | .field key (some init) :: ms => init.tree key.label :: Member.trees ms
  | .field _ none :: ms => Member.trees ms
  | .staticBlock _ :: ms => Member.trees ms

/-- The tree of a statement, if anything is left of it. -/
def Stmt.tree? : Stmt → Option Tree
  | .block pos list => some (.other pos.line "block" (Stmt.trees list))
  | .expression e => some (e.tree anonymous)
  | .declare pos kind bindings => some (.declaration pos.line kind (Binding.trees bindings))
  | .function f => some (f.tree anonymous)
  | .classDecl c => some c.tree
  | .ifElse test yes no =>
    some (.conditional test.pos.line .branch none (some (test.tree anonymous)) none none
      yes.tree? (Stmt.treeOf? no))
  | .forLoop pos init test update body =>
    some (.conditional pos.line .forLoop (Stmt.treeOf? init) (Expr.tree? test)
      (Expr.tree? update) none body.tree? none)
  | .forEach pos kind _ target source body =>
    some (.conditional pos.line kind none none none
      (some (.binding source.pos.line (some target.tree) (some (source.tree anonymous))))
      body.tree? none)
  | .whileLoop pos test body =>
    some (.conditional pos.line .whileLoop none (some (test.tree anonymous)) none none
      body.tree? none)
  | .doLoop pos body test =>
    some (.other pos.line "do-while" (body.tree?.toList ++ [test.tree anonymous]))
  | .switch pos discriminant clauses =>
    some (.switch pos.line (discriminant.tree anonymous) (Clause.trees clauses))
  | .ret pos value => some (.other pos.line "return" (Expr.tree? value).toList)
  | .throw pos value => some (.other pos.line "throw" [value.tree anonymous])
  | .tryCatch pos body handler finalizer =>
    some (.tryCatch pos.line (body.tree?.getD (.other pos.line "block" []))
      (Handler.tree? handler) (Stmt.treeOf? finalizer))
  | .labelled _ body => body.tree?
  | .withObject pos object body =>
    some (.other pos.line "with" (object.tree anonymous :: body.tree?.toList))
  | .nothing => none

def Stmt.trees : List Stmt → List Tree
  | [] => []
  | s :: ss => s.tree?.toList ++ Stmt.trees ss

def Stmt.treeOf? : Option Stmt → Option Tree
  | none => none
  | some s => s.tree?

def Clause.trees : List Clause → List Tree
  | [] => []
  | .mk pos test body :: cs =>
    .clause pos.line (Expr.tree? test) (Stmt.trees body) :: Clause.trees cs

def Handler.tree? : Option Handler → Option Tree
  | none => none
  | some (.mk pos none body) => some (.other pos.line "catch" body.tree?.toList)
  | some (.mk pos (some param) body) =>
    some (.other pos.line "catch"
      (.binding param.pos.line (some param.tree) none :: body.tree?.toList))

end

/-- The program a script is; `load` gives the files that source maps are in. -/
def readWith (load : String → Option String) (file code : String) :
    Except Parser.SyntaxError Program :=
  (Parser.parse load file code).map fun ast => Program.ofTrees file (Stmt.trees ast)

/-- The program a script is that has no files beside it. -/
def read (file code : String) : Except Parser.SyntaxError Program :=
  readWith (fun _ => none) file code

end TaintReach.Script
