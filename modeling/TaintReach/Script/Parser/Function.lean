import TaintReach.Script.Parser.Basic

/-! Functions, their parameters and bodies, and the literals that hold them. -/
namespace TaintReach.Script.Parser

/-! ### Blocks and function bodies -/

/-- The statements up to a closing brace. -/
def statements (G : Grammar) : Parse (List Stmt) :=
  iterate (fun list => do
    let t ← token
    if t = .punct "\x7d" || t = .eof then return .inr list.reverse
    modify fun s => { s with context := { s.context with allowLet := true } }
    return .inl ((← G.statement) :: list)) G.depth []

/-- `{ ... }`: its place and its statements. -/
def block (G : Grammar) : Parse (Pos × List Stmt) := do
  let pos ← expectMark "\x7b"
  let list ← statements G
  discard (expectMark "\x7d")
  return (pos, list)

/-- A body with surroundings of its own. -/
def functionBlock (G : Grammar) (async awaitReserved yieldReserved : Bool) :
    Parse (List Stmt) := do
  let (_, list) ← within
    (fun _ => { inFunction := true, inAsync := async, awaitReserved, yieldReserved }) (block G)
  return list

/-! ### Parameters -/

/-- One declared target with its initial value. -/
def binding (G : Grammar) : Parse Binding := do
  let target ← G.target
  if ← skipMark "=" then return .mk target (some (← G.assignment))
  return .mk target none

def bindings (G : Grammar) : Parse (List Binding) := do
  let first ← binding G
  iterate (fun list => do
    if ← skipMark "," then return .inl ((← binding G) :: list)
    return .inr list.reverse) G.depth [first]

structure Params where
  list : List Binding
  rest : Option Pattern

/-- `( ... )` in front of a body. -/
def parameters (G : Grammar) : Parse Params := do
  discard (expectMark "(")
  let outer ← context
  setContext { outer with inParams := true }
  let params ← iterate (fun list => do
    if ← isAtMark ")" then return .inr ⟨list.reverse, none⟩
    if ← skipMark "..." then
      match (← G.assignment).toBinding? with
      | some rest => return .inr ⟨list.reverse, some rest⟩
      | none => fail
    let b ← binding G
    if !(← isAtMark ")") then discard (expectMark ",")
    return .inl (b :: list)) G.depth []
  discard (expectMark ")")
  modify fun s => { s with context := { s.context with inParams := outer.inParams } }
  return params

/-! ### Functions -/

/-- A function from its `function` keyword on; `pos` is where it starts. The name
of a declaration belongs to the surroundings, that of an expression to the
function. -/
def function (G : Grammar) (declaration async : Bool) (pos : Pos) : Parse Function := do
  discard (expectKeyword "function")
  let generator ← skipMark "*"
  let inner (c : Context) : Context := { c with awaitReserved := async, yieldReserved := generator }
  let outer ← context
  if !declaration then setContext (inner outer)
  let name ← if ← atName then pure (some (← takeName))
    else if declaration then fail else pure none
  if declaration then setContext (inner outer)
  let params ← parameters G
  let body ← functionBlock G async async generator
  modify fun s => { s with context := outer }
  return .mk pos name params.list params.rest (.block body)

/-- `async function`, if that is what stands here. -/
def asyncFunction? (G : Grammar) (declaration : Bool) : Parse (Option Function) := do
  let pos ← position
  if (← peek) = .keyword "function" then
    next
    return some (← function G declaration true pos)
  return none

inductive MethodKind where
  | method
  | getter
  | setter
deriving DecidableEq, Repr

/-- Parameters and body of a method. A getter takes none, a setter exactly one. -/
def method (G : Grammar) (pos : Pos) (kind : MethodKind) (generator async : Bool) :
    Parse Function := do
  let outer ← context
  setContext { outer with yieldReserved := generator, awaitReserved := async }
  let params ← parameters G
  match kind with
  | .getter => if !params.list.isEmpty || params.rest.isSome then fail
  | .setter => if params.list.length ≠ 1 || params.rest.isSome then fail
  | .method => pure ()
  let body ← functionBlock G async async generator
  modify fun s => { s with context := outer }
  return .mk pos none params.list params.rest (.block body)

/-! ### Array and object literals -/

/-- Behind the dots of a spread. -/
def spread (G : Grammar) : Parse Expr := do
  discard (expectMark "...")
  return .spread (← G.assignment)

/-- `[ ... ]`. A comma where an item could stand is a gap. Whether a comma follows
the last item is told by the text behind the end of that item. -/
def arrayLiteral (G : Grammar) : Parse Expr := do
  let opening := (← get).after
  let pos ← expectMark "["
  let commaBehind : Parse Bool := do
    let s ← get
    return (opening.textFrom s.targetEnd s.current.pos).contains ','
  let (items, comma) ← iterate (fun (items, comma) => do
    if ← isAtMark "]" then return .inr (items.reverse, comma)
    if ← skipMark "," then return .inl (.gap :: items, true)
    let item ← if ← isAtMark "..." then spread G else G.assignment
    if !(← isAtMark "]") then discard (expectMark ",")
    return .inl (item :: items, ← commaBehind)) G.depth ([], false)
  closeTarget "]"
  return .array pos items comma

/-- A property key as it stands: its token (illegal for a computed one), spelling and name. -/
structure KeyFound where
  key : Key
  token : Token
  raw : String
  name : String

/-- A word, string, number, private name, or an expression in brackets. -/
def propertyKey (G : Grammar) : Parse KeyFound := do
  if ← skipMark "[" then
    let e ← G.assignment
    discard (expectMark "]")
    return ⟨.computed e, .illegal, "", ""⟩
  let word := (← get).current
  next
  match word.token with
  | .string units =>
    let name := String.ofList (Text.ofUnits units)
    return ⟨.text name, word.token, word.raw, name⟩
  | .number _ => return ⟨.number word.raw, word.token, word.raw, ""⟩
  | .privateName => return ⟨.hidden, word.token, word.raw, word.name⟩
  | t => if t.isWord then return ⟨.text word.name, t, word.raw, word.name⟩ else fail

/-- Whether a key is computed. -/
def KeyFound.isComputed (k : KeyFound) : Bool := k.token = .illegal

/-- Whether a key can be followed by a method or stand for a variable of its name. -/
def KeyFound.isPlain (k : KeyFound) : Bool :=
  match k.token with
  | .string _ | .number _ | .illegal => true
  | t => t.isWord

/-- One property of an object literal. -/
def property (G : Grammar) : Parse Property := do
  if ← skipMark "..." then return .spread (← G.assignment)
  let pos ← position
  let generator ← skipMark "*"
  let k ← propertyKey G
  if generator && k.isPlain then
    return .keyed k.key (.function (← method G pos .method true false)) false
  let t ← token
  if k.isPlain && t = .punct "(" then
    return .keyed k.key (.function (← method G pos .method false false)) false
  if k.isPlain && (t = .punct "," || t = .punct "\x7d" || t = .punct "=") then
    if !isName (← context) k.token then fail
    let default ← if ← skipMark "=" then pure (some (← G.assignment)) else pure none
    return .short pos k.name default
  let async := k.token = .soft "async"
  if k.isPlain && (k.raw = "get" || k.raw = "set" || async) && t ≠ .punct ":" then
    let inner ← propertyKey G
    let kind : MethodKind :=
      if async then .method else if k.raw = "get" then .getter else .setter
    return .keyed inner.key (.function (← method G pos kind false async)) false
  discard (expectMark ":")
  return .keyed k.key (← G.assignment) true

/-- `{ ... }` as an expression. -/
def objectLiteral (G : Grammar) : Parse Expr := do
  let pos ← expectMark "\x7b"
  let properties ← iterate (fun list => do
    if ← isAtMark "\x7d" then return .inr list.reverse
    let p ← property G
    if !(← isAtMark "\x7d") then discard (expectMark ",")
    return .inl (p :: list)) G.depth []
  closeTarget "\x7d"
  return .object pos properties

/-- A name, or a literal read as a pattern. -/
def declaredTarget (G : Grammar) : Parse Pattern := do
  let pos ← position
  if ← atName then return .name pos (← takeName)
  let literal ← if ← isAtMark "[" then arrayLiteral G
    else if ← isAtMark "\x7b" then objectLiteral G
    else fail
  match literal.toBinding? with
  | some target => return target
  | none => fail

end TaintReach.Script.Parser
