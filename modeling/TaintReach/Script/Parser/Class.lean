import TaintReach.Script.Parser.Function

/-! Classes. -/
namespace TaintReach.Script.Parser

/-- What stands before the key of a class member. -/
structure Modifiers where
  kind : Option MethodKind := none
  async : Bool := false
  generator : Bool := false

/-- Whether the current word is a modifier: something other than the end of a
field or the parameters of a method follows it. -/
def isModifier : Parse Bool := do
  let t ← peek
  return t ≠ .punct ";" && t ≠ .punct "("

/-- Accessor words, `async` and the star of a generator. -/
def modifiers : Parse Modifiers := do
  let word := (← get).current
  let found : Modifiers ←
    if word.raw = "get" || word.raw = "set" then
      if ← isModifier then
        next
        pure { kind := some (if word.raw = "get" then .getter else .setter) }
      else pure {}
    else if word.token = .soft "async" then
      if ← isModifier then
        next
        pure { kind := some .method, async := true }
      else pure {}
    else pure {}
  if (found.kind = none || found.kind = some .method) && (← skipMark "*") then
    return { found with kind := some .method, generator := true }
  return found

/-- A constructor is a plain method. -/
def constructorFits (isStatic : Bool) (m : Modifiers) (kind : MethodKind) (k : KeyFound) : Bool :=
  if k.name = "constructor" && !k.isComputed then
    if isStatic then k.token ≠ .privateName else kind = .method && !m.async && !m.generator
  else true

/-- A method or field, at its modifiers. -/
def methodOrField (G : Grammar) (isStatic : Bool) : Parse Member := do
  let pos ← position
  let m ← modifiers
  let k ← propertyKey G
  if isStatic && k.token ≠ .privateName && k.name = "prototype" then fail
  let kind ← if m.kind = none && (← isAtMark "(") then pure (some .method) else pure m.kind
  match kind with
  | some kind =>
    if !constructorFits isStatic m kind k then fail
    return .method k.key (← method G pos kind m.generator m.async)
  | none =>
    if k.name = "constructor" && !k.isComputed then fail
    let init ← if ← skipMark "=" then pure (some (← G.expression)) else pure none
    let t ← token
    if !(← afterBreak) && t ≠ .punct ";" && t ≠ .punct "\x7d" then fail
    return .field k.key init

/-- One member of a class body. `static` is a modifier unless it is itself the
name of the member. -/
def member (G : Grammar) : Parse Member := do
  if (← token) ≠ .soft "static" then return ← methodOrField G false
  let t ← peek
  if t = .punct "=" || t = .punct ";" || t = .punct "\x7d" || t = .punct "(" then
    return ← methodOrField G false
  next
  if ← isAtMark "\x7b" then return .staticBlock (← functionBlock G false true false)
  methodOrField G true

/-- A class from its keyword on. -/
def classBody (G : Grammar) (declaration : Bool) : Parse Class := do
  if declaration && !(← context).allowLet then fail
  let pos ← expectKeyword "class"
  let name ← if ← atName then pure (some (← takeName))
    else if declaration then fail else pure none
  let superClass ← if ← isAtMark "\x7b" then pure none
    else do
      discard (expectKeyword "extends")
      pure (some (← G.callable))
  discard (expectMark "\x7b")
  let members ← iterate (fun list => do
    if ← isAtMark "\x7d" then return .inr list.reverse
    if ← skipMark ";" then return .inl list
    return .inl ((← member G) :: list)) G.depth []
  discard (expectMark "\x7d")
  return .mk pos name superClass members

end TaintReach.Script.Parser
