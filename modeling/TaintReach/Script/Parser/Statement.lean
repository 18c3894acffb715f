import TaintReach.Script.Parser.Expression

/-! Statements. -/
namespace TaintReach.Script.Parser

/-- Declarations of new names are not statements of their own under a condition or label. -/
def forbidLet : Parse Unit :=
  modify fun s => { s with context := { s.context with allowLet := false } }

/-- A statement that stands alone where a block could. -/
def single (G : Grammar) : Parse Stmt := do
  forbidLet
  G.statement

def blockStatement (G : Grammar) : Parse Stmt := do
  let (pos, list) ← block G
  return .block pos list

/-- An expression in parentheses, as after a keyword. -/
def guarded (G : Grammar) : Parse Expr := do
  discard (expectMark "(")
  let e ← G.expression
  discard (expectMark ")")
  return e

/-! ### Declarations -/

/-- Only names can be declared without a value. -/
def patternsHaveValues (list : List Binding) : Bool :=
  list.all fun
    | .mk (.array ..) none | .mk (.object ..) none => false
    | _ => true

def declaration (G : Grammar) (kind : DeclKind) (keyword : Token) : Parse Stmt := do
  let pos ← position
  let allowLet := (← context).allowLet
  discard (expect keyword)
  if kind ≠ .var && !allowLet then fail
  let list ← bindings G
  if !patternsHaveValues list then fail
  semicolon
  return .declare pos kind list

/-! ### Conditions and loops -/

def ifStatement (G : Grammar) : Parse Stmt := do
  discard (expectKeyword "if")
  let test ← guarded G
  let yes ← if ← isAtMark "\x7b" then blockStatement G else single G
  if ← isAt (.keyword "else") then
    next
    return .ifElse test yes (some (← single G))
  return .ifElse test yes none

/-- Runs `p` as the body of a loop. -/
def inLoop {α : Type} (p : Parse α) : Parse α := do
  let outer := (← context).inIteration
  modify fun s => { s with context := { s.context with inIteration := true } }
  let result ← p
  modify fun s => { s with context := { s.context with inIteration := outer } }
  return result

def loopBody (G : Grammar) : Parse Stmt := inLoop (single G)

def whileStatement (G : Grammar) : Parse Stmt := do
  let pos ← expectKeyword "while"
  let test ← guarded G
  return .whileLoop pos test (← loopBody G)

def doStatement (G : Grammar) : Parse Stmt := inLoop do
  let pos ← expectKeyword "do"
  let body ← if ← isAtMark "\x7b" then blockStatement G else single G
  discard (expectKeyword "while")
  let test ← guarded G
  discard (skipMark ";")
  return .doLoop pos body test

/-- Steps past `in` or `of` and tells which it was. -/
def enumerates : Parse (Option CondKind) := do
  let current := (← get).current
  if current.token = .keyword "in" then
    next
    return some .forIn
  if current.token = .identifier && current.raw = "of" then
    next
    return some .forOf
  return none

/-- The head of a loop up to its first semicolon, or to what it runs over. -/
inductive LoopHead where
  | counted (init : Option Stmt)
  | enumerated (kind : CondKind) (declares : Bool) (target : Pattern)

/-- The keyword of a declaration in a loop head. `let` is one only before what it
can declare. -/
def headKeyword : Parse (Option DeclKind) := do
  match ← token with
  | .keyword "var" => return some .var
  | .keyword "const" => return some .const
  | .soft "let" =>
    let t ← peek
    if t = .identifier || t = .punct "[" || t = .punct "\x7b" then return some .lexical
    return none
  | _ => return none

/-- A head that starts with a declaration. A plain `var` list has no place. -/
def declaredHead (G : Grammar) (kind : DeclKind) : Parse LoopHead := do
  let pos ← position
  next
  let list ← bindings G
  let enumeration ← match list with
    | [_] => enumerates
    | _ => pure none
  match enumeration, list with
  | some loop, [.mk target none] => return .enumerated loop true target
  | some _, _ => fail
  | none, _ =>
    if !patternsHaveValues list then fail
    let noLine := (← get).noLine
    let pos := if kind = .var then { pos with line := noLine } else pos
    return .counted (some (.declare pos kind list))

def expressionHead (G : Grammar) : Parse LoopHead := do
  let e ← G.expression
  match ← enumerates with
  | none => return .counted (some (.expression e))
  | some loop =>
    match e.toTarget? with
    | some target => return .enumerated loop false target
    | none => fail

def loopHead (G : Grammar) : Parse LoopHead := do
  if ← isAtMark ";" then return .counted none
  let allowIn := (← context).allowIn
  modify fun s => { s with context := { s.context with allowIn := false } }
  let head ← match ← headKeyword with
    | some kind => declaredHead G kind
    | none => expressionHead G
  modify fun s => { s with context := { s.context with allowIn } }
  return head

/-- An expression unless the mark that would end it stands here. -/
def unlessMark (m : String) (p : Parse Expr) : Parse (Option Expr) := do
  if ← isAtMark m then return none
  return some (← p)

def forStatement (G : Grammar) : Parse Stmt := do
  let pos ← expectKeyword "for"
  discard (expectMark "(")
  match ← loopHead G with
  | .enumerated kind declares target =>
    let source ← if kind = .forIn then G.expression else G.assignment
    discard (expectMark ")")
    return .forEach pos kind declares target source (← loopBody G)
  | .counted init =>
    discard (expectMark ";")
    let test ← unlessMark ";" G.expression
    discard (expectMark ";")
    let step ← unlessMark ")" G.expression
    discard (expectMark ")")
    return .forLoop pos init test step (← loopBody G)

/-! ### Switches -/

def clause (G : Grammar) : Parse Clause := do
  let pos ← position
  let test ← if ← isAt (.keyword "default") then next *> pure none
    else do
      discard (expectKeyword "case")
      pure (some (← G.expression))
  discard (expectMark ":")
  let body ← iterate (fun list => do
    let t ← token
    if t = .eof || t = .punct "\x7d" || t = .keyword "case" || t = .keyword "default" then
      return .inr list.reverse
    modify fun s => { s with context := { s.context with allowLet := true } }
    return .inl ((← G.statement) :: list)) G.depth []
  return .mk pos test body

def isDefault : Clause → Bool
  | .mk _ test _ => test.isNone

/-- At most one clause is the default. The end of the text closes a switch too. -/
def switchStatement (G : Grammar) : Parse Stmt := do
  let pos ← expectKeyword "switch"
  let discriminant ← guarded G
  discard (expectMark "\x7b")
  let outer := (← context).inSwitch
  modify fun s => { s with context := { s.context with inSwitch := true } }
  let clauses ← iterate (fun list => do
    if ← isAt .eof then return .inr list.reverse
    if ← skipMark "\x7d" then return .inr list.reverse
    return .inl ((← clause G) :: list)) G.depth []
  modify fun s => { s with context := { s.context with inSwitch := outer } }
  if 1 < (clauses.filter isDefault).length then fail
  return .switch pos discriminant clauses

/-! ### Jumps -/

/-- `return`, only inside a function. -/
def returnStatement (G : Grammar) : Parse Stmt := do
  let pos ← expectKeyword "return"
  if !(← context).inFunction then fail
  let t ← token
  let value ← if (← afterBreak) || t = .punct ";" || t = .punct "\x7d" || t = .eof then pure none
    else pure (some (← G.expression))
  semicolon
  return .ret pos value

/-- `throw`, with its value on the same line. -/
def throwStatement (G : Grammar) : Parse Stmt := do
  let pos ← expectKeyword "throw"
  if ← afterBreak then fail
  let value ← G.expression
  semicolon
  return .throw pos value

/-- `break` or `continue`. Bare, it needs something to leave; with a name, a label
of that name around it, and a loop if it continues. -/
def jump (word : String) : Parse Stmt := do
  discard (expectKeyword word)
  let c ← context
  let inside := c.inIteration || (word = "break" && c.inSwitch)
  let broken ← afterBreak
  let ended := (← skipMark ";") || broken
  if ended || (← isAtMark "\x7d") then
    useBreak
    if inside then return .nothing else fail
  let label ← expectName
  if !c.labels.contains label then fail
  if word = "continue" && !c.inIteration then fail
  semicolon
  return .nothing

/-! ### Other statements -/

def tryStatement (G : Grammar) : Parse Stmt := do
  let pos ← expectKeyword "try"
  let body ← blockStatement G
  let handler ← if ← isAt (.keyword "catch") then do
      let pos ← position
      next
      let param ← if ← skipMark "(" then do
          let target ← G.target
          discard (expectMark ")")
          pure (some target)
        else pure none
      pure (some (Handler.mk pos param (← blockStatement G)))
    else pure none
  let finalizer ← if ← isAt (.keyword "finally") then do
      next
      pure (some (← blockStatement G))
    else pure none
  if handler.isNone && finalizer.isNone then fail
  return .tryCatch pos body handler finalizer

def withStatement (G : Grammar) : Parse Stmt := do
  let pos ← expectKeyword "with"
  let object ← guarded G
  return .withObject pos object (← single G)

/-- A label and what it names. No label is used twice around a statement. -/
def labelled (G : Grammar) (label : String) : Parse Stmt := do
  discard (expectMark ":")
  let labels := (← context).labels
  if labels.contains label then fail
  modify fun s => { s with context := { s.context with labels := label :: labels } }
  let body ← single G
  modify fun s => { s with context := { s.context with labels } }
  return .labelled label body

def expressionStatement (G : Grammar) : Parse Stmt := do
  let e ← G.expression
  match e with
  | .identifier _ name =>
    if ← isAtMark ":" then return ← labelled G name
  | _ => pure ()
  optionalSemicolon
  return .expression e

/-- `let` opens a declaration before a bracket, and where declarations may stand
also before a name or brace; elsewhere it is a name. -/
def letStatement (G : Grammar) : Parse Stmt := do
  let t ← peek
  let allowLet := (← context).allowLet
  if t = .punct "[" || (allowLet && (t.isWord || t = .punct "\x7b")) then
    return ← declaration G .lexical (.soft "let")
  modify fun s => { s with canEnd := true }
  expressionStatement G

def statement (G : Grammar) : Parse Stmt := do
  let s ← get
  match s.current.token with
  | .eof => fail
  | .punct ";" => next *> return .nothing
  | .punct "\x7b" => blockStatement G
  | .keyword "if" => ifStatement G
  | .keyword "do" => doStatement G
  | .keyword "while" => whileStatement G
  | .keyword "for" => forStatement G
  | .keyword "break" => jump "break"
  | .keyword "continue" => jump "continue"
  | .keyword "debugger" => next *> semicolon *> return .nothing
  | .keyword "with" => withStatement G
  | .keyword "var" => declaration G .var (.keyword "var")
  | .keyword "const" => declaration G .const (.keyword "const")
  | .soft "let" => letStatement G
  | .soft "async" =>
    if let some f ← asyncFunction? G true then return .function f
    expressionStatement G
  | .keyword "function" => return .function (← function G true false s.current.pos)
  | .keyword "class" => return .classDecl (← classBody G true)
  | .keyword "switch" => switchStatement G
  | .keyword "return" => returnStatement G
  | .keyword "throw" => throwStatement G
  | .keyword "try" => tryStatement G
  | _ => expressionStatement G

end TaintReach.Script.Parser
