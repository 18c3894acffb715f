import TaintReach.Script.Lexer
import TaintReach.Script.Pattern

/-! The state of the parser and its small steps.

The parser stands on a token. Most mistakes end it at once; a few are only noted,
because what looks like a bad parenthesised expression may still turn out to be
the parameters of an arrow function and is then read again from its start. -/
namespace TaintReach.Script.Parser

/-- What the surroundings allow. -/
structure Context where
  allowIn : Bool := true
  allowLet : Bool := false
  inFunction : Bool := false
  inIteration : Bool := false
  inSwitch : Bool := false
  inAsync : Bool := false
  /-- `await` is an operator here. -/
  awaitReserved : Bool := false
  /-- `yield` is an operator here. -/
  yieldReserved : Bool := false
  inParams : Bool := false
  labels : List String := []

structure State where
  current : Lexeme
  /-- The place behind the current token. -/
  after : Cursor
  /-- A line break at `after` could end a statement. -/
  canEnd : Bool
  /-- A mistake was noted that only an arrow can undo. -/
  noted : Bool := false
  /-- Where the name, member or literal that was last completed ends, in bytes. -/
  targetEnd : Nat := 0
  /-- The line that a place counts as. -/
  lineOf : Pos → Int := Pos.line
  /-- The line of what has no place. -/
  noLine : Int := 1
  context : Context := {}

/-- The text is no script; `pos` is where that showed. -/
structure SyntaxError where
  pos : Pos
deriving DecidableEq, Repr

abbrev Parse := StateT State (Except SyntaxError)

def fail {α : Type} : Parse α := fun s => .error ⟨s.current.pos⟩

/-- Notes a mistake that an arrow can undo. -/
def note : Parse Unit := modify fun s => { s with noted := true }

def token : Parse Token := return (← get).current.token

def position : Parse Pos := return (← get).current.pos

def context : Parse Context := return (← get).context

def setContext (c : Context) : Parse Unit := modify fun s => { s with context := c }

/-- Runs `p` in changed surroundings and returns to the old ones. -/
def within {α : Type} (change : Context → Context) (p : Parse α) : Parse α := do
  let outer ← context
  setContext (change outer)
  let result ← p
  modify fun s => { s with context := outer }
  return result

/-- Steps to the next token. -/
def next : Parse Unit := modify fun s =>
  let found := scan s.context.awaitReserved s.context.yieldReserved s.canEnd s.after
  let pos := found.lexeme.pos
  { s with
    current := { found.lexeme with pos := { pos with line := s.lineOf pos } }
    after := found.after
    canEnd := found.canEnd }

/-- The token behind the current one. -/
def peek : Parse Token := do
  let s ← get
  return (scan s.context.awaitReserved s.context.yieldReserved s.canEnd s.after).lexeme.token

def isAt (t : Token) : Parse Bool := return (← token) = t

def isAtMark (m : String) : Parse Bool := isAt (.punct m)

/-- Steps past the mark if it is the current token. -/
def skipMark (m : String) : Parse Bool := do
  if ← isAtMark m then
    next
    return true
  else return false

/-- Steps past a token that has to be there, and gives its place. -/
def expect (t : Token) : Parse Pos := do
  let pos ← position
  if ← isAt t then
    next
    return pos
  else fail

def expectMark (m : String) : Parse Pos := expect (.punct m)

def expectKeyword (word : String) : Parse Pos := expect (.keyword word)

/-- Whether a token can be a name here. -/
def isName (c : Context) : Token → Bool
  | .identifier => true
  | .soft word => softAllowed c.awaitReserved c.yieldReserved word
  | _ => false

def atName : Parse Bool := do
  let s ← get
  return isName s.context s.current.token

/-- The length of a name in memory: a byte per character of a plain one, otherwise
two per unit and two in front. -/
def nameLength (name : String) : Nat :=
  let cs := name.toList
  if cs.all fun c => c.toNat < 0x80 then cs.length
  else 2 + 2 * (cs.flatMap fun c => Text.unitsOf c.toNat).length

/-- Notes where a target ends. -/
def endTarget (offset : Nat) : Parse Unit := modify fun s => { s with targetEnd := offset }

/-- Notes that the current word ends a target. -/
def endTargetAtWord : Parse Unit := do
  let word := (← get).current
  endTarget (word.pos.offset + nameLength word.name)

/-- Steps past the current word and gives the name it spells. -/
def takeName : Parse String := do
  let name := (← get).current.name
  endTargetAtWord
  next
  return name

/-- Steps past the mark that closes a target. -/
def closeTarget (m : String) : Parse Unit := do
  let pos ← expectMark m
  endTarget (pos.offset + 1)

/-- Steps past a name that has to be there. -/
def expectName : Parse String := do
  if ← atName then takeName else fail

/-- A line break before the current token can end a statement. -/
def afterBreak : Parse Bool := return (← get).current.afterBreak

/-- Uses up the line break before the current token. -/
def useBreak : Parse Unit :=
  modify fun s => { s with current := { s.current with afterBreak := false } }

/-- The end of a statement that has to be marked. -/
def semicolon : Parse Unit := do
  let t ← token
  if t = .punct ")" || t = .punct "\x7d" then return
  if ← afterBreak then useBreak else discard (expectMark ";")

/-- The end of an expression statement, which the end of a block or text marks too. -/
def optionalSemicolon : Parse Unit := do
  if ← skipMark ";" then return
  if ← afterBreak then useBreak
  else
    let t ← token
    if t = .eof || t = .punct "\x7d" then return
    discard (expectMark ";")

/-- Repeats a step until it is done, at most `n` times. -/
def iterate {σ β : Type} (step : σ → Parse (σ ⊕ β)) : Nat → σ → Parse β
  | 0, _ => fail
  | n + 1, s => do
    match ← step s with
    | .inl s => iterate step n s
    | .inr b => return b

/-- The parts of the grammar that refer to each other. Each use goes one level
down, and `depth` levels are left, which also bounds repetition. -/
structure Grammar where
  depth : Nat
  /-- Assignments joined by commas. -/
  expression : Parse Expr
  assignment : Parse Expr
  unary : Parse Expr
  power : Parse Expr
  relation : Parse Expr
  /-- Calls and members. -/
  callable : Parse Expr
  /-- What `new` applies to: members, but no calls. -/
  constructed : Parse Expr
  /-- A target that is declared. -/
  target : Parse Pattern
  statement : Parse Stmt

end TaintReach.Script.Parser
