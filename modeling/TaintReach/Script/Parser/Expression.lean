import TaintReach.Script.Parser.Class

/-! Expressions, from the single token up to sequences. -/
namespace TaintReach.Script.Parser

/-! ### Templates and regular expressions -/

/-- Reads the chunk at the current place; says how it ends. An untagged template
refuses malformed escapes. -/
def templateChunk (tagged : Bool) : Parse (String × Quoted.ChunkEnd) := do
  let s ← get
  match Quoted.templateBody s.after.rest with
  | none => fail
  | some (n, stop) =>
    let raw := s.after.rest.take n
    if !tagged && (Quoted.plainDigitEscape raw || (Quoted.cook true raw).isNone) then fail
    let stopLength := if stop = .backtick then 1 else 2
    set { s with after := s.after.forward (n + stopLength), canEnd := true }
    next
    return (String.ofList raw, stop)

/-- A template, at its opening quote. -/
def template (G : Grammar) (tag : Option Expr) : Parse Expr := do
  let pos ← position
  iterate (fun (chunks, holes) => do
    let (raw, stop) ← templateChunk tag.isSome
    if stop = .backtick then
      return .inr (.template pos tag (raw :: chunks).reverse holes.reverse)
    let hole ← G.expression
    if !(← isAtMark "\x7d") then fail
    return .inl (raw :: chunks, hole :: holes)) G.depth ([], [])

/-- Text without its last byte; what is left of a longer character cannot be read. -/
def dropLastByte (cs : List Char) : List Char :=
  match cs.getLast? with
  | none => []
  | some c => cs.dropLast ++ List.replicate (c.utf8Size - 1) '�'

/-- A regular expression, at its opening slash. Flags directly behind it belong to
it, and its spelling then runs on to one byte before the end of the next token. -/
def regexp : Parse Expr := do
  let s ← get
  match Quoted.regexpBody false s.after.rest with
  | none => fail
  | some n =>
    let body := s.after.forward n
    let raw (stop : Cursor) : List Char := s.current.raw.toList ++ s.after.textTo stop.pos
    let flagsFollow := !(body.rest.head?.any fun c => isLineBreak c ||
      (isInlineBlank c && c.toNat ≠ 0x85))
    set { s with after := body }
    next
    if flagsFollow && (← isAt .identifier) then
      next
      let stop := (← get).after
      return .regexp s.current.pos (String.ofList (dropLastByte (raw stop)))
    return .regexp s.current.pos (String.ofList (raw body))

/-! ### Members and arguments -/

def arguments (G : Grammar) : Parse (List Expr) := do
  discard (expectMark "(")
  let args ← iterate (fun list => do
    if ← isAtMark ")" then return .inr list.reverse
    let item ← if ← isAtMark "..." then spread G else G.assignment
    if ← skipMark "," then return .inl (item :: list)
    return .inr (item :: list).reverse) G.depth []
  discard (expectMark ")")
  return args

/-- The name behind a point, at the point. -/
def dotMember (object : Expr) : Parse Expr := do
  next
  let word := (← get).current
  endTargetAtWord
  if word.token = .privateName then
    next
    return .privateDot object
  if !word.token.isWord then fail
  next
  return .dot object word.name

def bracketMember (G : Grammar) (object : Expr) : Parse Expr := do
  discard (expectMark "[")
  let key ← G.expression
  closeTarget "]"
  return .bracket object key

/-- `super` needs a property, an index or arguments. -/
def superRef (G : Grammar) : Parse Expr := do
  let self := Expr.superRef (← expectKeyword "super")
  match ← token with
  | .punct "." => if (← peek).isWord then dotMember self else fail
  | .punct "[" => bracketMember G self
  | .punct "(" => return .call self (← arguments G)
  | _ => fail

/-! ### Primary expressions -/

/-- `( ... )`. A rest element, a comma at the end and an empty pair are noted: they
make sense only as parameters of an arrow function. -/
def parenthesised (G : Grammar) : Parse Expr := do
  discard (expectMark "(")
  let items ← iterate (fun list => do
    if list.isEmpty && (← isAtMark ")") then return .inr []
    let item ← if ← skipMark "..." then note *> G.assignment else G.assignment
    if !(← skipMark ",") then return .inr (item :: list).reverse
    if ← isAtMark ")" then
      note
      return .inr (item :: list).reverse
    return .inl (item :: list)) G.depth []
  discard (expectMark ")")
  match items with
  | [] => note *> return .gap
  | [item] => if (← get).noted then return .sequence items else return item
  | _ => return .sequence items

def primary (G : Grammar) : Parse Expr := do
  let s ← get
  let pos := s.current.pos
  match s.current.token with
  | .keyword "null" => next *> return .null pos
  | .keyword "true" => next *> return .boolean pos true
  | .keyword "false" => next *> return .boolean pos false
  | .keyword "this" => next *> return .thisRef pos
  | .keyword "super" => superRef G
  | .keyword "function" => return .function (← function G false false pos)
  | .keyword "class" => return .classExpr (← classBody G false)
  | .string units => next *> return .string pos s.current.raw units
  | .number value => next *> return .number pos s.current.raw value
  | .backtick => template G none
  | .punct "/" | .punct "/=" => regexp
  | .punct "\x7b" => objectLiteral G
  | .punct "[" => arrayLiteral G
  | .punct "(" => parenthesised G
  | t =>
    if t = .soft "async" then
      if let some f ← asyncFunction? G false then return .function f
    if isName s.context t then return .identifier pos (← takeName) else fail

/-! ### Calls -/

/-- `new`, its target and the arguments, which may be left out. `new.target` has
no place. -/
def construct (G : Grammar) : Parse Expr := do
  let pos ← expectKeyword "new"
  if ← skipMark "." then
    if (← get).current.raw = "target" then
      next
      return .newTarget { pos with line := (← get).noLine }
    fail
  let callee ← G.constructed
  let args ← if ← isAtMark "(" then arguments G else pure []
  return .construct pos callee args

def head (G : Grammar) : Parse Expr := do
  if (← token) = .keyword "new" then construct G else primary G

/-- What `new` applies to. -/
def constructed (G : Grammar) : Parse Expr := do
  let e ← head G
  iterate (fun e => do
    match ← token with
    | .punct "." => return .inl (← dotMember e)
    | .punct "[" => return .inl (← bracketMember G e)
    | .backtick => return .inl (← template G (some e))
    | _ => return .inr e) G.depth e

/-- Members, calls, tagged templates and optional steps. -/
def callable (G : Grammar) : Parse Expr :=
  within (fun c => { c with allowIn := true }) do
    let e ← head G
    iterate (fun (e, optional) => do
      match ← token with
      | .punct "." => return .inl (← dotMember e, optional)
      | .punct "[" => return .inl (← bracketMember G e, optional)
      | .punct "(" => return .inl (.call e (← arguments G), optional)
      | .backtick =>
        if optional then fail
        return .inl (← template G (some e), optional)
      | .punct "?." =>
        match ← peek with
        | .punct "[" | .punct "(" | .backtick =>
          next
          return .inl (.optional e, true)
        | _ => return .inl (← dotMember (.optional e), true)
      | _ => return .inr (if optional then .chain e else e)) G.depth (e, false)

/-! ### Operators -/

/-- Whether an expression can be stepped up and down in place. -/
def isSimpleTarget : Expr → Bool
  | .identifier .. | .dot .. | .privateDot .. | .bracket .. => true
  | _ => false

/-- `++` and `--` on either side. -/
def update (G : Grammar) : Parse Expr := do
  let pos ← position
  match ← token with
  | .punct "++" => prefixUpdate pos "++"
  | .punct "--" => prefixUpdate pos "--"
  | _ =>
    let operand ← callable G
    if ← afterBreak then return operand
    match ← token with
    | .punct "++" => postfixUpdate "++" operand
    | .punct "--" => postfixUpdate "--" operand
    | _ => return operand
where
  prefixUpdate (pos : Pos) (operator : String) : Parse Expr := do
    next
    let operand ← G.unary
    if isSimpleTarget operand then return .unary pos operator operand else fail
  postfixUpdate (operator : String) (operand : Expr) : Parse Expr := do
    next
    if isSimpleTarget operand then return .postfixOp operator operand else fail

/-- Operators before their operand. `await` is one only where that is reserved. -/
def unary (G : Grammar) : Parse Expr := do
  let s ← get
  let pos := s.current.pos
  let apply (operator : String) : Parse Expr := do
    next
    return .unary pos operator (← G.unary)
  match s.current.token with
  | .punct "+" => apply "+"
  | .punct "-" => apply "-"
  | .punct "!" => apply "!"
  | .punct "~" => apply "~"
  | .keyword "delete" => apply "delete"
  | .keyword "void" => apply "void"
  | .keyword "typeof" => apply "typeof"
  | .soft "await" =>
    if s.context.awaitReserved then
      next
      if !s.context.inAsync || s.context.inParams then fail
      return .await pos (← G.unary)
    else update G
  | _ => update G

/-- Whether an expression is an operator before its operand, stepping apart. -/
def isPlainUnary : Expr → Bool
  | .unary _ operator _ => operator ≠ "++" && operator ≠ "--"
  | _ => false

/-- Powers, to the right; a bare operator may not stand before one. -/
def power (G : Grammar) : Parse Expr := do
  let parenthesis ← isAtMark "("
  let left ← unary G
  if (← isAtMark "**") && !parenthesis && isPlainUnary left then fail
  iterate (fun left => do
    if ← skipMark "**" then return .inl (.binary "**" left (← G.power))
    return .inr left) G.depth left

/-- Operators of one level, to the left. -/
def leftward (G : Grammar) (operators : List String) (operand : Parse Expr) : Parse Expr := do
  let left ← operand
  iterate (fun left => do
    match ← token with
    | .punct m =>
      if operators.contains m then
        next
        return .inl (.binary m left (← operand))
      else return .inr left
    | _ => return .inr left) G.depth left

def shift (G : Grammar) : Parse Expr :=
  leftward G ["<<", ">>", ">>>"] <| leftward G ["+", "-"] <| leftward G ["*", "/", "%"] <| power G

/-- The word or mark of a comparison, if one stands here. -/
def relationOperator (allowIn : Bool) : Token → Option String
  | .punct m => if ["<", "<=", ">", ">="].contains m then some m else none
  | .keyword "instanceof" => some "instanceof"
  | .keyword "in" => if allowIn then some "in" else none
  | _ => none

/-- The word for a token that is not an operator. -/
def tokenWord (l : Lexeme) : String :=
  match l.token with
  | .eof => "EOF"
  | .string _ => "STRING"
  | .number _ => "NUMBER"
  | .backtick => "\x60"
  | .privateName => "PRIVATE_IDENTIFIER"
  | .identifier => "IDENTIFIER"
  | .future => "KEYWORD"
  | .keyword "null" => "NULL"
  | .keyword "true" | .keyword "false" => "BOOLEAN"
  | .keyword word | .soft word => word
  | .punct m => m
  | _ => "ILLEGAL"

/-- Comparisons, to the right. A private name can stand before `in`; such a test
goes by the token that follows it. -/
def relation (G : Grammar) : Parse Expr := do
  let s ← get
  let allowIn := s.context.allowIn
  if allowIn && s.current.token = .privateName then
    next
    let left := Expr.privateName s.current.pos
    if ← isAt (.keyword "in") then
      next
      let right ← shift G
      return .binary (tokenWord (← get).current) left right
    return left
  let left ← shift G
  match relationOperator allowIn (← token) with
  | none => return left
  | some operator =>
    within (fun c => { c with allowIn := true }) do
      next
      return .binary operator left (← G.relation)

def conjunction (G : Grammar) : Parse Expr :=
  leftward G ["&&"] <| leftward G ["|"] <| leftward G ["^"] <| leftward G ["&"] <|
    leftward G ["==", "!=", "===", "!=="] <| relation G

def isConjunction : Expr → Bool
  | .binary operator _ _ => operator = "&&"
  | _ => false

/-- `||` and `??`, which do not mix with each other, nor `??` with a bare `&&`. An
opening parenthesis in front lifts the second rule. -/
def disjunction (G : Grammar) : Parse Expr := do
  let parenthesis ← isAtMark "("
  let left ← conjunction G
  if (← isAtMark "||") || (!parenthesis && isConjunction left) then
    iterate (fun left => do
      if ← isAtMark "??" then fail
      if ← skipMark "||" then return .inl (.binary "||" left (← conjunction G))
      return .inr left) G.depth left
  else
    iterate (fun left => do
      if ← isAtMark "||" then fail
      if ← skipMark "??" then
        let parenthesis ← isAtMark "("
        let right ← conjunction G
        if !parenthesis && isConjunction right then fail
        return .inl (.binary "??" left right)
      return .inr left) G.depth left

def ternary (G : Grammar) : Parse Expr := do
  let test ← disjunction G
  if ← skipMark "?" then
    let yes ← within (fun c => { c with allowIn := true }) G.assignment
    discard (expectMark ":")
    return .ternary test yes (← G.assignment)
  return test

/-! ### Arrow functions, assignments and sequences -/

/-- The surroundings of a body that is one value. Where `await` keeps its meaning
nothing changes; elsewhere `yield` loses its own. -/
def conciseContext (async : Bool) (c : Context) : Context :=
  if async = c.inAsync && async = c.awaitReserved then c
  else { c with inAsync := async, awaitReserved := async, yieldReserved := false }

/-- The arrow and the body behind it. -/
def arrowBody (G : Grammar) (pos : Pos) (params : Params) (async : Bool) : Parse Expr := do
  discard (expectMark "=>")
  if ← isAtMark "\x7b" then
    let body ← functionBlock G async async false
    return .arrow (.mk pos none params.list params.rest (.block body))
  let body ← within (conciseContext async) G.assignment
  return .arrow (.mk pos none params.list params.rest (.concise body))

/-- `async x => ...`, at the parameter. -/
def asyncArrow (G : Grammar) (pos : Pos) : Parse Expr :=
  within (fun c => { c with awaitReserved := true }) do
    let at_ ← position
    let name ← expectName
    arrowBody G pos ⟨[.mk (.name at_ name) none], none⟩ true

/-- Whether a token can begin an expression. -/
def beginsExpression (c : Context) : Token → Bool
  | .string _ | .number _ | .backtick | .privateName => true
  | .keyword word =>
    ["null", "true", "false", "this", "super", "function", "class", "new", "delete", "void",
     "typeof"].contains word
  | .punct m => ["(", "[", "\x7b", "/", "/=", "+", "-", "!", "~", "++", "--"].contains m
  | .soft "await" | .soft "yield" => true
  | t => isName c t

/-- `yield`, with or without a value. -/
def yieldValue (G : Grammar) : Parse Expr := do
  let pos ← position
  next
  if (← context).inParams then fail
  if !(← afterBreak) && (← isAtMark "*") then next
  let s ← get
  if s.current.afterBreak || !beginsExpression s.context s.current.token then
    return .yield pos none
  return .yield pos (some (← G.assignment))

/-- The operator that an assignment mark applies, `=` for itself. -/
def assignmentOperator : Token → Option String
  | .punct m =>
    if m = "=" then some "="
    else if ["+=", "-=", "*=", "/=", "%=", "&=", "|=", "^=", "<<=", ">>=", ">>>=", "**=", "&&=",
        "||=", "??="].contains m then some (String.ofList m.toList.dropLast)
    else none
  | _ => none

/-- The left side of an assignment. Literals are patterns only for `=`, and not
behind a parenthesis. -/
def leftSide? (parenthesis : Bool) (operator : String) (left : Expr) : Option Pattern :=
  if isSimpleTarget left then left.toTarget?
  else if !parenthesis && operator = "=" then left.toTarget?
  else none

/-- The parameters of an arrow from what was read before it; `start` is the state
at its beginning. -/
def arrowParams (G : Grammar) (start : State) (parenthesis : Bool) (left : Expr) :
    Parse Params := do
  match left with
  | .identifier pos name => return ⟨[.mk (.name pos name) none], none⟩
  | _ =>
    if !parenthesis then fail
    match left, (← get).noted with
    | .sequence items, false =>
      match items.mapM Expr.toParameter? with
      | some list => return ⟨list, none⟩
      | none => fail
    | _, _ =>
      set start
      parameters G

/-- An assignment, an arrow function, or anything below. -/
def assignment (G : Grammar) : Parse Expr := do
  let start ← get
  let pos := start.current.pos
  let first := start.current.token
  if first = .soft "yield" && start.context.yieldReserved then return ← yieldValue G
  let ahead ← if first = .soft "async" then peek else pure .eof
  if isName start.context ahead then
    next
    return ← asyncArrow G pos
  let parenthesis := first = .punct "("
  let left ← ternary G
  if ← isAtMark "=>" then
    if first = .soft "async" && ahead = .punct "(" then
      match left with
      | .call .. =>
        within (fun c => { c with awaitReserved := true }) do
          set { start with context := (← get).context }
          next
          let params ← parameters G
          arrowBody G pos params true
      | _ => fail
    else
      let params ← arrowParams G start parenthesis left
      arrowBody G pos params false
  else
    match assignmentOperator (← token) with
    | none => return left
    | some operator =>
      next
      match leftSide? parenthesis operator left with
      | none => fail
      | some target => return .assign operator target (← G.assignment)

/-- Assignments joined by commas. -/
def expression (G : Grammar) : Parse Expr := do
  let first ← assignment G
  if !(← isAtMark ",") then return first
  iterate (fun items => do
    if ← skipMark "," then return .inl ((← G.assignment) :: items)
    return .inr (.sequence items.reverse)) G.depth [first]

end TaintReach.Script.Parser
