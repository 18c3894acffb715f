import TaintReach.Hcl.Tree

/-! Configurations in the notation of JSON.

The reader is lenient: what stands behind a member and is no comma ends the object,
and nothing behind the end is looked at. Objects that hold objects only are blocks
with labels. -/
namespace TaintReach.Hcl.Json

/-! ### Tokens -/

def marks : List Char := ['\x7b', '\x7d', '[', ']', ',', ':', '.']

/-- Reads the bytes of a text up to its closing quote. -/
def text : Nat → List Char → Found (List Nat)
  | 0, _ | _, [] => .error .unclosedText
  | fuel + 1, c :: cs =>
    if c = '"' then .ok ([], cs)
    else if c = '\n' || c = '\x00' then .error .unclosedText
    else
      match if c = '\\' then escape cs else .ok (Text.bytesOf c, cs) with
      | .error p => .error p
      | .ok (bytes, rest) => (text fuel rest).map fun (more, rest) => (bytes ++ more, rest)

/-- Reads a number; no integer starts with a zero but zero itself. -/
def number (sign cs : List Char) : Found Token :=
  match decimal sign cs with
  | .ok (.int written, rest) =>
    if cs.head? = some '0' && sign.length + 1 < written.length then .error (.badNumber written)
    else .ok (.int written, rest)
  | found => found

/-- Reads the next token; there is none at the end. -/
def next (cs : List Char) : Found (Option Token) :=
  match cs.dropWhile isSpace with
  | [] => .ok (none, [])
  | c :: cs =>
    let given (found : Found Token) : Found (Option Token) := found.map fun (t, r) => (some t, r)
    if c = '\x00' then .ok (none, cs)
    else if isNameStart c then
      let word := (c :: cs).takeWhile fun c => isAnchorChar c || c = '-'
      let rest := (c :: cs).drop word.length
      if word = "true".toList then .ok (some (.bool true), rest)
      else if word = "false".toList then .ok (some (.bool false), rest)
      else if word = "null".toList then .ok (some .null, rest)
      else .error (.badCharacter c)
    else if c.isDigit then given (number [] (c :: cs))
    else if c = '"' then
      given ((text (cs.length + 1) cs).map fun (bytes, rest) => (textOf bytes, rest))
    else if c = '.' && cs.head?.any Char.isDigit then given (fraction cs)
    else if c = '-' && cs.head?.any Char.isDigit then given (number [c] cs)
    else if marks.contains c then .ok (some (.mark c), cs)
    else .error (.badCharacter c)

/-! ### Trees -/

/-- The stop at a token that does not fit. -/
def stopAt (problem : Problem) (t : Option Token) (rest : List Char) : Stop Char :=
  { problem, atBrace := t = some closingBrace, rest }

/-- The next token, or a stop. -/
def step (cs : List Char) : Except (Stop Char) (Option Token × List Char) :=
  (next cs).mapError fun problem => { problem, rest := [] }

/-- Reads keys up to the colon behind them; none if the text ends first. -/
def keys (fuel : Nat) (before : List String) (cs : List Char) :
    Except (Option (Stop Char)) (List String × List Char) :=
  match fuel with
  | 0 => .error none
  | fuel + 1 =>
    match step cs with
    | .error stop => .error (some stop)
    | .ok (none, _) => .error none
    | .ok (some (.text s), rest) => keys fuel (before ++ [s]) rest
    | .ok (some (.mark ':'), rest) =>
      if before.isEmpty then .error (some (stopAt .keyExpected none rest)) else .ok (before, rest)
    | .ok (t, rest) => .error (some (stopAt .keyExpected t rest))

mutual

/-- Reads the members of an object and the token behind them; gives those read before it
stopped. -/
def members (fuel : Nat) (cs : List Char) : List Item × Except (Stop Char) (List Char) :=
  match fuel with
  | 0 => ([], .error (stopAt .keyExpected none cs))
  | fuel + 1 =>
    match member fuel cs with
    | .error none => ([], .ok [])
    | .error (some stop) => ([], .error stop)
    | .ok (i, rest) =>
      match step rest with
      | .error stop => ([i], .error stop)
      | .ok (some (.mark ','), rest) =>
        let (more, outcome) := members fuel rest
        (i :: more, outcome)
      | .ok (_, rest) => ([i], .ok rest)

def member (fuel : Nat) (cs : List Char) : Except (Option (Stop Char)) (Item × List Char) :=
  match fuel with
  | 0 => .error none
  | fuel + 1 =>
    match keys (cs.length + 1) [] cs with
    | .error e => .error e
    | .ok (ks, rest) => (value fuel rest).map fun (v, rest) => ((ks, v), rest)

def value (fuel : Nat) (cs : List Char) : Except (Option (Stop Char)) (Node × List Char) :=
  match fuel with
  | 0 => .error none
  | fuel + 1 =>
    match step cs with
    | .error stop => .error (some stop)
    | .ok (none, _) => .error none
    | .ok (some t, rest) =>
      if t = .mark '\x7b' then (object fuel rest).mapError some
      else if t = .mark '[' then
        match list fuel rest with
        | .error stop => .error (some stop)
        | .ok (ns, rest) => .ok (.list ns, rest)
      else if t.isLiteral then .ok (.literal t, rest)
      else .error (some (stopAt .valueExpected (some t) rest))

/-- Reads an object behind its opening brace. -/
def object (fuel : Nat) (cs : List Char) : Except (Stop Char) (Node × List Char) :=
  match fuel with
  | 0 => .error (stopAt .closingExpected none cs)
  | fuel + 1 =>
    match members fuel cs with
    | (is, .ok rest) => .ok (.block is, rest)
    | (is, .error stop) => if stop.atBrace then .ok (.block is, stop.rest) else .error stop

/-- Reads a list up to the first closing bracket. Commas, opening brackets and truth
values in it do not count. -/
def list (fuel : Nat) (cs : List Char) : Except (Stop Char) (List Node × List Char) :=
  match fuel with
  | 0 => .error (stopAt .commaExpected none cs)
  | fuel + 1 =>
    let go (n : Node) (rest : List Char) : Except (Stop Char) (List Node × List Char) :=
      (list fuel rest).map fun (ns, rest) => (n :: ns, rest)
    match step cs with
    | .error stop => .error stop
    | .ok (t, rest) =>
      match t with
      | some (.mark ']') => .ok ([], rest)
      | some (.mark ',') | some (.mark '[') | some (.bool _) => list fuel rest
      | some (.mark '\x7b') =>
        match object fuel rest with
        | .error stop => .error stop
        | .ok (n, rest) => go n rest
      | some (.int written) => go (.literal (.int written)) rest
      | some (.float written) => go (.literal (.float written)) rest
      | some (.text s) => go (.literal (.text s)) rest
      | t => .error (stopAt .valueExpected t rest)

end

/-! ### Labels -/

/-- Spreads an item whose value holds blocks only: the keys of blocks in a block become
labels, and a list of blocks gives one item for each. -/
def spread : Nat → Item → List Item
  | 0, i => [i]
  | fuel + 1, (ks, n) =>
    match n with
    | .block is =>
      if !is.isEmpty && is.all fun i => Node.isBlock i.2 then
        is.flatMap fun (more, n) => spread fuel (ks ++ more, n)
      else [(ks, n)]
    | .list ns =>
      if !ns.isEmpty && ns.all Node.isBlock then ns.flatMap fun n => spread fuel (ks, n)
      else [(ks, n)]
    | .literal _ => [(ks, n)]

mutual

/-- Spreads the items of all blocks. -/
def spreadItems (fuel : Nat) (is : List Item) : List Item :=
  match fuel with
  | 0 => is
  | fuel + 1 => (is.flatMap (spread (fuel + 1))).map fun (ks, n) => (ks, spreadNode fuel n)

def spreadNode (fuel : Nat) (n : Node) : Node :=
  match fuel with
  | 0 => n
  | fuel + 1 =>
    match n with
    | .block is => .block (spreadItems fuel is)
    | .list ns => .list (ns.map (spreadNode fuel))
    | .literal t => .literal t

end

/-- The items of a configuration. -/
def parse (cs : List Char) : Except Problem (List Item) :=
  let fuel := 4 * cs.length + 4
  match (value fuel cs : Except (Option (Stop Char)) (Node × List Char)) with
  | .ok (.block is, _) => .ok (spreadItems fuel is)
  | .error (some stop) => .error stop.problem
  | _ => .error .valueExpected

end TaintReach.Hcl.Json
