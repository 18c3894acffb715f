import TaintReach.Hcl.Token

/-! Configurations written in braces, as trees: keys with values, and blocks with labels.

Reading stops at the first token that does not fit. If that token is a closing brace
inside a block, and another one follows it, the block ends there with what it has. -/
namespace TaintReach.Hcl

/-- A value. -/
inductive Node where
  | literal (t : Token)
  /-- A block: values behind their keys, of which there are several if it has labels. -/
  | block (items : List (List String × Node))
  | list (items : List Node)

def Node.isBlock : Node → Bool
  | .block _ => true
  | .literal _ | .list _ => false

/-- Keys and the value behind them. -/
abbrev Item := List String × Node

/-- Where and why reading stopped; `τ` is what is read. -/
structure Stop (τ : Type) where
  problem : Problem
  /-- It was at a closing brace. -/
  atBrace : Bool := false
  /-- What stands behind the place. -/
  rest : List τ

def Token.isLiteral : Token → Bool
  | .text _ | .lines _ | .null | .bool _ | .int _ | .float _ => true
  | .name _ | .mark _ => false

def closingBrace : Token := .mark '\x7d'

/-- The stop at a token that does not fit. -/
def stopAt (problem : Problem) : List Token → Stop Token
  | [] => { problem, rest := [] }
  | t :: rest => { problem, atBrace := t = closingBrace, rest }

/-- Names and texts in front. -/
def keys : List Token → List String × List Token
  | .name s :: ts | .text s :: ts =>
    let (more, rest) := keys ts
    (s :: more, rest)
  | ts => ([], ts)

def skipComma : List Token → List Token
  | .mark ',' :: rest => rest
  | ts => ts

mutual

/-- Reads items up to the end of the text or, inside a block, to the closing brace; gives
those read before it stopped. -/
def items (fuel : Nat) (inside : Bool) (ts : List Token) :
    List Item × Except (Stop Token) (List Token) :=
  match fuel with
  | 0 => ([], .error (stopAt .closingExpected ts))
  | fuel + 1 =>
    if inside && ts.head? = some closingBrace then ([], .ok ts)
    else
      match item fuel ts with
      | .error none => ([], .ok [])
      | .error (some stop) => ([], .error stop)
      | .ok (i, rest) =>
        let (more, outcome) := items fuel inside (skipComma rest)
        (i :: more, outcome)

/-- Reads an item. There is none, and no problem either, where the text ends before its
keys or behind its equals sign. -/
def item (fuel : Nat) (ts : List Token) : Except (Option (Stop Token)) (Item × List Token) :=
  match fuel with
  | 0 => .error (some (stopAt .keyExpected ts))
  | fuel + 1 =>
    let (ks, behind) := keys ts
    match ks, behind with
    | [], [] => .error none
    | [], ts => .error (some (stopAt .keyExpected ts))
    | k :: labels, .mark '=' :: rest =>
      if labels.isEmpty then (value fuel rest).map fun (v, rest) => (([k], v), rest)
      else .error (some { problem := .keyExpected, rest })
    | ks, .mark '\x7b' :: rest =>
      match block fuel rest with
      | .error stop => .error (some stop)
      | .ok (n, rest) => .ok ((ks, n), rest)
    | k :: _, ts => .error (some { problem := .assignmentExpected k, rest := ts.drop 1 })

def value (fuel : Nat) (ts : List Token) : Except (Option (Stop Token)) (Node × List Token) :=
  match fuel with
  | 0 => .error (some (stopAt .valueExpected ts))
  | fuel + 1 =>
    match ts with
    | [] => .error none
    | .mark '\x7b' :: rest => (block fuel rest).mapError some
    | .mark '[' :: rest =>
      match list fuel false rest with
      | .error stop => .error (some stop)
      | .ok (ns, rest) => .ok (.list ns, rest)
    | t :: rest =>
      if t.isLiteral then .ok (.literal t, rest)
      else .error (some (stopAt .valueExpected (t :: rest)))

/-- Reads a block behind its opening brace. -/
def block (fuel : Nat) (ts : List Token) : Except (Stop Token) (Node × List Token) :=
  match fuel with
  | 0 => .error (stopAt .closingExpected ts)
  | fuel + 1 =>
    let (is, outcome) := items fuel true ts
    let close (ts : List Token) : Except (Stop Token) (Node × List Token) :=
      if ts.head? = some closingBrace then .ok (.block is, ts.drop 1)
      else .error (stopAt .closingExpected ts)
    match outcome with
    | .ok rest => close rest
    | .error stop => if stop.atBrace then close stop.rest else .error stop

/-- Reads a list up to its closing bracket. A comma is needed behind items other than
lists. -/
def list (fuel : Nat) (needsComma : Bool) (ts : List Token) :
    Except (Stop Token) (List Node × List Token) :=
  match fuel with
  | 0 => .error (stopAt .commaExpected ts)
  | fuel + 1 =>
    let go (n : Node) (needsComma : Bool) (rest : List Token) :
        Except (Stop Token) (List Node × List Token) :=
      (list fuel needsComma rest).map fun (ns, rest) => (n :: ns, rest)
    match ts with
    | .mark ']' :: rest => .ok ([], rest)
    | .mark ',' :: rest => list fuel false rest
    | [] => .error (stopAt .commaExpected [])
    | t :: rest =>
      if needsComma then .error (stopAt .commaExpected (t :: rest))
      else if t = .mark '[' then
        match list fuel false rest with
        | .error stop => .error stop
        | .ok (ns, rest) => go (.list ns) false rest
      else if t = .mark '\x7b' then
        match block fuel rest with
        | .error stop => .error stop
        | .ok (n, rest) => go n true rest
      else if t.isLiteral then go (.literal t) true rest
      else .error (stopAt .valueExpected (t :: rest))

end

/-- A text whose lines end with a line feed alone. -/
def plainBreaks : List Char → List Char
  | '\r' :: '\n' :: cs => '\n' :: plainBreaks cs
  | c :: cs => c :: plainBreaks cs
  | [] => []

/-- Characters that may stand nowhere. -/
def isForbidden (c : Char) : Bool := c = '\x00' || c = '\ue123'

/-- The items of a configuration. -/
def parse (cs : List Char) : Except Problem (List Item) := do
  if let some c := cs.find? isForbidden then throw (.badCharacter c)
  let cs := plainBreaks cs
  let ts ← tokens (cs.length + 1) cs
  match items (2 * ts.length + 2) false ts with
  | (_, .error stop) => throw stop.problem
  | (is, .ok _) => return is

end TaintReach.Hcl
