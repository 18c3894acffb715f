import TaintReach.Text.Digit

/-! Files of properties: a key, a separator and a value a line.

A backslash at the end of a line joins the next one to it. A key in braces behind a
dollar sign stands for the value of the key, or of the variable of that name. -/
namespace TaintReach.Properties

/-- Why a file of properties cannot be read. -/
inductive Problem where
  | badEscape
  | missingKey
  | unclosedReference
  | circularReference
deriving DecidableEq, Repr

def Problem.message : Problem → String
  | .badEscape => "invalid unicode literal"
  | .missingKey => "unexpected item"
  | .unclosedReference => "malformed expression"
  | .circularReference => "circular reference"

/-- Keys and their values, in order. -/
abbrev Pairs := List (String × String)

/-! ### Lines -/

def isBlank (c : Char) : Bool := c = ' ' || c = '\t' || c = '\x0c'

def isBreak (c : Char) : Bool := c = '\n' || c = '\r'

def endsKey (c : Char) : Bool := isBlank c || isBreak c || c = ':' || c = '='

/-- What a text starts with. -/
abbrev Found := Except Problem (List Char × List Char)

/-- Reads an escape behind its backslash. -/
def escape : List Char → Except Problem (Char × List Char)
  | 'u' :: cs =>
    let ds := cs.take 4
    if ds.length = 4 && ds.all (Text.isDigitIn 16) then
      let n := Text.valueIn 16 ds
      .ok (if n.isValidChar then Char.ofNat n else '\ufffd', cs.drop 4)
    else .error .badEscape
  | 'f' :: cs => .ok ('\x0c', cs)
  | 'n' :: cs => .ok ('\n', cs)
  | 'r' :: cs => .ok ('\r', cs)
  | 't' :: cs => .ok ('\t', cs)
  | c :: cs => .ok (c, cs)
  | [] => .error .badEscape

/-- Reads a key up to the character that ends it. -/
def key : Nat → List Char → Found
  | 0, cs => .ok ([], cs)
  | _, [] => .ok ([], [])
  | fuel + 1, c :: cs =>
    if endsKey c then .ok ([], c :: cs)
    else
      match if c = '\\' then escape cs else .ok (c, cs) with
      | .error p => .error p
      | .ok (c, cs) => (key fuel cs).map fun (more, rest) => (c :: more, rest)

/-- Reads a value up to the end of its line. -/
def value : Nat → List Char → Found
  | 0, cs => .ok ([], cs)
  | _, [] => .ok ([], [])
  | fuel + 1, c :: cs =>
    if isBreak c then .ok ([], cs)
    else if c = '\\' && cs.head?.any isBreak then value fuel ((cs.drop 1).dropWhile isBlank)
    else
      match if c = '\\' then escape cs else .ok (c, cs) with
      | .error p => .error p
      | .ok (c, cs) => (value fuel cs).map fun (more, rest) => (c :: more, rest)

/-- Steps past what divides a key from its value. -/
def skipSeparator (cs : List Char) : List Char :=
  match cs.dropWhile isBlank with
  | c :: rest => if c = ':' || c = '=' then rest.dropWhile isBlank else c :: rest
  | [] => []

/-- Gives a key a value. -/
def put (ps : Pairs) (key value : String) : Pairs :=
  if ps.any (·.1 = key) then ps.map fun p => if p.1 = key then (key, value) else p
  else ps ++ [(key, value)]

def readLines : Nat → Pairs → List Char → Except Problem Pairs
  | 0, ps, _ => .ok ps
  | fuel + 1, ps, cs =>
    match cs.dropWhile fun c => isBlank c || isBreak c with
    | [] => .ok ps
    | c :: cs =>
      if c = '#' || c = '!' then readLines fuel ps (cs.dropWhile fun c => !isBreak c)
      else do
        let (k, rest) ← key (fuel + 1) (c :: cs)
        if k.isEmpty then throw .missingKey
        let (v, rest) ← value (fuel + 1) (skipSeparator rest)
        readLines fuel (put ps (String.ofList k) (String.ofList v)) rest

/-! ### References -/

/-- The parts of a value before, in and behind its first reference. -/
def reference? : List Char → Except Problem (Option (List Char × List Char × List Char))
  | [] => .ok none
  | '$' :: '\x7b' :: cs =>
    if cs.contains '\x7d' then
      let name := cs.takeWhile (· ≠ '\x7d')
      .ok (some ([], name, cs.drop (name.length + 1)))
    else .error .unclosedReference
  | c :: cs => (reference? cs).map fun r => r.map fun (before, name, behind) =>
      (c :: before, name, behind)

/-- How deep references may nest. -/
def maxDepth : Nat := 64

mutual

/-- Replaces the references in a value, `path` being the keys whose values it is in. -/
def expand (lookup : String → String) (depth fuel : Nat) (path : List String) (cs : List Char) :
    Except Problem (List Char) := do
  match depth with
  | 0 => throw .circularReference
  | depth + 1 => expandFirst lookup depth fuel path cs

/-- Replaces the first reference and those behind and inside what replaces it. -/
def expandFirst (lookup : String → String) (depth fuel : Nat) (path : List String)
    (cs : List Char) : Except Problem (List Char) := do
  match fuel with
  | 0 => return cs
  | fuel + 1 =>
    match ← reference? cs with
    | none => return cs
    | some (before, name, behind) =>
      let name := String.ofList name
      if path.contains name then throw .circularReference
      let inner ← expand lookup depth fuel (name :: path) (lookup name).toList
      expandFirst lookup depth fuel path (before ++ inner ++ behind)

end

/-- The properties of a file, references replaced. -/
def read (environment : List (String × String)) (text : String) : Except Problem Pairs := do
  let cs := text.toList
  let ps ← readLines (cs.length + 1) [] cs
  let lookup (name : String) : String := (ps.lookup name <|> environment.lookup name).getD ""
  ps.mapM fun (k, v) => do
    return (k, String.ofList (← expand lookup maxDepth (cs.length + 1) [k] v.toList))

end TaintReach.Properties
