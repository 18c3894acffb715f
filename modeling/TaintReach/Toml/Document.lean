import TaintReach.Toml.Value

/-! TOML documents: keys with values under the tables that headings open.

No key may be given twice. A heading may open a table once, and not one that dotted
keys or values made before. -/
namespace TaintReach.Toml

/-! ### Reading -/

def isBlank (c : Char) : Bool := c = ' ' || c = '\t'

def skipBlanks (cs : List Char) : List Char := cs.dropWhile isBlank

/-- Reads the rest of a comment. -/
def comment : List Char → Except Problem (List Char)
  | [] => .ok []
  | '\n' :: cs => .ok ('\n' :: cs)
  | '\r' :: cs => if cs.head? = some '\n' then .ok ('\r' :: cs) else .error .badCharacter
  | c :: cs => if isAllowed c then comment cs else .error .badCharacter

/-- Passes blanks, line breaks and comments. -/
def skipLines : Nat → List Char → Except Problem (List Char)
  | 0, cs => .ok cs
  | fuel + 1, cs =>
    match skipBlanks cs with
    | '#' :: rest =>
      match comment rest with
      | .error p => .error p
      | .ok rest => skipLines fuel rest
    | '\n' :: rest | '\r' :: '\n' :: rest => skipLines fuel rest
    | rest => .ok rest

def isKeyChar (c : Char) : Bool := c.isAlphanum || c = '_' || c = '-'

/-- Reads one part of a key. -/
def keyPart (cs : List Char) : Found String :=
  match cs with
  | '"' :: rest => (lineString '"' cs.length rest).map fun (k, rest) => (String.ofList k, rest)
  | '\'' :: rest => (lineString '\'' cs.length rest).map fun (k, rest) => (String.ofList k, rest)
  | _ =>
    let k := cs.takeWhile isKeyChar
    if k.isEmpty then .error .keyExpected else .ok (String.ofList k, cs.drop k.length)

/-- Reads a key: parts with points between them. -/
def key : Nat → List Char → Found (List String)
  | 0, _ => .error .keyExpected
  | fuel + 1, cs =>
    match keyPart cs with
    | .error p => .error p
    | .ok (part, rest) =>
      match skipBlanks rest with
      | '.' :: rest => (key fuel (skipBlanks rest)).map fun (more, rest) => (part :: more, rest)
      | rest => .ok ([part], rest)

def expect (c : Char) : List Char → Except Problem (List Char)
  | d :: cs => if c = d then .ok cs else .error (.expected c)
  | [] => .error (.expected c)

mutual

def value (fuel : Nat) (cs : List Char) : Found Value :=
  match fuel with
  | 0 => .error .valueExpected
  | fuel + 1 =>
    match cs with
    | [] => .error .valueExpected
    | '"' :: _ => (string '"' cs).map fun (s, rest) => (.text s, rest)
    | '\'' :: _ => (string '\'' cs).map fun (s, rest) => (.text s, rest)
    | 't' :: 'r' :: 'u' :: 'e' :: rest => .ok (.bool true, rest)
    | 'f' :: 'a' :: 'l' :: 's' :: 'e' :: rest => .ok (.bool false, rest)
    | '[' :: rest => (items fuel true rest).map fun (vs, rest) => (.array vs, rest)
    | '\x7b' :: rest => (members fuel true rest).map fun (ms, rest) => (.table ms, rest)
    | cs => momentOrNumber cs

/-- Reads the items of an array and its closing bracket; a comma may stand behind the
last one. -/
def items (fuel : Nat) (first : Bool) (cs : List Char) :
    Except Problem (List Value × List Char) := do
  match fuel with
  | 0 => .error .badArray
  | fuel + 1 =>
    match ← skipLines (fuel + 1) cs with
    | ']' :: rest => return ([], rest)
    | cs =>
      if !first && cs.head? ≠ some ',' then throw .badArray
      match ← (if first then .ok cs else skipLines (fuel + 1) (cs.drop 1)) with
      | ']' :: rest => return ([], rest)
      | cs =>
        let (v, rest) ← value fuel cs
        let (vs, rest) ← items fuel false rest
        return (v :: vs, rest)

/-- Reads the members of a table in braces and the closing brace. -/
def members (fuel : Nat) (first : Bool) (cs : List Char) :
    Except Problem (List (List String × Value) × List Char) := do
  match fuel with
  | 0 => .error .badTable
  | fuel + 1 =>
    match skipBlanks cs with
    | '\x7d' :: rest => return ([], rest)
    | cs =>
      let cs ← if first then .ok cs else expect ',' cs
      let (m, rest) ← member fuel (skipBlanks cs)
      let (ms, rest) ← members fuel false rest
      return (m :: ms, rest)

/-- Reads a key, an equals sign and a value. -/
def member (fuel : Nat) (cs : List Char) :
    Except Problem ((List String × Value) × List Char) := do
  match fuel with
  | 0 => .error .keyExpected
  | fuel + 1 =>
    let (k, rest) ← key (fuel + 1) cs
    let rest ← expect '=' (skipBlanks rest)
    let (v, rest) ← value fuel (skipBlanks rest)
    return ((k, v), rest)

end

/-- A line of a document that says something. -/
inductive Statement where
  | table (path : List String)
  | arrayTable (path : List String)
  | assign (path : List String) (v : Value)

/-- Reads a heading. -/
def heading (cs : List Char) : Except Problem (Statement × List Char) := do
  match cs with
  | '[' :: '[' :: rest =>
    let (k, rest) ← key cs.length (skipBlanks rest)
    return (.arrayTable k, ← expect ']' (← expect ']' (skipBlanks rest)))
  | _ =>
    let (k, rest) ← key cs.length (skipBlanks (cs.drop 1))
    return (.table k, ← expect ']' (skipBlanks rest))

/-- Reads the lines of a document. -/
def statements : Nat → List Char → Except Problem (List Statement)
  | 0, _ => .ok []
  | fuel + 1, cs => do
    match ← skipLines (fuel + 1) cs with
    | [] => return []
    | c :: rest =>
      let (s, rest) ←
        if c = '[' then heading (c :: rest)
        else
          (member (2 * fuel + 4) (c :: rest)).map fun ((path, v), rest) => (.assign path v, rest)
      let rest ← match skipBlanks rest with
        | '#' :: rest => comment rest
        | rest => .ok rest
      match rest with
      | [] => return [s]
      | '\n' :: rest | '\r' :: '\n' :: rest => return s :: (← statements fuel rest)
      | _ => throw .lineEndExpected

/-! ### Checking -/

inductive Kind where
  | value
  | table
  | arrayTable
deriving DecidableEq, Repr

/-- What is known about a path. -/
structure Entry where
  path : List String
  kind : Kind
  /-- A heading opened it, or nothing may be added to it any more. -/
  closed : Bool := false
  /-- Dotted keys made it. -/
  dotted : Bool := false
deriving DecidableEq, Repr

abbrev Seen := List Entry

namespace Seen

def find? (s : Seen) (path : List String) : Option Entry := List.find? (·.path = path) s

/-- Sets what is known about a path. -/
def put (s : Seen) (e : Entry) : Seen := e :: s.filter (·.path ≠ e.path)

/-- Paths from a start on, one part longer each. -/
def steps (start : List String) : List String → List (List String)
  | [] => []
  | k :: ks => (start ++ [k]) :: steps (start ++ [k]) ks

/-- Makes the tables in front of the last part of a heading. -/
def walk (s : Seen) : List (List String) → Except Problem Seen
  | [] => .ok s
  | path :: rest =>
    match s.find? path with
    | none => walk (s.put { path, kind := .table }) rest
    | some e =>
      if e.kind = .value then .error (.notATable (path.getLast?.getD "")) else walk s rest

/-- Tables that dotted keys made cannot be opened by a later heading. -/
def close (s : Seen) : Seen :=
  s.map fun e => if e.dotted then { e with closed := true, dotted := false } else e

def openTable (s : Seen) (path : List String) : Except Problem Seen := do
  let s ← s.close.walk (steps [] path).dropLast
  let name := path.getLast?.getD ""
  match s.find? path with
  | none => return s.put { path, kind := .table, closed := true }
  | some e =>
    if e.kind ≠ .table then throw (.notATable name)
    if e.closed then throw (.repeatedKey name)
    return s.put { e with closed := true }

/-- Opens the next table of an array; what was under the one before does not count. -/
def openArrayTable (s : Seen) (path : List String) : Except Problem Seen := do
  let s ← s.close.walk (steps [] path).dropLast
  match s.find? path with
  | none => return s.put { path, kind := .arrayTable, closed := true }
  | some e =>
    if e.kind ≠ .arrayTable then throw (.notATable (path.getLast?.getD ""))
    return s.filter fun f => f.path = path || !path.isPrefixOf f.path

/-- Gives a key under a table. -/
def assign (s : Seen) : List (List String) → Except Problem Seen
  | [] => .ok s
  | path :: rest =>
    let name := path.getLast?.getD ""
    match s.find? path with
    | none =>
      assign (s.put { path, kind := if rest.isEmpty then .value else .table, dotted := true }) rest
    | some e =>
      if rest.isEmpty || e.closed then .error (.repeatedKey name)
      else if e.kind ≠ .table then .error (.notATable name)
      else assign s rest

end Seen

mutual

/-- Checks the tables in braces inside a value. -/
def checkValue : Value → Except Problem Unit
  | .array vs => checkItems vs
  | .table ms => checkMembers [] ms
  | _ => .ok ()

def checkItems : List Value → Except Problem Unit
  | [] => .ok ()
  | v :: vs => do
    checkValue v
    checkItems vs

/-- Checks members behind those seen before. -/
def checkMembers (s : Seen) : List (List String × Value) → Except Problem Unit
  | [] => .ok ()
  | m :: ms => do
    let s ← s.assign (Seen.steps [] m.1)
    checkMember m
    checkMembers s ms

def checkMember : List String × Value → Except Problem Unit
  | (_, v) => checkValue v

end

/-- Checks statements under the table at a path. -/
def check (s : Seen) (current : List String) : List Statement → Except Problem Unit
  | [] => .ok ()
  | .table path :: rest => do check (← s.openTable path) path rest
  | .arrayTable path :: rest => do check (← s.openArrayTable path) path rest
  | .assign path v :: rest => do
    let s ← s.assign (Seen.steps current path)
    checkValue v
    check s current rest

/-! ### Documents -/

/-- What the statements under no heading say, and the first part of all other keys as a
table. -/
def topLevel (underHeading : Bool) : List Statement → List (String × Value)
  | [] => []
  | .table path :: rest | .arrayTable path :: rest =>
    (path.head?.map fun k => (k, Value.table [])).toList ++ topLevel true rest
  | .assign path v :: rest =>
    (match path with
      | [k] => if underHeading then [] else [(k, v)]
      | k :: _ => if underHeading then [] else [(k, .table [])]
      | [] => []) ++ topLevel underHeading rest

/-- The members of a document, those of tables aside. -/
def read (text : String) : Except Problem (List (String × Value)) := do
  let cs := text.toList
  let found ← statements (cs.length + 1) cs
  check [] [] found
  return topLevel false found

end TaintReach.Toml
