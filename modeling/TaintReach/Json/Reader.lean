import TaintReach.Json
import TaintReach.Json.Problem
import TaintReach.Text.Units

/-! Reading JSON.

`value` reads one value from the start of a text and gives what stands behind it;
what follows is not looked at. `whole` asks for a text that is one value. -/
namespace TaintReach.Json.Reader

/-- What is read, and the text behind it. -/
abbrev Found (α : Type) := Except Problem (α × List Char)

/-- The blanks between tokens. -/
def isBlank (c : Char) : Bool := c = ' ' || c = '\t' || c = '\r' || c = '\n'

def skip (cs : List Char) : List Char := cs.dropWhile isBlank

/-! ### Strings -/

/-- The character behind a backslash, for one-letter escapes. -/
def shortEscape? (c : Char) : Option Char :=
  match c with
  | '"' => some '"'
  | '\\' => some '\\'
  | '/' => some '/'
  | 'b' => some '\x08'
  | 'f' => some '\x0c'
  | 'n' => some '\n'
  | 'r' => some '\r'
  | 't' => some '\t'
  | _ => none

/-- The unit that four hexadecimal digits name. -/
def unit? (a b c d : Char) : Option Nat := do
  let a ← Text.hexDigit? a
  let b ← Text.hexDigit? b
  let c ← Text.hexDigit? c
  let d ← Text.hexDigit? d
  return a * 4096 + b * 256 + c * 16 + d

def isHex (c : Char) : Bool := (Text.hexDigit? c).isSome

/-- The units of a string up to its closing quote, and the text behind it. -/
def stringUnits : List Char → Found (List Nat)
  | [] => .error .ended
  | '"' :: rest => .ok ([], rest)
  | '\\' :: 'u' :: a :: b :: c :: d :: rest =>
    match unit? a b c d with
    | some u => (stringUnits rest).map fun (us, rest) => (u :: us, rest)
    | none => .error (.ofRest .unit ([a, b, c, d].dropWhile isHex))
  | '\\' :: 'u' :: rest => .error (.ofRest .unit (rest.dropWhile isHex))
  | '\\' :: c :: rest =>
    match shortEscape? c with
    | some c => (stringUnits rest).map fun (us, rest) => (c.toNat :: us, rest)
    | none => .error (.ofRest .escape (c :: rest))
  | c :: rest =>
    if c = '\\' then .error (.ofRest .escape rest)
    else if c.toNat < 0x20 then .error (.ofRest .string (c :: rest))
    else (stringUnits rest).map fun (us, rest) => (Text.unitsOf c.toNat ++ us, rest)

/-- A string, read behind its opening quote. -/
def string (cs : List Char) : Found String :=
  (stringUnits cs).map fun (us, rest) => (String.ofList (Text.ofUnits us), rest)

/-! ### Numbers -/

/-- At least one digit, wanted at a place. -/
def digits1 (place : Place) (cs : List Char) : Found (List Char) :=
  let run := cs.takeWhile Char.isDigit
  if run.isEmpty then .error (.ofRest place cs) else .ok (run, cs.drop run.length)

/-- A whole number; zero stands alone. -/
def wholePart (place : Place) : List Char → Found (List Char)
  | '0' :: rest => .ok (['0'], rest)
  | cs => digits1 place cs

def fractionPart : List Char → Found (List Char)
  | '.' :: rest => (digits1 .fraction rest).map fun (ds, rest) => ('.' :: ds, rest)
  | cs => .ok ([], cs)

def exponentPart : List Char → Found (List Char)
  | e :: rest =>
    if e = 'e' || e = 'E' then
      match rest with
      | s :: after =>
        if s = '+' || s = '-' then
          (digits1 .exponent after).map fun (ds, rest) => (e :: s :: ds, rest)
        else (digits1 .exponent rest).map fun (ds, rest) => (e :: ds, rest)
      | [] => .error (.ofRest .exponent [])
    else .ok ([], e :: rest)
  | [] => .ok ([], [])

/-- A number by its spelling. -/
def number (cs : List Char) : Except Problem (String × List Char) := do
  let (sign, place, cs) := match cs with
    | '-' :: rest => (['-'], Place.number, rest)
    | _ => ([], Place.value, cs)
  let (whole, cs) ← wholePart place cs
  let (fraction, cs) ← fractionPart cs
  let (exponent, cs) ← exponentPart cs
  return (String.ofList (sign ++ whole ++ fraction ++ exponent), cs)

/-! ### Values -/

/-- Containers inside containers go no deeper than this. -/
def maxDepth : Nat := 10000

/-- Steps past the rest of a word. -/
def behindWord (word : String) : List Char → List Char → Except Problem (List Char)
  | [], cs => .ok cs
  | w :: ws, cs =>
    if cs.head? = some w then behindWord word ws (cs.drop 1)
    else .error (.ofRest (.word word w) cs)

mutual

/-- One value at the start of a text, below `depth` containers. The first number
bounds the steps; twice the length of the text is enough. -/
def valueWithin : Nat → Nat → List Char → Found Json
  | 0, _, _ => .error .ended
  | steps + 1, depth, cs =>
    match skip cs with
    | '"' :: rest => (string rest).map fun (s, rest) => (.string s, rest)
    | 't' :: rest => (behindWord "true" ['r', 'u', 'e'] rest).map (.bool true, ·)
    | 'f' :: rest => (behindWord "false" ['a', 'l', 's', 'e'] rest).map (.bool false, ·)
    | 'n' :: rest => (behindWord "null" ['u', 'l', 'l'] rest).map (.null, ·)
    | '[' :: rest =>
      if depth < maxDepth then
        match skip rest with
        | ']' :: rest => .ok (.array [], rest)
        | rest => (itemsWithin steps (depth + 1) rest).map fun (vs, rest) => (.array vs, rest)
      else .error (.ofRest .depth ('[' :: rest))
    | '\x7b' :: rest =>
      if depth < maxDepth then
        match skip rest with
        | '\x7d' :: rest => .ok (.object [], rest)
        | rest =>
          (membersWithin steps (depth + 1) rest).map fun (ms, rest) => (.object ms, rest)
      else .error (.ofRest .depth ('\x7b' :: rest))
    | cs => (number cs).map fun (n, rest) => (.number n, rest)

/-- The elements of an array and its closing bracket. -/
def itemsWithin : Nat → Nat → List Char → Found (List Json)
  | 0, _, _ => .error .ended
  | steps + 1, depth, cs =>
    match valueWithin steps depth cs with
    | .error p => .error p
    | .ok (v, rest) =>
      match skip rest with
      | ']' :: rest => .ok ([v], rest)
      | ',' :: rest => (itemsWithin steps depth rest).map fun (vs, rest) => (v :: vs, rest)
      | rest => .error (.ofRest .afterElement rest)

/-- The members of an object and its closing brace. -/
def membersWithin : Nat → Nat → List Char → Found (List (String × Json))
  | 0, _, _ => .error .ended
  | steps + 1, depth, cs =>
    match skip cs with
    | '"' :: rest =>
      match string rest with
      | .error p => .error p
      | .ok (k, rest) =>
        match skip rest with
        | ':' :: rest =>
          match valueWithin steps depth rest with
          | .error p => .error p
          | .ok (v, rest) =>
            match skip rest with
            | '\x7d' :: rest => .ok ([(k, v)], rest)
            | ',' :: rest =>
              (membersWithin steps depth rest).map fun (ms, rest) => ((k, v) :: ms, rest)
            | rest => .error (.ofRest .afterMember rest)
        | rest => .error (.ofRest .afterKey rest)
    | rest => .error (.ofRest .key rest)

end

/-- One value at the start of a text, and what stands behind it. -/
def value (cs : List Char) : Found Json := valueWithin (2 * cs.length + 2) 0 cs

/-- The value that a text is. -/
def whole (cs : List Char) : Except Problem Json :=
  match value cs with
  | .error p => .error p
  | .ok (v, rest) =>
    match skip rest with
    | [] => .ok v
    | rest => .error (.ofRest .afterAll rest)

end TaintReach.Json.Reader
