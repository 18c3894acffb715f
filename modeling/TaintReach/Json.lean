import TaintReach.Text.Digit

/-! JSON values and their two layouts.

Objects keep the order of their members, and numbers are kept as they are written.
`compact` puts everything on one line; `indented` gives each element and member a
line of its own, four blanks deeper, and leaves empty containers closed up. -/
namespace TaintReach

inductive Json where
  | null
  | bool (b : Bool)
  /-- A number by its spelling. -/
  | number (text : String)
  | string (s : String)
  | array (items : List Json)
  | object (members : List (String × Json))
deriving Repr

namespace Json

/-- A character inside a string. Markup characters and the two Unicode line
separators are given by number, so the text can stand inside a page or script. -/
def stringChar (c : Char) : List Char :=
  match c with
  | '"' => ['\\', '"']
  | '\\' => ['\\', '\\']
  | '\n' => ['\\', 'n']
  | '\r' => ['\\', 'r']
  | '\t' => ['\\', 't']
  | '\x08' => ['\\', 'b']
  | '\x0c' => ['\\', 'f']
  | c =>
    if c.toNat < 0x20 || c = '<' || c = '>' || c = '&' || c.toNat = 0x2028 || c.toNat = 0x2029 then
      '\\' :: 'u' :: Text.padded 16 4 c.toNat
    else [c]

/-- A string in quotes. -/
def stringText (s : String) : List Char :=
  '"' :: s.toList.flatMap stringChar ++ ['"']

def word (s : String) : List Char := s.toList

mutual

/-- The value on one line, without blanks. -/
def compact : Json → List Char
  | .null => word "null"
  | .bool b => word (if b then "true" else "false")
  | .number text => word text
  | .string s => stringText s
  | .array items => '[' :: compactItems items ++ [']']
  | .object members => '\x7b' :: compactMembers members ++ ['\x7d']

def compactItems : List Json → List Char
  | [] => []
  | [v] => v.compact
  | v :: vs => v.compact ++ ',' :: compactItems vs

def compactMembers : List (String × Json) → List Char
  | [] => []
  | [(k, v)] => stringText k ++ ':' :: v.compact
  | (k, v) :: ms => stringText k ++ ':' :: v.compact ++ ',' :: compactMembers ms

end

/-- A line break and the blanks in front of the next line. -/
def newline (depth : Nat) : List Char := '\n' :: List.replicate (4 * depth) ' '

mutual

/-- The value over several lines, its own line at `depth`. -/
def indented (depth : Nat) : Json → List Char
  | .null => word "null"
  | .bool b => word (if b then "true" else "false")
  | .number text => word text
  | .string s => stringText s
  | .array [] => ['[', ']']
  | .array (v :: vs) => '[' :: indentedItems (depth + 1) (v :: vs) ++ newline depth ++ [']']
  | .object [] => ['\x7b', '\x7d']
  | .object (m :: ms) =>
    '\x7b' :: indentedMembers (depth + 1) (m :: ms) ++ newline depth ++ ['\x7d']

def indentedItems (depth : Nat) : List Json → List Char
  | [] => []
  | [v] => newline depth ++ v.indented depth
  | v :: vs => newline depth ++ v.indented depth ++ ',' :: indentedItems depth vs

def indentedMembers (depth : Nat) : List (String × Json) → List Char
  | [] => []
  | [(k, v)] => newline depth ++ stringText k ++ ':' :: ' ' :: v.indented depth
  | (k, v) :: ms =>
    newline depth ++ stringText k ++ ':' :: ' ' :: v.indented depth ++
      ',' :: indentedMembers depth ms

end

end Json

end TaintReach
