import TaintReach.Hcl.Json
import TaintReach.Text.Lowercase

/-! What the keys of a configuration stand for.

A key may be given several times, with values that fit together; the last counts. A
text that starts with a brace is in the notation of JSON. -/
namespace TaintReach.Hcl

inductive Value where
  | text (s : String)
  | bool (b : Bool)
  | int (n : Int)
  | float (w : Decimal.Written)
  /-- A list of any values. -/
  | list
  /-- Blocks. -/
  | blocks
deriving DecidableEq, Repr

/-- Keys with their values, the last given first. -/
abbrev Members := List (String × Value)

/-! ### Literals -/

def intOf (written : String) : Except Problem Value :=
  match Literal.int written with
  | .ok n => .ok (.int n)
  | .error _ => .error (.badNumber written)

def floatOf (written : String) : Except Problem Value :=
  let found := Decimal.read? written.toList
  match found, found.bind Decimal.shortestText? with
  | some w, some _ => .ok (.float w)
  | _, _ => .error (.badNumber written)

/-- What a literal stands for. Null is an empty text. -/
def Token.value : Token → Except Problem Value
  | .text s | .lines s | .name s => .ok (.text s)
  | .null => .ok (.text "")
  | .bool b => .ok (.bool b)
  | .int written => intOf written
  | .float written => floatOf written
  | .mark _ => .error .valueExpected

/-- What a literal stands for as the value of a key that has one of its own kind: an
integer may be given for a text or a float, and a text for an integer. -/
def Token.valueAfter (key : String) (before : Value) (t : Token) : Except Problem Value :=
  match before, t with
  | .text _, .int written => .ok (.text written)
  | .int _, .text s => intOf s
  | .int _, .null => intOf ""
  | .float _, .int written => floatOf written
  | .text _, .text _ | .text _, .lines _ | .text _, .null | .bool _, .bool _ | .int _, .int _
  | .float _, .float _ => t.value
  | _, _ => .error (.mixedKinds key)

/-! ### Keys -/

/-- What a key is given: a value, or the items behind it where it has labels. -/
inductive Given where
  | node (n : Node)
  | labelled (items : List Item)

/-- The items with a first key, letter case aside, without it. -/
def behindKey (key : String) (is : List Item) : List Item :=
  is.filterMap fun (ks, n) =>
    match ks with
    | k :: labels => if Text.lower k = Text.lower key then some (labels, n) else none
    | [] => none

mutual

/-- The keys of a table with their values. A key with labels takes all items with it, so
those that follow are passed over. -/
def table (fuel : Nat) (is : List Item) : Except Problem Members :=
  match fuel with
  | 0 => .error .valueExpected
  | fuel + 1 => do
    let (members, _) ← is.foldlM (fun ((given, done) : Members × List String) (i : Item) =>
      match i with
      | ([], _) => .error .missingLabel
      | (k :: labels, n) =>
        if done.contains k then .ok (given, done)
        else
          let now := if labels.isEmpty then Given.node n else .labelled (behindKey k is)
          match valueOf fuel k (given.lookup k) now with
          | .error p => .error p
          | .ok v => .ok ((k, v) :: given, if labels.isEmpty then done else k :: done))
      ([], [])
    return members

/-- The value of a key that may have had one before. -/
def valueOf (fuel : Nat) (key : String) (before : Option Value) (now : Given) :
    Except Problem Value :=
  match fuel with
  | 0 => .error .valueExpected
  | fuel + 1 =>
    let checked (nodes : List Node) (v : Value) : Except Problem Value := do
      for n in nodes do checkItem fuel n
      return v
    match before, now with
    | none, .node (.literal t) => t.value
    | some before, .node (.literal t) => t.valueAfter key before
    | none, .node (.list ns) => checked ns .list
    | some .list, .node (.list ns) => checked ns .list
    | some .list, .node (.block is) => checked [.block is] .list
    | none, .node (.block is) => checked [.block is] .blocks
    | some .blocks, .node (.block is) => checked [.block is] .blocks
    | some .blocks, .node (.list ns) =>
      if ns.all Node.isBlock then checked ns .blocks else .error (.mixedKinds key)
    | none, .labelled is => checked (is.map fun i => .block [i]) .blocks
    | some .blocks, .labelled is => checked (is.map fun i => .block [i]) .blocks
    | _, _ => .error (.mixedKinds key)

/-- Checks an item of a list. -/
def checkItem (fuel : Nat) (n : Node) : Except Problem Unit :=
  match fuel with
  | 0 => .error .valueExpected
  | fuel + 1 =>
    match n with
    | .literal t => t.value.map fun _ => ()
    | .block is => (table fuel is).map fun _ => ()
    | .list ns => do for n in ns do checkItem fuel n

end

/-! ### Texts -/

/-- A configuration's keys with their values, the last given first. -/
def read (s : String) : Except Problem Members := do
  let cs := s.toList
  let is ← if (cs.dropWhile isSpace).head? = some '\x7b' then Json.parse cs else parse cs
  table (2 * cs.length + 4) is

end TaintReach.Hcl
