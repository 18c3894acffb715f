import TaintReach.Decimal
import TaintReach.Text.Bytes
import TaintReach.Word
import TaintReach.Yaml.Fault
import TaintReach.Yaml.Timestamp

/-! What a scalar stands for.

A scalar without quotes and tag is null, a truth value, a number or a timestamp if it is
spelled like one, and text otherwise. Numbers may hold underscores; integers may
be written in base 2, 8 or 16, and in base 8 behind a bare zero. -/
namespace TaintReach.Yaml

inductive Scalar where
  | null
  | bool (b : Bool)
  | int (n : Int)
  | float (w : Decimal.Written)
  | infinite (negative : Bool)
  | notANumber
  | timestamp (t : Timestamp)
  | text (s : String)
deriving DecidableEq, Repr

namespace Scalar

/-- The tag of scalars of a kind. -/
def tag : Scalar → String
  | .null => "!!null"
  | .bool _ => "!!bool"
  | .int _ => "!!int"
  | .float _ | .infinite _ | .notANumber => "!!float"
  | .timestamp _ => "!!timestamp"
  | .text _ => "!!str"

/-- Scalars known by their spelling. -/
def word? (s : String) : Option Scalar :=
  if s ∈ ["true", "True", "TRUE"] then some (.bool true)
  else if s ∈ ["false", "False", "FALSE"] then some (.bool false)
  else if s ∈ ["", "~", "null", "Null", "NULL"] then some .null
  else if s ∈ [".nan", ".NaN", ".NAN"] then some .notANumber
  else if s ∈ [".inf", ".Inf", ".INF", "+.inf", "+.Inf", "+.INF"] then some (.infinite false)
  else if s ∈ ["-.inf", "-.Inf", "-.INF"] then some (.infinite true)
  else none

/-! ### Integers -/

/-- Digits of a base, at least one, up to the end. -/
def digitsIn? (base : Nat) (cs : List Char) : Option Nat :=
  if cs.isEmpty || !cs.all (Text.isDigitIn base) then none else some (Text.valueIn base cs)

/-- The magnitude of an integer with its base given by how it starts. -/
def magnitude? : List Char → Option Nat
  | '0' :: 'x' :: ds | '0' :: 'X' :: ds => digitsIn? 16 ds
  | '0' :: 'b' :: ds | '0' :: 'B' :: ds => digitsIn? 2 ds
  | '0' :: 'o' :: ds | '0' :: 'O' :: ds => digitsIn? 8 ds
  | ['0'] => some 0
  | '0' :: ds => digitsIn? 8 ds
  | ds => digitsIn? 10 ds

/-- An integer that fits in 64 bits, signed, or unsigned if it has no sign. -/
def fits (negative signed : Bool) (n : Nat) : Option Int :=
  if negative then (if n ≤ Word.signedLimit then some (-(n : Int)) else none)
  else if n < Word.signedLimit || (!signed && n < Word.unsignedLimit) then some n else none

/-- An integer with an optional sign. -/
def int? : List Char → Option Int
  | '-' :: cs => (magnitude? cs).bind (fits true true)
  | '+' :: cs => (magnitude? cs).bind (fits false true)
  | cs => (magnitude? cs).bind (fits false false)

/-- Digits of a base with an optional sign of their own. -/
def signedIn? (base : Nat) : List Char → Option Int
  | '-' :: cs => (digitsIn? base cs).bind (fits true true)
  | '+' :: cs => (digitsIn? base cs).bind (fits false true)
  | cs => (digitsIn? base cs).bind (fits false false)

/-- A base letter in front of a number that has its own sign. -/
def prefixedInt? : List Char → Option Int
  | '0' :: 'b' :: cs => signedIn? 2 cs
  | '0' :: 'o' :: cs => signedIn? 8 cs
  | _ => none

/-! ### Floats -/

/-- A decimal number that is not too large for a double. A point has a digit on
one of its sides. -/
def float? (cs : List Char) : Option Decimal.Written :=
  (Decimal.read? cs).filter fun w => (Decimal.ofDigits w.digits w.exponent).isSome

/-- Whether each underscore stands between two digits; `after` tells whether the
character before is a digit. -/
def underscoresFit (after : Bool) : List Char → Bool
  | [] => true
  | '_' :: cs => after && cs.head?.any Char.isDigit && underscoresFit false cs
  | c :: cs => underscoresFit c.isDigit cs

/-- A number that starts with its point. Underscores may only stand between digits. -/
def pointFloat? (cs : List Char) : Option Decimal.Written :=
  if underscoresFit false cs then float? (cs.filter (· ≠ '_')) else none

/-- What a scalar without quotes stands for; timestamps count as text on demand. -/
def read (timestamps : Bool) (s : String) : Scalar :=
  match word? s with
  | some v => v
  | none =>
    match s.toList with
    | [] => .null
    | c :: cs =>
      if c = '.' then (pointFloat? (c :: cs)).elim (.text s) .float
      else if c.isDigit || c = '-' || c = '+' then
        match if timestamps then Timestamp.read? (c :: cs) else none with
        | some t => .timestamp t
        | none =>
          let plain := (c :: cs).filter (· ≠ '_')
          match int? plain with
          | some n => .int n
          | none =>
            match float? plain with
            | some w => .float w
            | none => (prefixedInt? plain).elim (.text s) .int
      else .text s

/-- What a scalar without quotes and tag stands for. -/
def ofPlain (s : String) : Scalar := read true s

/-- Whether a scalar without quotes is text. -/
def isText (s : String) : Bool := ofPlain s = .text s

/-! ### Tags -/

/-- What a scalar with a tag stands for. Unknown tags do not matter; a known one has to
fit, where an integer may stand for a float. -/
def tagged (tag s : String) : Except Problem Scalar :=
  if tag = "!!binary" then
    match Text.base64? s.toList with
    | some bytes => .ok (.text (String.ofList (Text.ofBytes bytes)))
    | none => .error .badBase64
  else if tag ∉ ["!!bool", "!!int", "!!float", "!!null", "!!timestamp"] then .ok (.text s)
  else
    let v := read (tag = "!!timestamp") s
    if v.tag = tag then .ok v
    else
      match v with
      | .int n =>
        if tag = "!!float" && n < Word.signedLimit then .ok (.float ⟨n < 0, n.natAbs, 0⟩)
        else .error (.mismatch v.tag s tag)
      | v => .error (.mismatch v.tag s tag)

/-! ### Old spellings -/

/-- Truth values of older versions of the format. -/
def isOldBool (s : String) : Bool :=
  s ∈ ["y", "Y", "yes", "Yes", "YES", "on", "On", "ON", "n", "N", "no", "No", "NO", "off", "Off",
    "OFF"]

/-- What follows the first digits of a number in base sixty: groups behind colons,
each below sixty, then an optional fraction. -/
def sexagesimalTail : List Char → Bool
  | ':' :: a :: b :: rest =>
    if a.isDigit && b.isDigit then
      a ≤ '5' && (rest.isEmpty || sexagesimalTail rest || sexagesimalFraction rest)
    else a.isDigit && (sexagesimalTail (b :: rest) || sexagesimalFraction (b :: rest))
  | [':', a] => a.isDigit
  | _ => false
where
  sexagesimalFraction : List Char → Bool
    | '.' :: ds => ds.all fun c => c.isDigit || c = '_'
    | _ => false

/-- Numbers in base sixty, which older versions of the format had. -/
def isSexagesimal (s : String) : Bool :=
  let cs := match s.toList with
    | '-' :: r => r
    | '+' :: r => r
    | r => r
  match cs with
  | c :: rest => c.isDigit && sexagesimalTail (rest.dropWhile fun c => c.isDigit || c = '_')
  | [] => false

end Scalar

end TaintReach.Yaml
