import TaintReach.Text.Digit
import TaintReach.Text.Quote
import TaintReach.Word

/-! Numbers and truth values as they are given on a command line.

An integer has an optional sign and may name its base in front of its digits; a
bare zero in front means base eight. Single underscores may stand between digits
and behind the base. The value has to fit in 64 bits. -/
namespace TaintReach.Literal

/-- Why a text is not the number or truth value it should be. -/
inductive Problem where
  | badInt (text : String)
  | outOfRange (text : String)
  | badBool (text : String)
deriving DecidableEq, Repr

def Problem.message : Problem → String
  | .badInt text => "strconv.ParseInt: parsing " ++ Text.quote text ++ ": invalid syntax"
  | .outOfRange text => "strconv.ParseInt: parsing " ++ Text.quote text ++ ": value out of range"
  | .badBool text => "strconv.ParseBool: parsing " ++ Text.quote text ++ ": invalid syntax"

/-! ### Integers -/

/-- The base of a number without its sign, and the digits behind what names it. -/
def baseOf : List Char → Nat × List Char
  | '0' :: b :: d :: ds =>
    match b with
    | 'x' | 'X' => (16, d :: ds)
    | 'o' | 'O' => (8, d :: ds)
    | 'b' | 'B' => (2, d :: ds)
    | _ => (8, b :: d :: ds)
  | '0' :: ds => (8, ds)
  | ds => (10, ds)

/-- Each underscore has a digit on both sides; `after` tells whether one may come
next, because a digit or the name of the base stands before it. -/
def underscoresFit (after : Bool) : List Char → Bool
  | [] => true
  | ['_'] => false
  | '_' :: cs => after && underscoresFit false cs
  | _ :: cs => underscoresFit true cs

/-- Whether underscores fit into a number without its sign. -/
def spacedWell (cs : List Char) : Bool :=
  match cs with
  | '0' :: b :: ds => if b.toLower ∈ ['x', 'o', 'b'] then underscoresFit true ds
    else underscoresFit false cs
  | _ => underscoresFit false cs

inductive Magnitude where
  | value (n : Nat)
  /-- Too large, which is told before anything behind the point where it became so. -/
  | huge
  | malformed
deriving DecidableEq, Repr

/-- Reads digits behind a value read so far. -/
def magnitudeFrom (base n : Nat) : List Char → Magnitude
  | [] => .value n
  | '_' :: cs => magnitudeFrom base n cs
  | c :: cs =>
    match Text.hexDigit? c with
    | none => .malformed
    | some d =>
      if base ≤ d then .malformed
      else if Word.unsignedLimit ≤ n * base + d then .huge
      else magnitudeFrom base (n * base + d) cs

/-- The value of a number without its sign. -/
def magnitude (cs : List Char) : Magnitude :=
  if cs.isEmpty then .malformed
  else
    let (base, ds) := baseOf cs
    match magnitudeFrom base 0 ds with
    | .value n => if cs.contains '_' && !spacedWell cs then .malformed else .value n
    | m => m

def int (text : String) : Except Problem Int :=
  let (negative, cs) := match text.toList with
    | '-' :: cs => (true, cs)
    | '+' :: cs => (false, cs)
    | cs => (false, cs)
  match magnitude cs with
  | .malformed => .error (.badInt text)
  | .huge => .error (.outOfRange text)
  | .value n =>
    if negative then
      if n ≤ Word.signedLimit then .ok (-(n : Int)) else .error (.outOfRange text)
    else if n < Word.signedLimit then .ok n else .error (.outOfRange text)

/-! ### Truth values -/

def bool (text : String) : Except Problem Bool :=
  if text ∈ ["1", "t", "T", "true", "TRUE", "True"] then .ok true
  else if text ∈ ["0", "f", "F", "false", "FALSE", "False"] then .ok false
  else .error (.badBool text)

end TaintReach.Literal
