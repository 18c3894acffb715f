import TaintReach.Decimal
import TaintReach.Options.Literal

/-! Values that settings are given, and what they count as.

A setting may be given by a flag, by the environment or in a settings file, so its
value can be of another kind than the setting. It is then taken for the closest
thing: a text for the number it spells, a number for its digits, a truth value for
one or zero. What makes no sense counts as zero, false or no text. -/
namespace TaintReach

inductive Value where
  | bool (b : Bool)
  | int (n : Int)
  | float (w : Decimal.Written)
  | infinite (negative : Bool)
  | notANumber
  | text (s : String)
  /-- A date or a time, which counts as no more than its text. -/
  | moment (text : String)
  /-- A list or a table: nothing a setting can use. -/
  | other
deriving DecidableEq, Repr

namespace Value

def asText : Value → String
  | .bool b => if b then "true" else "false"
  | .int n => toString n
  | .float w => (Decimal.positionalText? w).getD ""
  | .infinite negative => if negative then "-Inf" else "+Inf"
  | .notANumber => "NaN"
  | .text s | .moment s => s
  | .other => ""

/-- An integer modulo the unsigned limit, in the signed range. -/
def wrapped (n : Int) : Int := Int.bmod n Word.unsignedLimit

/-- The whole part of a number that is in the signed range, else the least integer. -/
def clipped (n : Int) : Int :=
  let limit : Int := Word.signedLimit
  if -limit ≤ n && n < limit then n else -limit

/-- A text cut before a point that has only zeros behind it, read from its end. -/
def dropZerosBack (seen : Bool) : List Char → Option (List Char)
  | '.' :: rest => if seen then some rest else dropZerosBack seen rest
  | '0' :: rest => dropZerosBack true rest
  | _ => none

/-- A whole number written with a fraction of zeros, without the fraction. -/
def dropZeroFraction (s : String) : String :=
  ((dropZerosBack false s.toList.reverse).map fun cs => String.ofList cs.reverse).getD s

def asInt : Value → Int
  | .bool b => if b then 1 else 0
  | .int n => wrapped n
  | .float w => ((Decimal.truncated? w).map clipped).getD 0
  | .infinite _ | .notANumber => -Word.signedLimit
  | .text s => (Literal.int (dropZeroFraction s)).toOption.getD 0
  | .moment _ | .other => 0

def asBool : Value → Bool
  | .bool b => b
  | .int n => n ≠ 0
  | .float w => !Decimal.isZero w
  | .infinite _ | .notANumber => true
  | .text s => (Literal.bool s).toOption.getD false
  | .moment _ | .other => false

end Value

end TaintReach
