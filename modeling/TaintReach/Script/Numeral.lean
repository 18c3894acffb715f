import TaintReach.Text.Digit
import TaintReach.Text.Identifier
import TaintReach.Word

/-! Number literals: their extent, their value, and whether that value is zero.

A literal is decimal, with an optional fraction and exponent, or an integer in
base 2, 8 or 16 behind a prefix letter, or in base 8 behind a bare zero. An
underscore may stand between two digits, and a final `n` makes an integer of any
size, unless it is one behind a bare zero. Decimal values are read as binary floating-point numbers, so one that is
small enough is zero. -/
namespace TaintReach.Script

/-- The value of a number literal. -/
inductive Numeral where
  /-- `digits * 10 ^ exponent`, rounded to a double. -/
  | float (digits : Nat) (exponent : Int)
  | big (value : Nat)
deriving DecidableEq, Repr

namespace Numeral
open Text (isDigitIn valueIn)

/-- Half the smallest positive double is `2 ^ -1075`; what does not exceed it
rounds to zero. The two cheap tests bound the powers that have to be compared. -/
def roundsToZero (digits : Nat) (exponent : Int) : Bool :=
  if digits = 0 then true
  else
    let magnitude : Int := (toString digits).length + exponent
    if 0 ≤ exponent then false
    else if magnitude < -330 then true
    else if -300 < magnitude then false
    else digits * Nat.pow 2 1075 ≤ Nat.pow 10 exponent.natAbs

/-- Zero is false and every other number true; integers of any size all count as true. -/
def truthy : Numeral → Bool
  | .float digits exponent => !roundsToZero digits exponent
  | .big _ => true

/-- The run of digits and separators at the start of a text. -/
def digitRun (base : Nat) (cs : List Char) : List Char :=
  cs.takeWhile fun c => isDigitIn base c || c = '_'

/-- Every separator stands between two digits. -/
def separatorsFit (run : List Char) : Bool :=
  run.head? ≠ some '_' && run.getLast? ≠ some '_' &&
    (run.zip (run.drop 1)).all fun (a, b) => !(a = '_' && b = '_')

/-- A literal found at the start of a text: how many characters it takes, and its
value unless it is malformed. -/
structure Found where
  length : Nat
  value : Option Numeral

/-- Ends a literal of `n` characters before `rest`. Neither a name nor a digit
may follow directly. -/
def finish (n : Nat) (value : Option Numeral) (rest : List Char) : Found :=
  match rest with
  | c :: _ => if Text.isNameStart c || c = '\\' || c.isDigit then ⟨n, none⟩ else ⟨n, value⟩
  | [] => ⟨n, value⟩

/-- Ends an integer literal, which a final `n` turns into one of any size. Behind
that letter the literal is over, whatever follows. -/
def finishInteger (n : Nat) (value big : Option Numeral) (rest : List Char) : Found :=
  match rest with
  | 'n' :: _ => ⟨n + 1, big⟩
  | _ => finish n value rest

/-- The largest integer that a literal in base 2 or 8 behind a prefix can have. -/
def prefixedLimit : Nat := Word.signedLimit

/-- An integer in `base` behind a two-character prefix. Beyond the limit only
base 16 without separators goes on. -/
def prefixed (base : Nat) (cs : List Char) : Found :=
  let run := digitRun base cs
  let whole := valueIn base run
  let ok := separatorsFit run && run ≠ []
  let fits := whole < prefixedLimit || (base = 16 && !run.contains '_')
  finishInteger (run.length + 2) (if ok && fits then some (.float whole 0) else none)
    (if ok then some (.big whole) else none) (cs.drop run.length)

/-- The exponent part at the start of a text: its length and value. -/
def exponentPart (cs : List Char) : Option (Nat × Int) :=
  let (signLength, negative, digits) := match cs with
    | '-' :: r => (1, true, r)
    | '+' :: r => (1, false, r)
    | r => (0, false, r)
  let run := digitRun 10 digits
  if run = [] || !separatorsFit run then none
  else
    let n := valueIn 10 run
    some (signLength + run.length, if negative then -(n : Int) else n)

/-- Reads the exponent, if there is one, behind `n` characters. -/
def scaled (n : Nat) (digits : Nat) (scale : Int) (ok : Bool) (rest : List Char) : Found :=
  match rest with
  | e :: after =>
    if e = 'e' || e = 'E' then
      match exponentPart after with
      | none => ⟨n + 1, none⟩
      | some (len, exponent) =>
        finish (n + 1 + len) (if ok then some (.float digits (scale + exponent)) else none)
          (after.drop len)
    else finish n (if ok then some (.float digits scale) else none) rest
  | [] => ⟨n, if ok then some (.float digits scale) else none⟩

/-- A decimal literal with `n` characters up to its whole part, the point next in `rest`. -/
def fractional (n : Nat) (whole : List Char) (ok : Bool) (rest : List Char) : Found :=
  match rest with
  | '.' :: after =>
    let run := digitRun 10 after
    let digits := valueIn 10 (whole ++ run)
    let places := (run.filter (· ≠ '_')).length
    scaled (n + 1 + run.length) digits (-(places : Int))
      (ok && (run = [] || separatorsFit run)) (after.drop run.length)
  | _ => scaled n (valueIn 10 whole) 0 ok rest

/-- Finds the number literal that a text starts with; the text starts with a digit,
or with a point and a digit. -/
def find (cs : List Char) : Found :=
  match cs with
  | '.' :: _ => fractional 0 [] true cs
  | '0' :: c :: rest =>
    if c = 'x' || c = 'X' then prefixed 16 rest
    else if c = 'o' || c = 'O' then prefixed 8 rest
    else if c = 'b' || c = 'B' then prefixed 2 rest
    else if c = '.' || c = 'e' || c = 'E' then fractional 1 ['0'] true (c :: rest)
    else
      let run := (c :: rest).takeWhile (isDigitIn 8)
      finishInteger (run.length + 1) (some (.float (valueIn 8 run) 0))
        (if run.isEmpty then some (.big 0) else none) ((c :: rest).drop run.length)
  | _ =>
    let run := digitRun 10 cs
    let rest := cs.drop run.length
    let ok := separatorsFit run
    match rest with
    | 'n' :: _ => ⟨run.length + 1, if ok then some (.big (valueIn 10 run)) else none⟩
    | _ => fractional run.length run ok rest

end Numeral

end TaintReach.Script
