import TaintReach.Text.Digit
import TaintReach.Text.Printable

/-! Text between quotes, with escapes for all that cannot be shown. -/
namespace TaintReach.Text

/-- A character between a kind of quotes. Characters without a short escape are given
by number, in two, four or eight hexadecimal digits. -/
def quotedBy (mark c : Char) : List Char :=
  if c = mark || c = '\\' then ['\\', c]
  else if isPrintable c then [c]
  else
    match c.toNat with
    | 7 => ['\\', 'a']
    | 8 => ['\\', 'b']
    | 9 => ['\\', 't']
    | 10 => ['\\', 'n']
    | 11 => ['\\', 'v']
    | 12 => ['\\', 'f']
    | 13 => ['\\', 'r']
    | n =>
      if n < 0x20 || n = 0x7f then '\\' :: 'x' :: padded 16 2 n
      else if n < 0x10000 then '\\' :: 'u' :: padded 16 4 n
      else '\\' :: 'U' :: padded 16 8 n

/-- A character inside double quotes. -/
def quotedChar (c : Char) : List Char := quotedBy '"' c

/-- The text in double quotes. -/
def quote (s : String) : String :=
  String.ofList ('"' :: s.toList.flatMap quotedChar ++ ['"'])

/-! ### Text that is quoted already -/

/-- How many characters the escape behind a backslash takes, if it is one that
stands for a character between double quotes. -/
def escapeLength? : List Char → Option Nat
  | [] => none
  | c :: cs =>
    if c ∈ ['a', 'b', 'f', 'n', 'r', 't', 'v', '\\', '"'] then some 1
    else if c = 'x' then (digitsOf 16 2 cs).map fun _ => 3
    else if c = 'u' then ((digitsOf 16 4 cs).filter Nat.isValidChar).map fun _ => 5
    else if c = 'U' then ((digitsOf 16 8 cs).filter Nat.isValidChar).map fun _ => 9
    else if isDigitIn 8 c then ((digitsOf 8 3 (c :: cs)).filter (· < 256)).map fun _ => 3
    else none
where
  /-- The value of exactly `n` digits. -/
  digitsOf (base n : Nat) (cs : List Char) : Option Nat :=
    let ds := cs.take n
    if ds.length = n && ds.all (isDigitIn base) then some (valueIn base ds) else none

/-- Whether a text, read behind an opening quote, ends with the quote that closes
it. Backslashes begin known escapes, and no line break stands in between. -/
def closesQuote (cs : List Char) : Bool :=
  match cs with
  | [] => false
  | c :: rest =>
    if c = '"' then rest.isEmpty
    else if c = '\n' then false
    else if c = '\\' then
      match escapeLength? rest with
      | some n => closesQuote (rest.drop n)
      | none => false
    else closesQuote rest
termination_by cs.length
decreasing_by all_goals simp +arith [List.length_drop]

/-- Text that stands in double quotes as it is. -/
def isQuoted : List Char → Bool
  | '"' :: rest => closesQuote rest
  | _ => false

/-! ### Single characters -/

/-- One character in single quotes. -/
def quoteOne (c : Char) : String :=
  String.ofList ('\x27' :: quotedBy '\x27' c ++ ['\x27'])

end TaintReach.Text
