/-! Digits in bases up to sixteen. -/
namespace TaintReach.Text

/-- The value of a hexadecimal digit. -/
def hexDigit? (c : Char) : Option Nat :=
  if '0' ≤ c ∧ c ≤ '9' then some (c.toNat - '0'.toNat)
  else if 'a' ≤ c ∧ c ≤ 'f' then some (c.toNat - 'a'.toNat + 10)
  else if 'A' ≤ c ∧ c ≤ 'F' then some (c.toNat - 'A'.toNat + 10)
  else none

def isDigitIn (base : Nat) (c : Char) : Bool := (hexDigit? c).any (· < base)

/-- The value of a run of digits; separators are passed over. -/
def valueIn (base : Nat) (cs : List Char) : Nat :=
  cs.foldl (fun n c => match hexDigit? c with
    | some d => n * base + d
    | none => n) 0

/-- Digits as they are written, the most significant first. -/
def digitChars (base : Nat) (n : Nat) : List Char := Nat.toDigits base n

/-- The digits of `n` with zeros in front up to `width`. -/
def padded (base width n : Nat) : List Char :=
  let ds := digitChars base n
  List.replicate (width - ds.length) '0' ++ ds

end TaintReach.Text
