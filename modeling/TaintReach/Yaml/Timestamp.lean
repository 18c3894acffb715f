import TaintReach.Timestamp

/-! Timestamps as they may stand in YAML: a date, or a date and a time of day, with
a zone if a letter divides the two. -/
namespace TaintReach.Yaml.Timestamp
open TaintReach.Timestamp (daysIn)

/-- One or two digits. -/
def shortNumber : List Char → Option (Nat × List Char)
  | a :: b :: rest =>
    if a.isDigit then
      if b.isDigit then some (Text.valueIn 10 [a, b], rest)
      else some (Text.valueIn 10 [a], b :: rest)
    else none
  | [a] => if a.isDigit then some (Text.valueIn 10 [a], []) else none
  | [] => none

/-- One or two digits with a value in a range, both ends included. -/
def shortIn (low high : Nat) (cs : List Char) : Option (Nat × List Char) :=
  (shortNumber cs).filter fun (n, _) => low ≤ n && n ≤ high

def mark (c : Char) : List Char → Option (List Char)
  | d :: rest => if c = d then some rest else none
  | [] => none

/-- A year of four digits, a month and a day of it. -/
def date? (cs : List Char) : Option (Timestamp × List Char) := do
  let ds := cs.takeWhile Char.isDigit
  if ds.length ≠ 4 then none
  let year := Text.valueIn 10 ds
  let rest ← mark '-' (cs.drop 4)
  let (month, rest) ← shortIn 1 12 rest
  let rest ← mark '-' rest
  let (day, rest) ← shortIn 1 (daysIn year month) rest
  return ({ year, month, day }, rest)

/-- Digits behind a point or comma as billionths, if there are any; digits behind the
ninth do not count. -/
def fraction : List Char → Nat × List Char
  | c :: cs =>
    let ds := cs.takeWhile Char.isDigit
    if (c = '.' || c = ',') && !ds.isEmpty then
      (Text.valueIn 10 ((ds ++ List.replicate 9 '0').take 9), cs.drop ds.length)
    else (0, c :: cs)
  | [] => (0, [])

/-- Adds hours, minutes, seconds and a fraction to a date. -/
def time? (t : Timestamp) (cs : List Char) : Option (Timestamp × List Char) := do
  let (hour, rest) ← shortIn 0 23 cs
  let (minute, rest) ← shortIn 0 59 (← mark ':' rest)
  let (second, rest) ← shortIn 0 59 (← mark ':' rest)
  let (nanosecond, rest) := fraction rest
  return ({ t with hour, minute, second, nanosecond }, rest)

/-- `Z`, or a sign, two digits of hours, a colon and two of minutes, as minutes. -/
def zone? : List Char → Option Int
  | ['Z'] => some 0
  | [s, a, b, ':', c, d] =>
    let hours := Text.valueIn 10 [a, b]
    let minutes := Text.valueIn 10 [c, d]
    if (s = '+' || s = '-') && [a, b, c, d].all Char.isDigit && hours ≤ 24 && minutes ≤ 60 then
      let n : Int := hours * 60 + minutes
      some (if s = '-' then -n else n)
    else none
  | _ => none

def read? (cs : List Char) : Option Timestamp := do
  let (t, rest) ← date? cs
  match rest with
  | [] => return t
  | c :: rest =>
    if c = 'T' || c = 't' then
      let (t, rest) ← time? t rest
      return { t with zone := ← zone? rest }
    else if c = ' ' then
      let (t, rest) ← time? t (rest.dropWhile (· = ' '))
      if rest.isEmpty then return t else none
    else none

end TaintReach.Yaml.Timestamp
