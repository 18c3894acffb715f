import TaintReach.Text.Digit

/-! Points in time, as clocks in a zone show them. -/
namespace TaintReach

structure Timestamp where
  year : Nat
  month : Nat
  day : Nat
  hour : Nat := 0
  minute : Nat := 0
  second : Nat := 0
  nanosecond : Nat := 0
  /-- Minutes east of Greenwich. -/
  zone : Int := 0
deriving DecidableEq, Repr

namespace Timestamp

def isLeap (year : Nat) : Bool := year % 4 = 0 && (year % 100 ≠ 0 || year % 400 = 0)

def daysIn (year month : Nat) : Nat :=
  if month = 2 then (if isLeap year then 29 else 28)
  else if month = 4 || month = 6 || month = 9 || month = 11 then 30 else 31

/-- The same point in time without a sixtieth second, which is the first one of the next
minute. -/
def carry (t : Timestamp) : Timestamp :=
  if t.second < 60 then t
  else
    let t := { t with second := 0 }
    if t.minute < 59 then { t with minute := t.minute + 1 }
    else
      let t := { t with minute := 0 }
      if t.hour < 23 then { t with hour := t.hour + 1 }
      else
        let t := { t with hour := 0 }
        if t.day < daysIn t.year t.month then { t with day := t.day + 1 }
        else if t.month < 12 then { t with day := 1, month := t.month + 1 }
        else { t with day := 1, month := 1, year := t.year + 1 }

/-- A zone as a sign, hours and minutes. -/
def zoneText (zone : Int) : List Char :=
  (if zone < 0 then '-' else '+') :: Text.padded 10 2 (zone.natAbs / 60) ++
    Text.padded 10 2 (zone.natAbs % 60)

/-- A fraction without zeros at its end, behind a point unless it is zero. -/
def fractionText (nanosecond : Nat) : List Char :=
  let ds := ((Text.padded 10 9 nanosecond).reverse.dropWhile (· = '0')).reverse
  if ds.isEmpty then [] else '.' :: ds

/-- Date, time, offset of the zone and its name, which is the offset again unless it is
zero. -/
def text (t : Timestamp) : String :=
  let two := Text.padded 10 2
  String.ofList (Text.padded 10 4 t.year ++ '-' :: two t.month ++ '-' :: two t.day ++ ' ' ::
    two t.hour ++ ':' :: two t.minute ++ ':' :: two t.second ++ fractionText t.nanosecond ++ ' ' ::
    zoneText t.zone ++ ' ' :: (if t.zone = 0 then ['U', 'T', 'C'] else zoneText t.zone))

end Timestamp

end TaintReach
