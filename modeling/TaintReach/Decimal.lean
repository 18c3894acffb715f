import TaintReach.Text.Digit

/-! Decimal text of binary floating-point numbers.

`nearest` rounds a ratio to a double, ties to even. `shortest` gives the fewest
decimal digits that read back as the same double, and of those the nearest. -/
namespace TaintReach.Decimal

/-- A positive double: `mantissa * 2 ^ exponent`. -/
structure Double where
  mantissa : Nat
  exponent : Int
deriving DecidableEq, Repr

/-- `n / d` rounded to a whole number, ties to even. -/
def roundDiv (n d : Nat) : Nat :=
  let q := n / d
  let twice := 2 * (n % d)
  if twice < d then q else if d < twice then q + 1 else q + q % 2

/-- A ratio scaled down by a power of a base. -/
def scaledBy (base n d : Nat) (exponent : Int) : Nat × Nat :=
  if 0 ≤ exponent then (n, d * Nat.pow base exponent.natAbs)
  else (n * Nat.pow base exponent.natAbs, d)

/-- The least exponent of a double. -/
def leastExponent : Int := -1074

/-- The exponent at which a positive ratio has 53 binary digits before the point,
as far as doubles go. -/
def exponentOf (n d : Nat) : Int :=
  let guess := (Nat.log2 n : Int) - Nat.log2 d - 52
  let (a, b) := scaledBy 2 n d guess
  max (if a < b * Nat.pow 2 52 then guess - 1 else guess) leastExponent

/-- The double nearest to a ratio; `none` when it is too large for one. Zero is
given by a mantissa of zero. -/
def nearest (n d : Nat) : Option Double :=
  let e := exponentOf n d
  let (a, b) := scaledBy 2 n d e
  let m := roundDiv a b
  let (m, e) := if m = Nat.pow 2 53 then (Nat.pow 2 52, e + 1) else (m, e)
  if e > 971 then none else some ⟨m, e⟩

/-- The double nearest to `digits * 10 ^ exponent`; `none` when it is too large.
Exponents far beyond the range are not computed. -/
def ofDigits (digits : Nat) (exponent : Int) : Option Double :=
  let magnitude : Int := (Text.digitChars 10 digits).length + exponent
  if digits = 0 || magnitude < -330 then some ⟨0, leastExponent⟩
  else if 310 < magnitude then none
  else
    let (n, d) := scaledBy 10 digits 1 (-exponent)
    nearest n d

/-- `digits * 10 ^ scale` lies between the two ratios over `d`, ends included on demand. -/
def between (low high d : Nat) (closed : Bool) (digits : Nat) (scale : Int) : Bool :=
  let (x, y) := scaledBy 10 digits 1 (-scale)
  if closed then low * y ≤ x * d && x * d ≤ high * y else low * y < x * d && x * d < high * y

/-- The digits of a ratio on the grid of `10 ^ scale`: the points next to it, nearest first. -/
def gridPoints (n d : Nat) (scale : Int) : List Nat :=
  let (a, b) := scaledBy 10 n d scale
  let q := a / b
  if roundDiv a b = q then [q, q + 1] else [q + 1, q]

/-- The power of ten that the first digit of a ratio stands for. -/
def leadingPower (n d : Nat) : Int :=
  let guess : Int := (Text.digitChars 10 n).length - (Text.digitChars 10 d).length
  let (a, b) := scaledBy 10 n d guess
  if a < b then guess - 1 else guess

/-- Fewest digits `f` and scale `s` such that `f * 10 ^ s` reads back as the double. -/
def shortest (x : Double) : Nat × Int :=
  -- Everything in quarters of the last place, so that the ends of the interval are whole.
  let (u, d) := scaledBy 2 1 4 (-x.exponent)
  let narrow := x.mantissa = Nat.pow 2 52 && leastExponent < x.exponent
  let low := (4 * x.mantissa - (if narrow then 1 else 2)) * u
  let high := (4 * x.mantissa + 2) * u
  let closed := x.mantissa % 2 = 0
  let lead := leadingPower (4 * x.mantissa * u) d
  let hits := (List.range 17).filterMap fun (k : Nat) =>
    let scale := lead - k
    ((gridPoints (4 * x.mantissa * u) d scale).find? (between low high d closed · scale)).map
      (·, scale)
  hits.headD (x.mantissa, 0)

/-! ### Reading and writing -/

/-- A decimal number as it is written: its sign, and digits times a power of ten. -/
structure Written where
  negative : Bool
  digits : Nat
  exponent : Int
deriving DecidableEq, Repr

/-- The exponent behind its letter: an optional sign and digits up to the end. -/
def exponentOf? (cs : List Char) : Option Int :=
  let (negative, ds) := match cs with
    | '-' :: r => (true, r)
    | '+' :: r => (false, r)
    | r => (false, r)
  if ds.isEmpty || !ds.all Char.isDigit then none
  else
    let n : Int := Text.valueIn 10 ds
    some (if negative then -n else n)

/-- Reads an optional sign, digits with an optional point among them, and an
optional exponent. At least one digit stands before the exponent. -/
def read? (cs : List Char) : Option Written :=
  let (negative, cs) := match cs with
    | '-' :: r => (true, r)
    | '+' :: r => (false, r)
    | r => (false, r)
  let whole := cs.takeWhile Char.isDigit
  let (fraction, rest) := match cs.drop whole.length with
    | '.' :: r => (r.takeWhile Char.isDigit, r.dropWhile Char.isDigit)
    | r => ([], r)
  let exponent := match rest with
    | [] => some 0
    | e :: r => if e = 'e' || e = 'E' then exponentOf? r else none
  if whole.isEmpty && fraction.isEmpty then none
  else exponent.map fun e =>
    ⟨negative, Text.valueIn 10 (whole ++ fraction), e - fraction.length⟩

/-- Digits without zeros at the end, and the scale that goes with them. -/
def stripZeros : Nat → Nat → Int → Nat × Int
  | 0, digits, scale => (digits, scale)
  | fuel + 1, digits, scale =>
    if digits ≠ 0 && digits % 10 = 0 then stripZeros fuel (digits / 10) (scale + 1)
    else (digits, scale)

/-- Digits with the point among them, behind them or in front of them. -/
def positional (ds : List Char) (scale : Int) : List Char :=
  let power : Int := ds.length - 1 + scale
  if 0 ≤ scale then ds ++ List.replicate scale.natAbs '0'
  else if 0 ≤ power then
    let whole := power.natAbs + 1
    ds.take whole ++ '.' :: ds.drop whole
  else '0' :: '.' :: List.replicate (power.natAbs - 1) '0' ++ ds

/-- Positional notation for numbers from `10^-4` up to below `10^6`, else a mantissa
with one digit before the point and a signed exponent of at least two digits. -/
def general (negative : Bool) (digits : Nat) (scale : Int) : String :=
  let (digits, scale) := stripZeros 400 digits scale
  let ds := Text.digitChars 10 digits
  let power : Int := ds.length - 1 + scale
  let sign := if negative then ['-'] else []
  if digits = 0 then String.ofList (sign ++ ['0'])
  else if power < -4 || 6 ≤ power then
    let fraction := match ds.drop 1 with
      | [] => []
      | rest => '.' :: rest
    let mark := if power < 0 then '-' else '+'
    String.ofList (sign ++ ds.take 1 ++ fraction ++ ['e', mark] ++
      Text.padded 10 2 power.natAbs)
  else String.ofList (sign ++ positional ds scale)

/-- The shortest text of the double that a written number stands for; `none` when
it is too large for one. -/
def shortestText? (w : Written) : Option String :=
  (ofDigits w.digits w.exponent).map fun x =>
    if x.mantissa = 0 then general w.negative 0 0
    else
      let (digits, scale) := shortest x
      general w.negative digits scale

/-- The shortest text of a written number without an exponent. -/
def positionalText? (w : Written) : Option String :=
  (ofDigits w.digits w.exponent).map fun x =>
    let (digits, scale) := if x.mantissa = 0 then (0, 0) else shortest x
    let (digits, scale) := stripZeros 400 digits scale
    String.ofList ((if w.negative then ['-'] else []) ++
      positional (Text.digitChars 10 digits) scale)

/-- The whole part of the double that a written number stands for. -/
def truncated? (w : Written) : Option Int :=
  (ofDigits w.digits w.exponent).map fun x =>
    let whole : Nat :=
      let (n, d) := scaledBy 2 x.mantissa 1 (-x.exponent)
      n / d
    if w.negative then -(whole : Int) else whole

/-- Whether the double that a written number stands for is zero. -/
def isZero (w : Written) : Bool := (ofDigits w.digits w.exponent).any (·.mantissa = 0)

end TaintReach.Decimal
