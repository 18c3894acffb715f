import TaintReach.Decimal
import TaintReach.Timestamp
import TaintReach.Word

/-! Values of TOML: strings, numbers, dates and times.

Each reader starts at the first character of its value and gives the rest of the
text behind it. -/
namespace TaintReach.Toml

inductive Value where
  | text (s : String)
  | bool (b : Bool)
  | int (n : Int)
  | float (w : Decimal.Written)
  | infinite (negative : Bool)
  | notANumber
  | moment (t : Timestamp)
  /-- A date, a time of day or both, in no zone. -/
  | localMoment (text : String)
  | array (items : List Value)
  | table (members : List (List String × Value))

/-- Why a text is no TOML. -/
inductive Problem where
  | valueExpected
  | keyExpected
  | expected (c : Char)
  | lineEndExpected
  | badCharacter
  | badEscape
  | unclosedString
  | badNumber (text : String)
  | badMoment (text : String)
  | badArray
  | badTable
  | repeatedKey (key : String)
  | notATable (key : String)
deriving DecidableEq, Repr

def Problem.message : Problem → String
  | .valueExpected => "toml: expected value"
  | .keyExpected => "toml: expected key"
  | .expected c => "toml: expected character " ++ c.toString
  | .lineEndExpected => "toml: expected newline"
  | .badCharacter => "toml: invalid character"
  | .badEscape => "toml: invalid escaped character"
  | .unclosedString => "toml: string is not terminated"
  | .badNumber text => "toml: couldn't parse number " ++ text
  | .badMoment text => "toml: couldn't parse date or time " ++ text
  | .badArray => "toml: array is incomplete"
  | .badTable => "toml: inline table is incomplete"
  | .repeatedKey key => "toml: key " ++ key ++ " is already defined"
  | .notATable key => "toml: expected " ++ key ++ " to be a table"

/-- What a reader gives. -/
abbrev Found (α : Type) := Except Problem (α × List Char)

/-! ### Strings -/

/-- Characters that may stand unescaped, line breaks included. -/
def isAllowed (c : Char) : Bool :=
  c = '\t' || c = '\n' || c = '\r' || (0x20 ≤ c.toNat && c.toNat ≠ 0x7F)

def escape? : Char → Option Char
  | '"' => some '"'
  | '\\' => some '\\'
  | 'b' => some '\x08'
  | 'f' => some '\x0c'
  | 'n' => some '\n'
  | 'r' => some '\r'
  | 't' => some '\t'
  | 'e' => some '\x1b'
  | _ => none

/-- A character given by its code in some digits. -/
def code (count : Nat) (cs : List Char) : Found Char :=
  let ds := cs.take count
  let n := Text.valueIn 16 ds
  if ds.length ≠ count || !ds.all (Text.isDigitIn 16) || !n.isValidChar then .error .badEscape
  else .ok (Char.ofNat n, cs.drop count)

/-- Reads an escape behind its backslash. -/
def escape : List Char → Found Char
  | 'u' :: cs => code 4 cs
  | 'U' :: cs => code 8 cs
  | c :: cs => match escape? c with
    | some e => .ok (e, cs)
    | none => .error .badEscape
  | [] => .error .badEscape

/-- Reads the rest of a string on one line; escapes only count in double quotes. -/
def lineString (quote : Char) : Nat → List Char → Found (List Char)
  | 0, _ | _, [] => .error .unclosedString
  | fuel + 1, c :: cs =>
    if c = quote then .ok ([], cs)
    else if c = '\n' || c = '\r' || !isAllowed c then .error .badCharacter
    else
      let step : Found Char := if c = '\\' && quote = '"' then escape cs else .ok (c, cs)
      match step with
      | .error p => .error p
      | .ok (c, cs) => (lineString quote fuel cs).map fun (more, rest) => (c :: more, rest)

/-- Passes blanks and line breaks. -/
def skipGap : List Char → List Char
  | '\r' :: '\n' :: cs => skipGap cs
  | c :: cs => if c = ' ' || c = '\t' || c = '\n' then skipGap cs else c :: cs
  | [] => []

/-- The line break at the front that a backslash before it takes away with all blanks
behind it, if only blanks are between the two. -/
def continued? (cs : List Char) : Option (List Char) :=
  match cs.dropWhile fun c => c = ' ' || c = '\t' with
  | '\n' :: rest | '\r' :: '\n' :: rest => some (skipGap rest)
  | _ => none

/-- Reads the rest of a string over several lines. Up to two quotes may stand in front
of the closing three. -/
def blockString (quote : Char) : Nat → List Char → Found (List Char)
  | 0, _ | _, [] => .error .unclosedString
  | fuel + 1, c :: cs =>
    let run := (c :: cs).takeWhile (· = quote)
    if 5 < run.length then .error .badCharacter
    else if 3 ≤ run.length then .ok (run.drop 3, (c :: cs).drop run.length)
    else if !isAllowed c || (c = '\r' && cs.head? ≠ some '\n') then .error .badCharacter
    else
      let go (c : Char) (cs : List Char) : Found (List Char) :=
        (blockString quote fuel cs).map fun (more, rest) => (c :: more, rest)
      if c = '\\' && quote = '"' then
        match continued? cs with
        | some cs => blockString quote fuel cs
        | none =>
          match escape cs with
          | .error p => .error p
          | .ok (c, cs) => go c cs
      else go c cs

/-- Reads a string; three quotes open one over several lines, whose first line break
does not count. -/
def string (quote : Char) (cs : List Char) : Found String :=
  let found :=
    if [quote, quote, quote].isPrefixOf cs then
      match cs.drop 3 with
      | '\n' :: rest | '\r' :: '\n' :: rest => blockString quote cs.length rest
      | rest => blockString quote cs.length rest
    else lineString quote cs.length (cs.drop 1)
  found.map fun (text, rest) => (String.ofList text, rest)

/-! ### Numbers -/

/-- Whether each underscore stands between two digits. -/
def underscoresFit (after : Bool) (isDigit : Char → Bool) : List Char → Bool
  | [] => true
  | '_' :: cs => after && cs.head?.any isDigit && underscoresFit false isDigit cs
  | c :: cs => underscoresFit (isDigit c) isDigit cs

/-- A sign, if there is one, and the rest. -/
def signed : List Char → Bool × List Char
  | '-' :: cs => (true, cs)
  | '+' :: cs => (false, cs)
  | cs => (false, cs)

/-- An integer in a base that its second letter names. -/
def basedInt? (base : Nat) (cs : List Char) : Option Int :=
  let ds := cs.filter (· ≠ '_')
  if ds.isEmpty || !underscoresFit false (Text.isDigitIn base) cs then none
  else
    let n := Text.valueIn base ds
    if n < Word.signedLimit then some n else none

/-- A decimal integer, without zeros in front. -/
def decimalInt? (cs : List Char) : Option Int :=
  let (negative, ds) := signed cs
  let plain := ds.filter (· ≠ '_')
  if plain.isEmpty || !plain.all Char.isDigit || !underscoresFit false Char.isDigit ds ||
      (1 < plain.length && plain.head? = some '0') then none
  else
    let n := Text.valueIn 10 plain
    if negative then (if n ≤ Word.signedLimit then some (-(n : Int)) else none)
    else if n < Word.signedLimit then some n else none

/-- A float: digits on both sides of its point, and no zeros in front. -/
def float? (cs : List Char) : Option Value :=
  let (negative, ds) := signed cs
  if ds = ['i', 'n', 'f'] then some (.infinite negative)
  else if ds = ['n', 'a', 'n'] then some .notANumber
  else
    let plain := ds.filter (· ≠ '_')
    let whole := plain.takeWhile Char.isDigit
    let pointed := match plain.drop whole.length with
      | '.' :: d :: _ => d.isDigit
      | '.' :: _ => false
      | _ => true
    if whole.isEmpty || !pointed || (1 < whole.length && whole.head? = some '0') ||
        !underscoresFit false Char.isDigit ds then none
    else
      (Decimal.read? plain).bind fun w =>
        if (Decimal.ofDigits w.digits w.exponent).isSome then some (.float { w with negative })
        else none

/-- How long the number in front is. -/
def numberLength : List Char → Nat
  | [] => 0
  | c :: cs =>
    if c.isDigit || c ∈ ['+', '-', '_', '.', 'e', 'E'] then numberLength cs + 1
    else if ['i', 'n', 'f'].isPrefixOf (c :: cs) || ['n', 'a', 'n'].isPrefixOf (c :: cs) then 3
    else 0

def number (cs : List Char) : Found Value :=
  let based (base : Nat) (ds : List Char) : Found Value :=
    let taken := ds.takeWhile fun c => c = '_' || Text.isDigitIn base c
    match basedInt? base taken with
    | some n => .ok (.int n, ds.drop taken.length)
    | none => .error (.badNumber (String.ofList (cs.take (taken.length + 2))))
  match cs with
  | '0' :: 'x' :: d :: ds => based 16 (d :: ds)
  | '0' :: 'o' :: d :: ds => based 8 (d :: ds)
  | '0' :: 'b' :: d :: ds => based 2 (d :: ds)
  | _ =>
    let taken := cs.take (numberLength cs)
    let isFloat := taken.any fun c => c ∈ ['.', 'e', 'E', 'i', 'n']
    match if isFloat then float? taken else (decimalInt? taken).map .int with
    | some v => .ok (v, cs.drop taken.length)
    | none => .error (.badNumber (String.ofList taken))

/-! ### Dates and times -/

/-- Digits of a fixed count as a number. -/
def fixed? (count : Nat) (cs : List Char) : Option (Nat × List Char) :=
  let ds := cs.take count
  if ds.length = count && ds.all Char.isDigit then some (Text.valueIn 10 ds, cs.drop count) else none

def mark? (wanted : List Char) : List Char → Option (List Char)
  | c :: cs => if wanted.contains c then some cs else none
  | [] => none

def date? (cs : List Char) : Option (Timestamp × List Char) := do
  let (year, cs) ← fixed? 4 cs
  let (month, cs) ← fixed? 2 (← mark? ['-'] cs)
  let (day, cs) ← fixed? 2 (← mark? ['-'] cs)
  if month = 0 || 12 < month || day = 0 || Timestamp.daysIn year month < day then none
  return ({ year, month, day }, cs)

/-- Adds a time of day; also tells how many digits its fraction is written with. -/
def time? (t : Timestamp) (cs : List Char) : Option (Timestamp × Nat × List Char) := do
  let (hour, cs) ← fixed? 2 cs
  let (minute, cs) ← fixed? 2 (← mark? [':'] cs)
  let (second, cs) ← fixed? 2 (← mark? [':'] cs)
  if 23 < hour || 59 < minute || 60 < second then none
  let t := { t with hour, minute, second }
  match cs with
  | '.' :: cs =>
    let ds := cs.takeWhile Char.isDigit
    if ds.isEmpty then none
    let nanosecond := Text.valueIn 10 ((ds ++ List.replicate 9 '0').take 9)
    return ({ t with nanosecond }, min 9 ds.length, cs.drop ds.length)
  | cs => return (t, 0, cs)

/-- `Z`, or a sign, hours and minutes, as minutes. -/
def zone? : List Char → Option Int
  | ['Z'] | ['z'] => some 0
  | s :: cs => do
    let (hours, cs) ← fixed? 2 cs
    let (minutes, cs) ← fixed? 2 (← mark? [':'] cs)
    if !cs.isEmpty || 23 < hours || 59 < minutes || !(s = '+' || s = '-') then none
    let n : Int := hours * 60 + minutes
    return if s = '-' then -n else n
  | [] => none

def dateText (t : Timestamp) : List Char :=
  Text.padded 10 4 t.year ++ '-' :: Text.padded 10 2 t.month ++ '-' :: Text.padded 10 2 t.day

/-- A time of day with as many digits in its fraction as are wanted. -/
def timeText (t : Timestamp) (digits : Nat) : List Char :=
  Text.padded 10 2 t.hour ++ ':' :: Text.padded 10 2 t.minute ++ ':' :: Text.padded 10 2 t.second ++
    (if digits = 0 then [] else '.' :: (Text.padded 10 9 t.nanosecond).take digits)

/-- A date, a time of day, or both, with a zone or without. -/
def moment? (cs : List Char) : Option Value :=
  match date? cs with
  | none => do
    let (t, digits, rest) ← time? { year := 0, month := 1, day := 1 } cs
    if rest.isEmpty then return .localMoment (String.ofList (timeText t digits)) else none
  | some (t, []) => some (.localMoment (String.ofList (dateText t)))
  | some (t, rest) => do
    let (t, digits, rest) ← time? t (← mark? ['T', 't', ' '] rest)
    if rest.isEmpty then
      return .localMoment (String.ofList (dateText t ++ 'T' :: timeText t digits))
    else return .moment { t.carry with zone := ← zone? rest }

/-- Characters of dates and times; one blank may stand in front of a digit. -/
def momentChars (spaced : Bool) : List Char → List Char
  | [] => []
  | c :: cs =>
    if c.isDigit || c ∈ ['-', 'T', 't', ':', '.', '+', 'Z', 'z'] then c :: momentChars spaced cs
    else if c = ' ' && !spaced && cs.head?.any Char.isDigit then c :: momentChars true cs
    else []

/-- Whether a date or a time starts here: four digits and a hyphen, or two and a colon. -/
def startsMoment (cs : List Char) : Bool :=
  let ds := cs.takeWhile Char.isDigit
  let next := (cs.drop ds.length).head?
  (ds.length = 4 && next = some '-') || (ds.length = 2 && next = some ':')

def momentOrNumber (cs : List Char) : Found Value :=
  if startsMoment cs then
    let taken := momentChars false cs
    match moment? taken with
    | some v => .ok (v, cs.drop taken.length)
    | none => .error (.badMoment (String.ofList taken))
  else number cs

end TaintReach.Toml
