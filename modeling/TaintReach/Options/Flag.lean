import TaintReach.Options.Value
import TaintReach.Text.Bytes

/-! Flags and the command lines they stand in.

A flag has a long name and may have a letter. A value follows behind an equals
sign, as the next argument or, behind a letter, at once; flags that need none can
be grouped by their letters. Flags and other arguments mix freely up to a lone
double dash. -/
namespace TaintReach

structure Flag where
  /-- The default also tells which kind of value the flag takes. -/
  default : Value
  key : String
  letter : Option Char := none
  /-- Counts how often it is given; the default is a number then. -/
  counts : Bool := false
  usage : String := ""
deriving DecidableEq, Repr

namespace Flag

/-- The name of a flag in messages. -/
def label (f : Flag) : String :=
  match f.letter with
  | some c => "-" ++ c.toString ++ ", --" ++ f.key
  | none => "--" ++ f.key

/-- What stands for the value of a flag that is given without one. -/
def bare? (f : Flag) : Option String :=
  if f.counts then some "+1"
  else match f.default with
    | .bool _ => some "true"
    | _ => none

/-- The value of a flag that is given a text, `current` being the value so far. -/
def read (f : Flag) (current : Value) (text : String) : Except Literal.Problem Value :=
  if f.counts && text = "+1" then .ok (.int (current.asInt + 1))
  else match f.default with
    | .bool _ => (Literal.bool text).map .bool
    | .int _ => (Literal.int text).map .int
    | _ => .ok (.text text)

/-- Why a command line is refused. -/
inductive Problem where
  | malformed (argument : String)
  | unknown (key : String)
  | unknownLetter (c : Char) (letters : String)
  | needsValue (argument : String)
  | letterNeedsValue (c : Char) (letters : String)
  | badValue (text : String) (flag : Flag) (problem : Literal.Problem)
  /-- Help is asked for, though there is no flag for it. -/
  | help
deriving DecidableEq, Repr

def Problem.message : Problem → String
  | .malformed argument => "bad flag syntax: " ++ argument
  | .unknown key => "unknown flag: --" ++ key
  | .unknownLetter c letters =>
    "unknown shorthand flag: " ++ Text.quoteOne (Text.firstByte c) ++ " in -" ++ letters
  | .needsValue argument => "flag needs an argument: " ++ argument
  | .letterNeedsValue c letters =>
    "flag needs an argument: " ++ Text.quoteOne c ++ " in -" ++ letters
  | .badValue text flag problem =>
    "invalid argument " ++ Text.quote text ++ " for " ++ Text.quote flag.label ++ " flag: " ++
      problem.message
  | .help => "pflag: help requested"

end Flag

/-- What a command line says: the flags it gives, the last value of each, and the
other arguments in order. -/
structure CommandLine where
  given : List (String × Value) := []
  arguments : List String := []
deriving DecidableEq, Repr

namespace CommandLine

/-- Gives a flag a value. Counts start at zero, whatever the default. -/
def set (l : CommandLine) (f : Flag) (text : String) : Except Flag.Problem CommandLine :=
  match f.read ((l.given.lookup f.key).getD (.int 0)) text with
  | .ok v => .ok { l with given := (f.key, v) :: l.given.filter (·.1 ≠ f.key) }
  | .error p => .error (.badValue text f p)

/-- Reads an argument that starts with two dashes; gives what is left of the rest. -/
def long (flags : List Flag) (l : CommandLine) (argument : String) (rest : List String) :
    Except Flag.Problem (CommandLine × List String) :=
  let body := argument.toList.drop 2
  if body.head?.all fun c => c = '-' || c = '=' then .error (.malformed argument)
  else
    let key := String.ofList (body.takeWhile (· ≠ '='))
    match flags.find? (·.key = key) with
    | none => .error (if key = "help" then .help else .unknown key)
    | some f =>
      match body.dropWhile (· ≠ '='), f.bare?, rest with
      | _ :: value, _, _ => (l.set f (String.ofList value)).map (·, rest)
      | [], some value, _ => (l.set f value).map (·, rest)
      | [], none, value :: rest => (l.set f value).map (·, rest)
      | [], none, [] => .error (.needsValue argument)

/-- Reads letters behind one dash. Letters that go on with `test.` are passed over. -/
def letters (flags : List Flag) (l : CommandLine) (rest : List String) :
    List Char → Except Flag.Problem (CommandLine × List String)
  | [] => .ok (l, rest)
  | c :: cs =>
    if ['t', 'e', 's', 't', '.'].isPrefixOf (c :: cs) then .ok (l, rest)
    else
      match flags.find? (·.letter = some c) with
      | none => .error (if c = 'h' then .help else .unknownLetter c (String.ofList (c :: cs)))
      | some f =>
        match cs, f.bare?, rest with
        | '=' :: d :: value, _, _ => (l.set f (String.ofList (d :: value))).map (·, rest)
        | _, some value, _ =>
          match l.set f value with
          | .ok l => letters flags l rest cs
          | .error p => .error p
        | d :: value, none, _ => (l.set f (String.ofList (d :: value))).map (·, rest)
        | [], none, value :: rest => (l.set f value).map (·, rest)
        | [], none, [] => .error (.letterNeedsValue c (String.ofList [c]))

/-- Reads arguments behind what was read so far. Each step takes at least one, so
`steps` is enough if it is their number. -/
def readWithin (flags : List Flag) :
    Nat → CommandLine → List String → Except Flag.Problem CommandLine
  | _, l, [] => .ok l
  | 0, l, rest => .ok { l with arguments := l.arguments ++ rest }
  | steps + 1, l, argument :: rest =>
    match argument.toList with
    | ['-', '-'] => .ok { l with arguments := l.arguments ++ rest }
    | '-' :: '-' :: _ =>
      match l.long flags argument rest with
      | .ok (l, rest) => readWithin flags steps l rest
      | .error p => .error p
    | '-' :: c :: cs =>
      match l.letters flags rest (c :: cs) with
      | .ok (l, rest) => readWithin flags steps l rest
      | .error p => .error p
    | _ => readWithin flags steps { l with arguments := l.arguments ++ [argument] } rest

def read (flags : List Flag) (arguments : List String) : Except Flag.Problem CommandLine :=
  readWithin flags arguments.length {} arguments

end CommandLine

/-! ### Listing -/

namespace Flag

/-- The word for the kind of value a flag takes. -/
def kindWord (f : Flag) : String :=
  if f.counts then " count"
  else match f.default with
    | .bool _ => ""
    | .int _ => " int"
    | _ => " string"

/-- The default of a flag, unless it is empty, zero or false. -/
def defaultNote (f : Flag) : String :=
  match f.default with
  | .text s => if s = "" then "" else " (default " ++ Text.quote s ++ ")"
  | .int n => if n = 0 || f.counts then "" else " (default " ++ toString n ++ ")"
  | .bool b => if b then " (default true)" else ""
  | v => " (default " ++ v.asText ++ ")"

/-- The left column of a listing. -/
def synopsis (f : Flag) : String :=
  (match f.letter with
    | some c => "  -" ++ c.toString ++ ", --"
    | none => "      --") ++ f.key ++ f.kindWord

/-- Flags by name, one a line, with what they are for in a second column. -/
def listing (flags : List Flag) : String :=
  let width := (flags.map fun f => f.synopsis.length).foldl max 0
  String.join ((flags.mergeSort fun a b => decide (a.key ≤ b.key)).map fun f =>
    f.synopsis ++ String.ofList (List.replicate (width + 3 - f.synopsis.length) ' ') ++ f.usage ++
      f.defaultNote ++ "\n")

end Flag

end TaintReach
