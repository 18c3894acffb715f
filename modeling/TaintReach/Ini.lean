import TaintReach.Text.Blank
import TaintReach.Text.Quote
import TaintReach.Text.Split

/-! Files of sections: headings in brackets, and keys with values below them. -/
namespace TaintReach.Ini

/-- Why a file of sections cannot be read. -/
inductive Problem where
  | unclosedSection (line : String)
  | emptySection
  | unclosedKey (line : String)
  | separatorExpected (line : String)
  | emptyKey (line : String)
  | emptyQuotedKey
  /-- A value in quotes that starts on one line is not closed up to another. -/
  | unclosedValue (first last : String)
deriving DecidableEq, Repr

def Problem.message : Problem → String
  | .unclosedSection line => "unclosed section: " ++ line
  | .emptySection => "empty section name"
  | .unclosedKey line => "missing closing key quote: " ++ line
  | .separatorExpected line => "key-value delimiter not found: " ++ line
  | .emptyKey line => "empty key name: " ++ line
  | .emptyQuotedKey => "error creating new key: empty key name"
  | .unclosedValue first last =>
    "missing closing key quote from " ++ Text.quote first ++ " to " ++ Text.quote last

/-- The section of keys under no heading. -/
def defaultSection : String := "DEFAULT"

/-- Lines with the line feeds that end them; there is none behind the last one. -/
def linesOf (cs : List Char) : List (List Char) :=
  match (Text.split '\n' cs).reverse with
  | last :: front => (last :: front.map (· ++ ['\n'])).reverse
  | [] => []

/-! ### Keys -/

def isSeparator (c : Char) : Bool := c = '=' || c = ':'

def quotes : List Char := ['"', '"', '"']

/-- Where a part first stands in a text. -/
def findPart? (part : List Char) : List Char → Option Nat
  | [] => if part.isEmpty then some 0 else none
  | c :: cs => if part.isPrefixOf (c :: cs) then some 0 else (findPart? part cs).map (· + 1)

/-- How many bytes encode a text. -/
def size (cs : List Char) : Nat := (String.ofList cs).utf8ByteSize

/-- The quote a key starts with, if any. -/
def keyQuote (line : List Char) : List Char :=
  if quotes.isPrefixOf line && 6 < size line then quotes
  else line.take 1 |>.filter fun c => c = '"' || c = '\x60'

/-- What stands behind the key of a line and its separator. -/
def behindKey (line : List Char) : Except Problem (List Char) := do
  let text := String.ofList line
  let quote := keyQuote line
  let rest := line.drop quote.length
  if quote.isEmpty then
    match line.dropWhile (!isSeparator ·) with
    | [] => throw (.separatorExpected text)
    | _ :: behind => if line.head?.any isSeparator then throw (.emptyKey text) else return behind
  else
    match findPart? quote rest with
    | none => throw (.unclosedKey text)
    | some n =>
      match (rest.drop (n + quote.length)).dropWhile (!isSeparator ·) with
      | [] => throw (.separatorExpected text)
      | _ :: behind =>
        if (Text.trim (rest.take n)).isEmpty then throw .emptyQuotedKey else return behind

/-! ### Values -/

/-- The quote a value starts with, if any. -/
def valueQuote (value : List Char) : List Char :=
  if quotes.isPrefixOf value && 3 < size value then quotes
  else value.take 1 |>.filter (· = '\x60')

/-- The lines behind the one that closes a quote. -/
def behindQuote (quote first : List Char) : List (List Char) → Except Problem (List (List Char))
  | [] => .error (.unclosedValue (String.ofList first) "")
  | line :: rest =>
    if (findPart? quote line).isSome then .ok rest
    else if rest.isEmpty then .error (.unclosedValue (String.ofList first) (String.ofList line))
    else behindQuote quote first rest

/-- The lines left behind a value that goes on over several lines: up to the closing
quote, or as long as lines end in a backslash. -/
def behindValue (value : List Char) (rest : List (List Char)) : Except Problem (List (List Char)) :=
  let value := value.dropWhile Text.isBlank
  let quote := valueQuote value
  if !quote.isEmpty then
    if (findPart? quote (value.drop quote.length)).isSome then .ok rest
    else behindQuote quote value rest
  else if (Text.trim value).getLast? = some '\\' then
    .ok ((rest.dropWhile fun line => (Text.trim line).getLast? = some '\\').drop 1)
  else .ok rest

/-! ### Sections -/

/-- Reads lines under a section; gives the sections that have keys, in order. -/
def readLines (current : String) : Nat → List (List Char) → Except Problem (List String)
  | 0, _ | _, [] => .ok []
  | fuel + 1, line :: rest => do
    let line := line.dropWhile Text.isBlank
    match line with
    | [] => readLines current fuel rest
    | c :: cs =>
      if c = '#' || c = ';' then readLines current fuel rest
      else if c = '[' then
        match cs.reverse.dropWhile (· ≠ ']') with
        | [] => throw (.unclosedSection (String.ofList line))
        | _ :: name =>
          if name.isEmpty then throw .emptySection
          readLines (String.ofList name.reverse) fuel rest
      else
        let rest ← behindValue (← behindKey line) rest
        return current :: (← readLines current fuel rest)

/-- The sections of a file that have keys, one for each key. -/
def sections (text : String) : Except Problem (List String) :=
  let cs := match text.toList with
    | '\ufeff' :: cs => cs
    | cs => cs
  let ls := linesOf cs
  readLines defaultSection (ls.length + 1) ls

end TaintReach.Ini
