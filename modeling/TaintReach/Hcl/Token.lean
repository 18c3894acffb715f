import TaintReach.Decimal
import TaintReach.Options.Literal
import TaintReach.Text.Bytes
import TaintReach.Text.Letter
import TaintReach.Text.Split

/-! Words, texts, numbers and marks of a configuration written in braces. -/
namespace TaintReach.Hcl

/-- Why a text is no configuration. -/
inductive Problem where
  | badCharacter (c : Char)
  | badEscape
  | unclosedText
  | unclosedComment
  | badNumber (text : String)
  | valueExpected
  | keyExpected
  | assignmentExpected (key : String)
  | closingExpected
  | commaExpected
  /-- A key is given values of two kinds. -/
  | mixedKinds (key : String)
  /-- A block with labels and one without have the same name. -/
  | missingLabel
deriving DecidableEq, Repr

def Problem.message : Problem → String
  | .badCharacter c => "illegal character " ++ c.toString
  | .badEscape => "illegal char escape"
  | .unclosedText => "literal not terminated"
  | .unclosedComment => "comment not terminated"
  | .badNumber text => "parsing " ++ text ++ ": invalid syntax"
  | .valueExpected => "Unknown token"
  | .keyExpected => "expected: IDENT | STRING | ASSIGN | LBRACE"
  | .assignmentExpected key =>
    "key '" ++ key ++ "' expected start of object ('\x7b') or assignment ('=')"
  | .closingExpected => "object expected closing RBRACE"
  | .commaExpected => "error parsing list, expected comma or list end"
  | .mixedKinds key => "root." ++ key ++ ": unknown type"
  | .missingLabel => "root: map must have string keys"

inductive Token where
  | name (s : String)
  | text (s : String)
  /-- A text on lines of its own. -/
  | lines (s : String)
  | null
  | bool (b : Bool)
  /-- Numbers as they are written. -/
  | int (written : String)
  | float (written : String)
  | mark (c : Char)
deriving DecidableEq, Repr

/-- What a reader gives. -/
abbrev Found (α : Type) := Except Problem (α × List Char)

/-! ### Names and comments -/

def isSpace (c : Char) : Bool := c = ' ' || c = '\t' || c = '\n' || c = '\r'

def isNameStart (c : Char) : Bool := c = '_' || Text.isLetter c

/-- Characters of the anchor of a text on lines of its own. -/
def isAnchorChar (c : Char) : Bool := isNameStart c || Text.isDecimalDigit c

def isNameChar (c : Char) : Bool := isAnchorChar c || c = '-' || c = '.'

/-- The text behind the end of a comment between marks. -/
def behindComment : List Char → Except Problem (List Char)
  | '*' :: '/' :: cs => .ok cs
  | _ :: cs => behindComment cs
  | [] => .error .unclosedComment

/-! ### Numbers -/

/-- An exponent with its mark, which needs a digit; none if there is no mark. -/
def exponent (cs : List Char) : Option (List Char) :=
  match cs with
  | e :: rest =>
    if e = 'e' || e = 'E' then
      let sign := rest.take 1 |>.filter fun c => c = '+' || c = '-'
      let digits := (rest.drop sign.length).takeWhile Char.isDigit
      if digits.isEmpty then none else some (e :: sign ++ digits)
    else some []
  | [] => some []

/-- Reads a decimal number, `sign` being what stands in front of its digits. One with a
point or an exponent is no integer. -/
def decimal (sign cs : List Char) : Found Token :=
  let whole := cs.takeWhile Char.isDigit
  let point := match cs.drop whole.length with
    | '.' :: rest => '.' :: rest.takeWhile Char.isDigit
    | _ => []
  let front := whole ++ point
  match exponent (cs.drop front.length) with
  | none => .error (.badNumber (String.ofList (sign ++ front)))
  | some e =>
    let written := String.ofList (sign ++ front ++ e)
    .ok (if point.isEmpty && e.isEmpty then .int written else .float written,
      cs.drop (front.length + e.length))

/-- Reads a number; `0x` stands in front of hexadecimal digits. -/
def number (sign cs : List Char) : Found Token :=
  match cs with
  | '0' :: x :: rest =>
    if x = 'x' || x = 'X' then
      let digits := rest.takeWhile (Text.isDigitIn 16)
      let written := String.ofList (sign ++ '0' :: x :: digits)
      if digits.isEmpty then .error (.badNumber written)
      else .ok (.int written, rest.drop digits.length)
    else decimal sign cs
  | _ => decimal sign cs

/-- Reads the digits behind a point that a number starts with; no exponent may follow. -/
def fraction (cs : List Char) : Found Token :=
  let digits := cs.takeWhile Char.isDigit
  let written := String.ofList ('.' :: digits)
  match cs.drop digits.length with
  | c :: rest =>
    if c = 'e' || c = 'E' then .error (.badNumber written) else .ok (.float written, c :: rest)
  | [] => .ok (.float written, [])

/-! ### Texts -/

/-- The bytes of the character with a code, or of the mark for what is none. -/
def bytesOfCode (n : Nat) : List Nat :=
  Text.bytesOf (if n.isValidChar then Char.ofNat n else '\ufffd')

/-- Reads a number by its digits, of which there are `count`. -/
def coded (base count limit : Nat) (cs : List Char) : Found Nat :=
  let digits := cs.take count
  let n := Text.valueIn base digits
  if digits.length = count && digits.all (Text.isDigitIn base) && n < limit then
    .ok (n, cs.drop count)
  else .error .badEscape

/-- Reads an escape behind its backslash; gives bytes. -/
def escape : List Char → Found (List Nat)
  | [] => .error .badEscape
  | c :: cs =>
    let byte (b : Nat) : Found (List Nat) := .ok ([b], cs)
    match c with
    | 'a' => byte 0x07
    | 'b' => byte 0x08
    | 'f' => byte 0x0c
    | 'n' => byte 0x0a
    | 'r' => byte 0x0d
    | 't' => byte 0x09
    | 'v' => byte 0x0b
    | '\\' => byte 0x5c
    | '"' => byte 0x22
    | 'x' => (coded 16 2 0x100 cs).map fun (n, rest) => ([n], rest)
    | 'u' => (coded 16 4 0x110000 cs).map fun (n, rest) => (bytesOfCode n, rest)
    | 'U' => (coded 16 8 0x110000 cs).map fun (n, rest) => (bytesOfCode n, rest)
    | _ => (coded 8 3 0x100 (c :: cs)).map fun (n, rest) => ([n], rest)

/-- A text by its bytes. -/
def textOf (bytes : List Nat) : Token := .text (String.ofList (Text.ofBytes bytes))

/-- Reads the bytes of a text up to the closing quote. What stands in braces behind a
dollar sign is kept as it is, `depth` being the number of braces that are open. -/
def text : Nat → Nat → List Char → Found (List Nat)
  | 0, _, _ | _, _, [] => .error .unclosedText
  | fuel + 1, 0, c :: cs =>
    let go (depth : Nat) (front : List Nat) (rest : List Char) : Found (List Nat) :=
      (text fuel depth rest).map fun (more, rest) => (front ++ more, rest)
    if c = '"' then .ok ([], cs)
    else if c = '\n' then .error .unclosedText
    else if c = '$' && cs.head? = some '\x7b' then go 1 [0x24, 0x7b] (cs.drop 1)
    else if c = '\\' then
      match escape cs with
      | .error p => .error p
      | .ok (bytes, rest) => go 0 bytes rest
    else go 0 (Text.bytesOf c) cs
  | fuel + 1, depth + 1, c :: cs =>
    let go (depth : Nat) (front : List Char) (rest : List Char) : Found (List Nat) :=
      (text fuel depth rest).map fun (more, rest) => (front.flatMap Text.bytesOf ++ more, rest)
    if c = '\x7b' then go (depth + 2) [c] cs
    else if c = '\x7d' then go depth [c] cs
    else if c = '\\' then
      match escape cs with
      | .error p => .error p
      | .ok (_, rest) => go (depth + 1) (c :: cs.take (cs.length - rest.length)) rest
    else go (depth + 1) [c] cs

/-! ### Texts on lines of their own -/

/-- Whether a line is the anchor, among blanks and with returns behind it, and at least
as long as the opening line is behind its marks. -/
def closes (anchor : List Char) (least : Nat) (line : List Char) : Bool :=
  let behind := line.dropWhile fun c => isSpace c || c = '\x0b' || c = '\x0c'
  least ≤ (String.ofList line).utf8ByteSize && anchor.isPrefixOf behind &&
    (behind.drop anchor.length).all (· = '\r')

/-- The lines up to the one that closes a text, it included, and the text behind it. -/
def linesUntil (isLast : List Char → Bool) : Nat → List Char → Option (List Char × List Char)
  | 0, _ => none
  | fuel + 1, cs =>
    let line := cs.takeWhile (· ≠ '\n')
    match cs.drop line.length with
    | [] => none
    | _ :: rest =>
      if isLast line then some (line ++ ['\n'], rest)
      else (linesUntil isLast fuel rest).map fun (ls, rest) => (line ++ '\n' :: ls, rest)

/-- Takes the indentation of the last line off each line, if all have it. -/
def unindented? (cs : List Char) : Option (List Char) :=
  let ls := Text.split '\n' cs
  let indentation := ls.getLast?.getD []
  if ls.all indentation.isPrefixOf then
    some (ls.dropLast.flatMap fun l => l.drop indentation.length ++ ['\n'])
  else none

/-- Leaves a number of characters at the end out. -/
def dropBack (n : Nat) (cs : List Char) : List Char := cs.take (cs.length - n)

/-- Reads a text on lines of its own behind its two marks. A dash in front of the anchor
takes the anchor's indentation off each line. -/
def ownLines (cs : List Char) : Found Token :=
  let dash := cs.take 1 |>.filter (· = '-')
  let word := (cs.drop dash.length).takeWhile isAnchorChar
  let read (anchor rest : List Char) : Found Token :=
    let least := (String.ofList (dash ++ anchor)).utf8ByteSize
    match linesUntil (closes anchor least) (rest.length + 1) rest with
    | none => .error .unclosedText
    | some (body, rest) =>
      if anchor.isEmpty then .error .unclosedText
      else
        let front := dropBack (anchor.length + 1) body
        let s :=
          if dash.isEmpty then front
          else (unindented? front).getD
            ((dropBack 1 front).reverse.dropWhile fun c => c = ' ' || c = '\t').reverse
        .ok (.lines (String.ofList s), rest)
  match cs.drop (dash.length + word.length) with
  | '\n' :: rest => read word rest
  | '\r' :: '\n' :: rest => read (word ++ ['\r']) rest
  | _ => .error .unclosedText

/-! ### All tokens -/

def marks : List Char := ['\x7b', '\x7d', '[', ']', '=', ',']

def tokens : Nat → List Char → Except Problem (List Token)
  | 0, _ | _, [] => .ok []
  | fuel + 1, c :: cs => do
    let behind (found : Found Token) : Except Problem (List Token) := do
      let (t, rest) ← found
      return t :: (← tokens fuel rest)
    if isSpace c then tokens fuel cs
    else if isNameStart c then
      let word := String.ofList ((c :: cs).takeWhile isNameChar)
      let t := if word = "true" then .bool true else if word = "false" then .bool false
        else .name word
      behind (.ok (t, cs.dropWhile isNameChar))
    else if c.isDigit then behind (number [] (c :: cs))
    else if c = '"' then
      behind ((text (cs.length + 1) 0 cs).map fun (bytes, rest) => (textOf bytes, rest))
    else if c = '#' || (c = '/' && cs.head? = some '/') then
      tokens fuel (cs.dropWhile (· ≠ '\n'))
    else if c = '/' && cs.head? = some '*' then tokens fuel (← behindComment (cs.drop 1))
    else if c = '.' && cs.head?.any Char.isDigit then behind (fraction cs)
    else if c = '-' && cs.head?.any Char.isDigit then behind (number [c] cs)
    else if c = '<' && cs.head? = some '<' then behind (ownLines (cs.drop 1))
    else if marks.contains c then behind (.ok (.mark c, cs))
    else throw (.badCharacter c)

end TaintReach.Hcl
