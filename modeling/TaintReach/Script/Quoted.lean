import TaintReach.Script.Cursor
import TaintReach.Script.Numeral
import TaintReach.Text.Units

/-! Quoted text: how far a string, a template chunk or a regular expression
reaches, and what its escapes stand for.

The value of quoted text is a list of 16-bit units, since an escape can name half
of a surrogate pair. -/
namespace TaintReach.Script.Quoted
open Text (isDigitIn valueIn unitsOf)

/-! ### Escapes -/

/-- The value of exactly `n` hexadecimal digits at the start of a text. -/
def hexExactly (n : Nat) (cs : List Char) : Option Nat :=
  let run := cs.take n
  if run.length = n && run.all (isDigitIn 16) then some (valueIn 16 run) else none

/-- The code point in braces at the start of a text, and how long it is with its
closing brace. -/
def bracedCode (cs : List Char) : Option (Nat × Nat) :=
  let run := cs.takeWhile (isDigitIn 16)
  let value := valueIn 16 run
  if run ≠ [] && (cs.drop run.length).head? = some '\x7d' && value ≤ 0x10FFFF then
    some (value, run.length + 1)
  else none

/-- The code point of a `u` escape, read behind the `u`, and its length. -/
def unicodeEscape (cs : List Char) : Option (Nat × Nat) :=
  match cs with
  | '\x7b' :: rest => (bracedCode rest).map fun (value, n) => (value, n + 1)
  | _ => (hexExactly 4 cs).map (·, 4)

/-- What stands behind a backslash: the code point it gives, or none for a line
that is continued, and how many characters it takes. -/
structure Escape where
  code : Option Nat
  length : Nat

/-- Up to three octal digits at the start of a text. -/
def octalRun (cs : List Char) : List Char := (cs.take 3).takeWhile (isDigitIn 8)

/-- Reads one escape. With `strict` octal escapes are refused, a lone zero apart. -/
def escape (strict : Bool) : List Char → Option Escape
  | [] => none
  | c :: rest =>
    if c = 'b' then some ⟨some 8, 1⟩
    else if c = 'f' then some ⟨some 12, 1⟩
    else if c = 'n' then some ⟨some 10, 1⟩
    else if c = 'r' then some ⟨some 13, 1⟩
    else if c = 't' then some ⟨some 9, 1⟩
    else if c = 'v' then some ⟨some 11, 1⟩
    else if c = 'x' then (hexExactly 2 rest).map fun value => ⟨some value, 3⟩
    else if c = 'u' then (unicodeEscape rest).map fun (value, n) => ⟨some value, n + 1⟩
    else if isDigitIn 8 c then
      let run := octalRun (c :: rest)
      if run = ['0'] then some ⟨some 0, 1⟩
      else if strict then none
      else some ⟨some (valueIn 8 run), run.length⟩
    else if c = '\r' then some ⟨none, if rest.head? = some '\n' then 2 else 1⟩
    else if isLineBreak c then some ⟨none, 1⟩
    else some ⟨some c.toNat, 1⟩

/-- The units that quoted text stands for, unless an escape is malformed. -/
def cook (strict : Bool) (cs : List Char) : Option (List Nat) :=
  match cs with
  | [] => some []
  | c :: rest =>
    if c = '\\' then
      match escape strict rest with
      | none => none
      | some e => (cook strict (rest.drop e.length)).map ((e.code.map unitsOf).getD [] ++ ·)
    else (cook strict rest).map (unitsOf c.toNat ++ ·)
termination_by cs.length
decreasing_by all_goals simp +arith [List.length_drop]

/-! ### Extents -/

/-- Length of the body of a string up to its closing quote, which is not counted;
none when the line or the text ends first. A backslash takes the next character
with it, a line break included. -/
def stringBody (quote : Char) : List Char → Option Nat
  | [] => none
  | '\\' :: '\r' :: '\n' :: rest => (stringBody quote rest).map (· + 3)
  | '\\' :: _ :: rest => (stringBody quote rest).map (· + 2)
  | c :: rest =>
    if c = quote then some 0
    else if c = '\n' || c = '\r' then none
    else (stringBody quote rest).map (· + 1)

/-- How a template chunk ends. -/
inductive ChunkEnd where
  | backtick
  | substitution
deriving DecidableEq, Repr

/-- Length of a template chunk and how it ends; its end is not counted. -/
def templateBody : List Char → Option (Nat × ChunkEnd)
  | [] => none
  | '\\' :: _ :: rest => (templateBody rest).map fun (n, e) => (n + 2, e)
  | '$' :: '\x7b' :: _ => some (0, .substitution)
  | c :: rest =>
    if c = '\x60' then some (0, .backtick)
    else (templateBody rest).map fun (n, e) => (n + 1, e)

/-- A template refuses what `cook` refuses, and the escapes of eight and nine. -/
def plainDigitEscape : List Char → Bool
  | '\\' :: c :: rest => c = '8' || c = '9' || plainDigitEscape rest
  | _ :: rest => plainDigitEscape rest
  | [] => false

/-- Length of a regular expression behind its opening slash, the closing one
included; none when the line ends first. Inside a class a slash is plain, a
backslash takes even a line break with it, and a class that is never closed ends
the literal where the line or the text ends. -/
def regexpBody (inClass : Bool) : List Char → Option Nat
  | [] => if inClass then some 0 else none
  | '\\' :: '\r' :: '\n' :: rest =>
    if inClass then (regexpBody inClass rest).map (· + 3) else none
  | '\\' :: c :: rest =>
    if isLineBreak c && !inClass then none else (regexpBody inClass rest).map (· + 2)
  | c :: rest =>
    if inClass then
      if c = '\n' then some 1
      else if c = '\r' then some (if rest.head? = some '\n' then 2 else 1)
      else (regexpBody (c ≠ ']') rest).map (· + 1)
    else if c = '/' then some 1
    else if isLineBreak c || c = '\\' then none
    else (regexpBody (c = '[') rest).map (· + 1)

end TaintReach.Script.Quoted
