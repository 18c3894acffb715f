/-! Places in a script's text.

A line ends at a line feed, a carriage return, the two together, and at the line
and paragraph separators. -/
namespace TaintReach.Script

/-- Where something starts: its line, how many bytes precede it there, and how many in
the whole text. -/
structure Pos where
  line : Int := 1
  column : Nat := 0
  offset : Nat := 0
deriving DecidableEq, Repr

def isLineBreak (c : Char) : Bool :=
  c = '\n' || c = '\r' || c.toNat = 0x2028 || c.toNat = 0x2029

/-- The text from some place on. -/
structure Cursor where
  rest : List Char
  pos : Pos := {}

namespace Cursor

/-- How many lines end with `c` when `tail` follows: the two characters of a
double break count once. -/
def linesEnded (c : Char) (tail : List Char) : Nat :=
  if c = '\r' then (if tail.head? = some '\n' then 0 else 1)
  else if isLineBreak c then 1 else 0

/-- Moves past one character. -/
def advance (k : Cursor) : Cursor :=
  match k.rest with
  | [] => k
  | c :: tail =>
    let ended := linesEnded c tail
    ⟨tail,
      { line := k.pos.line + ended
        column := if ended = 0 then k.pos.column + c.utf8Size else 0
        offset := k.pos.offset + c.utf8Size }⟩

/-- Moves past `n` characters. -/
def forward (k : Cursor) : Nat → Cursor
  | 0 => k
  | n + 1 => k.advance.forward n

/-- The characters that start within the first `n` bytes of a text, and those behind. -/
def splitBytes (n : Nat) : List Char → List Char × List Char
  | [] => ([], [])
  | c :: cs =>
    if n = 0 then ([], c :: cs)
    else
      let (front, back) := splitBytes (n - c.utf8Size) cs
      (c :: front, back)

/-- The text between a place and a later one. -/
def textTo (k : Cursor) (stop : Pos) : List Char :=
  (splitBytes (stop.offset - k.pos.offset) k.rest).1

/-- The text from `n` bytes after the start of the script up to a place; `k` is
somewhere before both. -/
def textFrom (k : Cursor) (n : Nat) (stop : Pos) : List Char :=
  (splitBytes (n - k.pos.offset) (k.textTo stop)).2

end Cursor

end TaintReach.Script
