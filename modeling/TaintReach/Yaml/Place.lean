import TaintReach.Yaml.Character

/-! Places in a YAML text. -/
namespace TaintReach.Yaml

/-- Where a place is, counted in characters from zero. -/
structure Mark where
  index : Nat := 0
  line : Nat := 0
  column : Nat := 0
deriving DecidableEq, Repr

structure Place where
  rest : List Char
  mark : Mark := {}
  /-- A line break was read, and only blanks since. -/
  freshLine : Bool := false
deriving DecidableEq, Repr

namespace Place

def atEnd (p : Place) : Bool := p.rest.isEmpty

def startsWith (c : Char) (p : Place) : Bool := p.rest.head? = some c

def atBlank (p : Place) : Bool := p.rest.head?.any isBlank

def atBreak (p : Place) : Bool := p.rest.head?.any isBreak

/-- A blank, a line break or the end. -/
def atGap (p : Place) : Bool := p.rest.head?.all isGap

/-- Steps past one character, which is no line break. -/
def skip (p : Place) : Place :=
  match p.rest with
  | [] => p
  | c :: cs =>
    { rest := cs
      mark := { p.mark with index := p.mark.index + 1, column := p.mark.column + 1 }
      freshLine := p.freshLine && isBlank c }

/-- Takes the characters in front that are wanted; none of them is a line break. -/
def take (wanted : Char → Bool) (p : Place) : List Char × Place :=
  let taken := p.rest.takeWhile wanted
  (taken,
    { rest := p.rest.dropWhile wanted
      mark :=
        { p.mark with
          index := p.mark.index + taken.length
          column := p.mark.column + taken.length }
      freshLine := p.freshLine && taken.all isBlank })

/-- Takes at most `n` characters. -/
def skipMany : Nat → Place → Place
  | 0, p => p
  | n + 1, p => skipMany n p.skip

def skipWhile (wanted : Char → Bool) (p : Place) : Place := (p.take wanted).2

/-- Steps past a line break, if one is next. -/
def skipBreak (p : Place) : Place :=
  let past (n : Nat) (rest : List Char) : Place :=
    { rest
      mark := { index := p.mark.index + n, line := p.mark.line + 1, column := 0 }
      freshLine := true }
  match p.rest with
  | '\r' :: '\n' :: cs => past 2 cs
  | c :: cs => if isBreak c then past 1 cs else p
  | [] => p

/-- The rest of a line. -/
def line (p : Place) : List Char × Place := p.take fun c => !isBreak c

/-- Three hyphens or three points alone at the start of a line. -/
def atMarker (sign : Char) (p : Place) : Bool :=
  p.mark.column = 0 &&
    match p.rest with
    | a :: b :: c :: rest => a = sign && b = sign && c = sign && rest.head?.all isGap
    | _ => false

def atDocumentMarker (p : Place) : Bool := p.atMarker '-' || p.atMarker '.'

/-! ### Comments -/

/-- How far a comment is looked for behind a token or behind another comment. -/
def commentReach : Nat := 512

/-- Steps past blanks and line breaks. -/
def skipGap : Nat → Place → Place
  | 0, p => p
  | n + 1, p =>
    if p.atBreak then skipGap n p.skipBreak
    else if p.atBlank then skipGap n p.skip
    else p

/-- Steps past the comment that is next and past those that follow it with only
blanks and empty lines between them. -/
def skipComments : Nat → Place → Place
  | 0, p => p
  | n + 1, p =>
    let behind := p.line.2
    let gap := behind.rest.takeWhile fun c => isBlank c || c = '\n' || c = '\r'
    if gap.length < commentReach && (behind.rest.drop gap.length).head? = some '#' then
      skipComments n (skipGap gap.length behind)
    else behind

/-- Steps past a comment on the line of the token before. -/
def skipLineComment (p : Place) : Place :=
  let blanks := p.rest.takeWhile isBlank
  if !p.freshLine && blanks.length < commentReach &&
      (p.rest.drop blanks.length).head? = some '#' then p.line.2
  else p

end Place

end TaintReach.Yaml
