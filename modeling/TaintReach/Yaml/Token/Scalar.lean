import TaintReach.Text.Digit
import TaintReach.Yaml.Token

/-! Scalars as tokens: blocks of lines, quoted and plain ones.

Each reader starts at the first character of its scalar, gives its text and the
place behind it, and takes a bound on the lines that are left. -/
namespace TaintReach.Yaml.Token

/-- What a reader of scalars gives. -/
abbrev Found := Except Fault (List Char × Place)

/-! ### Blocks -/

/-- What becomes of the line breaks at the end of a block. -/
inductive Chomping where
  | strip
  | clip
  | keep
deriving DecidableEq, Repr

/-- Blank lines, and the place behind them and behind the indentation of the next line. -/
structure Blank where
  place : Place
  breaks : List Char
  /-- The widest indentation seen. -/
  widest : Nat

/-- Passes blank lines in a block whose lines start at column `indent`, or at any column
if that is zero. -/
def blank (start : Mark) (indent : Nat) : Nat → Blank → Except Fault Blank
  | 0, b => .ok b
  | fuel + 1, b =>
    let spaces := b.place.rest.takeWhile (· = ' ')
    let wanted := if indent = 0 then spaces.length else min spaces.length (indent - b.place.mark.column)
    let p := b.place.skipMany wanted
    let widest := max b.widest p.mark.column
    if (indent = 0 || p.mark.column < indent) && p.startsWith '\t' then
      .error (.inToken start p.mark .tabInIndent)
    else if p.atBreak then
      blank start indent fuel ⟨p.skipBreak, b.breaks ++ breakText p.rest, widest⟩
    else .ok ⟨p, b.breaks, widest⟩

/-- Reads the lines of a block. `ended` is the break behind the line before, `breaks` are
those of the blank lines since, and `indented` tells whether the line before started
with a blank. In a folded block a break between two lines of text becomes a blank. -/
def blockLines (start : Mark) (folded : Bool) (chomping : Chomping) (indent : Nat) :
    Nat → (ended breaks : List Char) → (indented : Bool) → Place → Found
  | 0, _, _, _, p => .ok ([], p)
  | fuel + 1, ended, breaks, indented, p =>
    if p.mark.column ≠ indent || p.atEnd then
      .ok (match chomping with
        | .strip => []
        | .clip => ended
        | .keep => ended ++ breaks, p)
    else
      let joined := folded && !indented && !p.atBlank && ended.head? = some '\n'
      let joint := if !joined then ended else if breaks.isEmpty then [' '] else []
      let (text, behind) := p.line
      match blank start indent (fuel + 1) ⟨behind.skipBreak, [], 0⟩ with
      | .error f => .error f
      | .ok b =>
        match blockLines start folded chomping indent fuel (breakText behind.rest) b.breaks p.atBlank
            b.place with
        | .error f => .error f
        | .ok (more, p) => .ok (joint ++ breaks ++ text ++ more, p)

/-- The hints behind the sign of a block: chomping and indentation, in either order. -/
def blockHints (start : Mark) (p : Place) : Except Fault (Chomping × Nat × Place) :=
  let chomping? : Option Char → Option Chomping
    | some '+' => some .keep
    | some '-' => some .strip
    | _ => none
  let indent? (p : Place) : Except Fault (Nat × Place) :=
    match p.rest with
    | c :: _ =>
      if c = '0' then .error (.inToken start p.mark .zeroIndent)
      else if c.isDigit then .ok (Text.valueIn 10 [c], p.skip)
      else .ok (0, p)
    | [] => .ok (0, p)
  match chomping? p.rest.head? with
  | some chomping => (indent? p.skip).map fun (n, p) => (chomping, n, p)
  | none =>
    (indent? p).map fun (n, p) =>
      if n = 0 then (.clip, 0, p)
      else
        match chomping? p.rest.head? with
        | some chomping => (chomping, n, p.skip)
        | none => (.clip, n, p)

/-- Reads a block. `outer` is the column of the collection it stands in, negative if in
none. Without a hint the indentation of the lines is that of the first one. -/
def block (folded : Bool) (outer : Int) (fuel : Nat) (p : Place) : Found := do
  let start := p.mark
  let (chomping, hint, p) ← blockHints start p.skip
  let p := p.skipWhile isBlank
  let p := if p.startsWith '#' then p.line.2 else p
  if !p.atEnd && !p.atBreak then .error (.inToken start p.mark .lineEndExpected)
  let hinted := if hint = 0 then 0 else (max outer 0).toNat + hint
  let b ← blank start hinted fuel ⟨p.skipBreak, [], 0⟩
  let indent := if hinted = 0 then max b.widest (max 1 (outer + 1).toNat) else hinted
  blockLines start folded chomping indent fuel [] b.breaks false b.place

/-! ### Gaps inside other scalars -/

/-- Blanks and line breaks between two runs of characters. -/
structure Gap where
  broken : Bool := false
  blanks : List Char := []
  first : List Char := []
  more : List Char := []

/-- What a gap stands for: its blanks; a single line break is one blank, and of several
the first does not count. -/
def Gap.text (g : Gap) : List Char :=
  if !g.broken then g.blanks
  else if g.first.head? ≠ some '\n' then g.first ++ g.more
  else if g.more.isEmpty then [' ']
  else g.more

/-- Passes blanks and line breaks. Behind a break no tab may stand left of column
`indent`. -/
def gap (start : Mark) (indent : Nat) : Nat → Gap → Place → Except Fault (Gap × Place)
  | 0, g, p => .ok (g, p)
  | fuel + 1, g, p =>
    match p.rest with
    | [] => .ok (g, p)
    | c :: _ =>
      if isBlank c then
        if g.broken then
          if c = '\t' && p.mark.column < indent then
            .error (.inToken start p.mark .tabInContinuation)
          else gap start indent fuel g p.skip
        else gap start indent fuel { g with blanks := g.blanks ++ [c] } p.skip
      else if isBreak c then
        let text := breakText p.rest
        if g.broken then gap start indent fuel { g with more := g.more ++ text } p.skipBreak
        else gap start indent fuel { g with broken := true, first := text } p.skipBreak
      else .ok (g, p)

/-! ### Quoted scalars -/

/-- An escape of one character. -/
def escape? : Char → Option Char
  | '0' => some '\x00'
  | 'a' => some '\x07'
  | 'b' => some '\x08'
  | 't' | '\t' => some '\t'
  | 'n' => some '\n'
  | 'v' => some '\x0b'
  | 'f' => some '\x0c'
  | 'r' => some '\r'
  | 'e' => some '\x1b'
  | ' ' => some ' '
  | '"' => some '"'
  | '\'' => some '\''
  | '\\' => some '\\'
  | 'N' => some '\u0085'
  | '_' => some '\u00a0'
  | 'L' => some '\u2028'
  | 'P' => some '\u2029'
  | _ => none

/-- The digits an escape by code has. -/
def codeLength? : Char → Option Nat
  | 'x' => some 2
  | 'u' => some 4
  | 'U' => some 8
  | _ => none

/-- Reads an escape behind its backslash. -/
def escape (start : Mark) (p : Place) : Except Fault (Char × Place) :=
  match p.rest with
  | [] => .error (.inToken start p.mark .unknownEscape)
  | c :: cs =>
    match escape? c, codeLength? c with
    | some e, _ => .ok (e, p.skip)
    | none, none => .error (.inToken start p.mark .unknownEscape)
    | none, some n =>
      let ds := cs.take n
      if ds.length ≠ n || !ds.all (Text.isDigitIn 16) then
        .error (.inToken start p.mark .hexExpected)
      else
        let code := Text.valueIn 16 ds
        if (0xD800 ≤ code && code ≤ 0xDFFF) || 0x10FFFF < code then
          .error (.inToken start p.mark .badCode)
        else .ok (Char.ofNat code, p.skipMany (n + 1))

/-- Reads characters up to a gap or the closing quote. Tells whether an escaped line
break ended them. -/
def quotedRun (start : Mark) (single : Bool) :
    Nat → Place → Except Fault (List Char × Bool × Place)
  | 0, p => .ok ([], false, p)
  | fuel + 1, p =>
    let go (c : Char) (p : Place) : Except Fault (List Char × Bool × Place) :=
      (quotedRun start single fuel p).map fun (text, escaped, p) => (c :: text, escaped, p)
    match p.rest with
    | [] => .ok ([], false, p)
    | c :: cs =>
      if isGap c then .ok ([], false, p)
      else if single then
        if c ≠ '\'' then go c p.skip
        else if cs.head? = some '\'' then go c (p.skipMany 2)
        else .ok ([], false, p)
      else if c = '"' then .ok ([], false, p)
      else if c ≠ '\\' then go c p.skip
      else if cs.head?.any isBreak then .ok ([], true, p.skip.skipBreak)
      else
        match escape start p.skip with
        | .error f => .error f
        | .ok (e, p) => go e p

/-- Reads the inside of quotes up to the closing one. -/
def quotedText (start : Mark) (single : Bool) : Nat → Place → Found
  | 0, p => .error (.inToken start p.mark .endInQuotes)
  | fuel + 1, p => do
    if p.atDocumentMarker then .error (.inToken start p.mark .markerInQuotes)
    if p.atEnd then .error (.inToken start p.mark .endInQuotes)
    let (text, escaped, p) ← quotedRun start single (fuel + 1) p
    if p.startsWith (if single then '\'' else '"') then return (text, p.skip)
    let (g, p) ← gap start 0 (fuel + 1) { broken := escaped } p
    let (more, p) ← quotedText start single fuel p
    return (text ++ g.text ++ more, p)

/-- Reads a quoted scalar. -/
def quoted (single : Bool) (fuel : Nat) (p : Place) : Found :=
  quotedText p.mark single fuel p.skip

/-! ### Plain scalars -/

/-- Signs that end a plain scalar in brackets. -/
def flowSigns : List Char := [',', '?', '[', ']', '\x7b', '\x7d']

/-- Characters of a plain scalar up to a gap or a sign that ends it. -/
def plainRun (inFlow : Bool) : List Char → List Char
  | [] => []
  | c :: cs =>
    if isGap c || (c = ':' && cs.head?.all isGap) || (inFlow && flowSigns.contains c) then []
    else c :: plainRun inFlow cs

/-- Reads a plain scalar behind a gap. Lines go on at column `indent` or right of it.
Tells whether a line break stood behind the scalar. -/
def plainText (start : Mark) (inFlow : Bool) (indent : Nat) :
    Nat → Gap → Place → Except Fault (List Char × Bool × Place)
  | 0, g, p => .ok ([], g.broken, p)
  | fuel + 1, g, p =>
    let run := plainRun inFlow p.rest
    if p.atDocumentMarker || p.startsWith '#' || run.isEmpty then .ok ([], g.broken, p)
    else
      let p := p.skipMany run.length
      let text := g.text ++ run
      if p.atEnd || !p.atGap then .ok (text, false, p)
      else
        match gap start indent (fuel + 1) {} p with
        | .error f => .error f
        | .ok (g, p) =>
          if !inFlow && p.mark.column < indent then .ok (text, g.broken, p)
          else
            (plainText start inFlow indent fuel g p).map fun (more, broken, p) =>
              (text ++ more, broken, p)

/-- Reads a plain scalar in the collection at column `outer`, negative if in none. -/
def plain (inFlow : Bool) (outer : Int) (fuel : Nat) (p : Place) :
    Except Fault (List Char × Bool × Place) :=
  plainText p.mark inFlow (outer + 1).toNat fuel {} p

end TaintReach.Yaml.Token
