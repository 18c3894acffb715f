import TaintReach.Yaml.Node

/-! Trees of nodes as YAML text.

A scalar is written in the style it has where that reads back, else in quotes: single
ones where only its shape stands in the way, double ones where it holds characters
that have to be escaped. Collections stand in blocks, four columns a level, and in
brackets if they are empty. -/
namespace TaintReach.Yaml

/-! ### Which styles a text allows -/

/-- What stands in a text. -/
structure Traits where
  /-- Something that would end a plain scalar, or start something else, in a block. -/
  indicator : Bool := false
  /-- The same in brackets. -/
  flowIndicator : Bool := false
  lineBreak : Bool := false
  special : Bool := false
  tab : Bool := false
  spaceBreak : Bool := false
  breakSpace : Bool := false

namespace Traits

/-- Characters that open something else at the start of a scalar. -/
def openers : List Char :=
  ['#', ',', '[', ']', '\x7b', '\x7d', '&', '*', '!', '|', '>', '\'', '"', '%', '@', '\x60']

/-- What the first character shows: whether it is an indicator in blocks and in brackets. -/
def opens (c : Char) (blankNext : Bool) : Bool × Bool :=
  if openers.contains c then (true, true)
  else if c = '?' || c = ':' then (blankNext, true)
  else (c = '-' && blankNext, c = '-' && blankNext)

/-- What a later character shows. -/
def ends (before c : Char) (blankNext : Bool) : Bool × Bool :=
  if c = ':' then (blankNext, true)
  else if c = '#' then (isGap before, isGap before)
  else (false, [',', '?', '[', ']', '\x7b', '\x7d'].contains c)

/-- Adds what one character inside a text shows, given its neighbours. -/
def see (t : Traits) (before : Option Char) (c : Char) (next : Option Char) : Traits :=
  let blankNext := next.all isBlank
  let (block, flow) := match before with
    | none => opens c blankNext
    | some b => ends b c blankNext
  { indicator := t.indicator || block
    flowIndicator := t.flowIndicator || flow
    lineBreak := t.lineBreak || isBreak c
    special := t.special || (c ≠ '\t' && !isPrintable c)
    tab := t.tab || c = '\t'
    spaceBreak := t.spaceBreak || (isBreak c && before = some ' ')
    breakSpace := t.breakSpace || (c = ' ' && before.any isBreak) }

/-- Reads the traits of a text off its characters. -/
def seeAll (t : Traits) (before : Option Char) : List Char → Traits
  | [] => t
  | c :: cs => seeAll (t.see before c cs.head?) (some c) cs

def of (cs : List Char) : Traits :=
  let marker := cs.take 3 = ['-', '-', '-'] || cs.take 3 = ['.', '.', '.']
  seeAll { indicator := marker, flowIndicator := marker } none cs

/-- Neither quotes nor lines of their own are needed. -/
def plainAllowed (t : Traits) (inFlow : Bool) (cs : List Char) : Bool :=
  if cs.isEmpty then !inFlow
  else
    !((if inFlow then t.flowIndicator else t.indicator) || t.lineBreak || t.special || t.tab ||
      t.spaceBreak || t.breakSpace || cs.head? = some ' ' || cs.getLast? = some ' ')

def singleAllowed (t : Traits) : Bool := !(t.special || t.tab || t.spaceBreak || t.breakSpace)

def blockAllowed (t : Traits) (cs : List Char) : Bool :=
  !(cs.isEmpty || t.special || t.spaceBreak || cs.getLast? = some ' ')

end Traits

/-- Where a node is written. -/
structure Spot where
  /-- The column of the collection around it; none around the root. -/
  column : Option Nat := none
  /-- Behind the hyphen of an entry. -/
  entry : Bool := false
  inFlow : Bool := false
  /-- In front of a colon on the same line. -/
  simpleKey : Bool := false

/-- The style a text is written in when `wanted` is asked for. -/
def Style.settle (wanted : Style) (spot : Spot) (cs : List Char) : Style :=
  let t := Traits.of cs
  let quotes : Style := if t.singleAllowed then .single else .double
  match wanted with
  | .plain =>
    if spot.simpleKey && (t.lineBreak || cs.isEmpty) then
      if t.lineBreak then .double else .single
    else if t.plainAllowed spot.inFlow cs then .plain
    else quotes
  | .single => if spot.simpleKey && t.lineBreak then .double else quotes
  | .double => .double
  | .literal | .folded =>
    if spot.simpleKey || spot.inFlow || !t.blockAllowed cs then .double else wanted

/-! ### The pen -/

/-- A text that is being written. -/
structure Pen where
  /-- What is written, the last character first. -/
  written : List Char := []
  column : Nat := 0
  /-- No blank is needed in front of what comes next. -/
  spaced : Bool := true
  /-- The line has nothing but blanks and signs that open entries. -/
  indented : Bool := true

namespace Pen

def text (p : Pen) : String := String.ofList p.written.reverse

def put (c : Char) (p : Pen) : Pen := { p with written := c :: p.written, column := p.column + 1 }

def putAll (cs : List Char) (p : Pen) : Pen := cs.foldl (fun p c => p.put c) p

/-- Ends the line by a line break of some kind. -/
def newline (c : Char) (p : Pen) : Pen :=
  { p with written := c :: p.written, column := 0, indented := true }

/-- Goes to a column, on a new line unless the pen is on its way there. -/
def goTo (column : Nat) (p : Pen) : Pen :=
  let p :=
    if !p.indented || column < p.column || (p.column = column && !p.spaced) then p.newline '\n'
    else p
  { p.putAll (List.replicate (column - p.column) ' ') with spaced := true }

/-- Writes a sign. Signs that open entries leave the line as good as empty. -/
def sign (cs : List Char) (needsBlank isBlank opensEntry : Bool) (p : Pen) : Pen :=
  let p := if needsBlank && !p.spaced then p.put ' ' else p
  let p := p.putAll cs
  { p with spaced := isBlank, indented := p.indented && opensEntry }

/-! ### Scalars -/

def plain (cs : List Char) (p : Pen) : Pen :=
  if cs.isEmpty then { p with indented := false }
  else
    let p := if p.spaced then p else p.put ' '
    { p.putAll cs with spaced := false, indented := false }

/-- Writes the inside of single quotes: a quote is written twice, and a line goes on at
`column` behind a break. -/
def singleChars (column : Nat) (afterBreak : Bool) (p : Pen) : List Char → Pen
  | [] => p
  | c :: cs =>
    if isBreak c then
      let p := if !afterBreak && c = '\n' then p.newline '\n' else p
      singleChars column true (p.newline c) cs
    else
      let p := if afterBreak then p.goTo column else p
      let p := if c = '\'' then p.put '\'' else p
      singleChars column false { p.put c with indented := false } cs

def single (column : Nat) (cs : List Char) (p : Pen) : Pen :=
  (singleChars column false (p.sign ['\''] true false false) cs).sign ['\''] false false false

/-- A character inside double quotes by its escape. -/
def escaped (c : Char) : List Char :=
  match c.toNat with
  | 0 => ['\\', '0']
  | 7 => ['\\', 'a']
  | 8 => ['\\', 'b']
  | 9 => ['\\', 't']
  | 10 => ['\\', 'n']
  | 11 => ['\\', 'v']
  | 12 => ['\\', 'f']
  | 13 => ['\\', 'r']
  | 0x1b => ['\\', 'e']
  | 0x22 => ['\\', '"']
  | 0x5c => ['\\', '\\']
  | 0x85 => ['\\', 'N']
  | 0xA0 => ['\\', '_']
  | 0x2028 => ['\\', 'L']
  | 0x2029 => ['\\', 'P']
  | n =>
    if n ≤ 0xFF then '\\' :: 'x' :: upperHex 2 n
    else if n ≤ 0xFFFF then '\\' :: 'u' :: upperHex 4 n
    else '\\' :: 'U' :: upperHex 8 n
where
  upperHex (width n : Nat) : List Char := (Text.padded 16 width n).map Char.toUpper

/-- Whether a character stands for itself inside double quotes. -/
def standsAlone (c : Char) : Bool := isPrintable c && !isBreak c && c ≠ '"' && c ≠ '\\'

/-- Writes double quotes. Behind a byte order mark in front everything is escaped. -/
def double (cs : List Char) (p : Pen) : Pen :=
  let marked := cs.head? = some '\ufeff'
  let inside := cs.flatMap fun c => if standsAlone c && !marked then [c] else escaped c
  ((p.sign ['"'] true false false).putAll inside).sign ['"'] false false false

/-- Indentation and chomping hints of a block. -/
def blockHints (cs : List Char) : List Char :=
  (if cs.head?.any fun c => c = ' ' || isBreak c then ['4'] else []) ++
    (match cs.reverse with
      | [] => ['-']
      | c :: rest =>
        if !isBreak c then ['-']
        else
          match rest with
          | [] => ['+']
          | d :: _ => if isBreak d then ['+'] else [])

/-- Writes the lines of a block at `column`; empty lines stay empty. -/
def blockChars (column : Nat) (afterBreak : Bool) (p : Pen) : List Char → Pen
  | [] => p
  | c :: cs =>
    if isBreak c then blockChars column true (p.newline c) cs
    else
      let p := if afterBreak then p.goTo column else p
      blockChars column false { p.put c with indented := false } cs

/-- Writes a block. A break in front of its text ends the line of the sign. -/
def literal (column : Nat) (cs : List Char) (p : Pen) : Pen :=
  let p := p.sign ('|' :: blockHints cs) true false false
  blockChars column true { p with spaced := true } cs

end Pen

/-! ### Nodes -/

namespace Node

/-- The columns of a level. -/
def levelWidth : Nat := 4

/-- The column of a collection, or of the lines of a scalar, at a spot. -/
def innerColumn (spot : Spot) (atRoot : Nat) : Nat :=
  match spot.column with
  | none => atRoot
  | some n => if spot.entry then n + 2 else levelWidth * ((n + levelWidth) / levelWidth)

/-- The tag that has to be written, if any: one that the text does not imply. Texts are
quoted instead. -/
def shownTag? (tag text : String) : Option String :=
  if tag = Tag.text || (Scalar.ofPlain text).tag = tag then none else some tag

/-- The style a scalar asks for. -/
def wantedStyle (tag : String) (style : Style) (text : String) : Style :=
  if style ≠ .plain then style
  else if text.toList.contains '\n' then .literal
  else if tag = Tag.text && (Scalar.ofPlain text).tag ≠ tag then .double
  else .plain

/-- Anchor and tag in front of a node. -/
def front (anchor tag : Option String) (p : Pen) : Pen :=
  let p := match anchor with
    | some name => p.sign ('&' :: name.toList) true false false
    | none => p
  match tag with
  | some tag =>
    let cs := tag.toList
    p.sign (if cs.head? = some '!' then cs else '!' :: '<' :: cs ++ ['>']) true false false
  | none => p

def printScalar (h : Head) (style : Style) (text : String) (spot : Spot) (p : Pen) : Pen :=
  let cs := text.toList
  let column := innerColumn spot levelWidth
  let p := front h.anchor (shownTag? h.tag text) p
  match (wantedStyle h.tag style text).settle spot cs with
  | .plain => p.plain cs
  | .single => p.single column cs
  | .double => p.double cs
  | .literal | .folded => p.literal column cs

/-- The longest key in front of a colon on its line, in bytes. -/
def maxSimpleKey : Nat := 128

/-- Whether a key can stand in front of a colon on one line. -/
def isSimpleKey : Node → Bool
  | .scalar h _ text =>
    !text.toList.any isBreak &&
      text.utf8ByteSize + (h.anchor.map String.utf8ByteSize).getD 0 +
        ((shownTag? h.tag text).map String.utf8ByteSize).getD 0 ≤ maxSimpleKey
  | .sequence _ _ items => items.isEmpty
  | .mapping _ _ pairs => pairs.isEmpty
  | .alias _ name _ => name.utf8ByteSize ≤ maxSimpleKey

mutual

/-- Writes a node at a spot. -/
def print (spot : Spot) (p : Pen) : Node → Pen
  | .scalar h style text => printScalar h style text spot p
  | .alias _ name _ => p.sign ('*' :: name.toList) true false false
  | .sequence h flow items =>
    let p := front h.anchor (if h.tag = Tag.sequence then none else some h.tag) p
    if flow || spot.inFlow || items.isEmpty then
      let inner := { spot with inFlow := true, simpleKey := false, entry := false }
      (printFlowItems inner true (p.sign ['['] true true false) items).sign [']'] false false false
    else printItems (innerColumn spot 0) p items
  | .mapping h flow pairs =>
    let p := front h.anchor (if h.tag = Tag.mapping then none else some h.tag) p
    if flow || spot.inFlow || pairs.isEmpty then
      let inner := { spot with inFlow := true, simpleKey := false, entry := false }
      (printFlowPairs inner true (p.sign ['\x7b'] true true false) pairs).sign ['\x7d'] false false
        false
    else printPairs (innerColumn spot 0) p pairs

/-- Writes the entries of a sequence in a column. -/
def printItems (column : Nat) (p : Pen) : List Node → Pen
  | [] => p
  | n :: ns =>
    let p := (p.goTo column).sign ['-'] true false true
    printItems column (print { column := some column, entry := true } p n) ns

/-- Writes the pairs of a mapping in a column. -/
def printPairs (column : Nat) (p : Pen) : List (Node × Node) → Pen
  | [] => p
  | kv :: rest => printPairs column (printPair column (p.goTo column) kv) rest

/-- Writes a key and its value. A key that is long or has line breaks stands behind a
question mark, and its value behind a colon of its own. -/
def printPair (column : Nat) (p : Pen) : Node × Node → Pen
  | (k, v) =>
    let spot : Spot := { column := some column }
    let p :=
      if k.isSimpleKey then
        (print { spot with simpleKey := true } p k).sign [':'] false false false
      else
        ((print spot (p.sign ['?'] true false true) k).goTo column).sign [':'] true false true
    print spot p v

/-- Writes items in brackets. -/
def printFlowItems (spot : Spot) (first : Bool) (p : Pen) : List Node → Pen
  | [] => p
  | n :: ns =>
    let p := if first then p else p.sign [','] false false false
    printFlowItems spot false (print spot p n) ns

/-- Writes pairs in braces. -/
def printFlowPairs (spot : Spot) (first : Bool) (p : Pen) : List (Node × Node) → Pen
  | [] => p
  | kv :: rest =>
    let p := if first then p else p.sign [','] false false false
    printFlowPairs spot false (printFlowPair spot p kv) rest

/-- Writes a key and its value in braces. -/
def printFlowPair (spot : Spot) (p : Pen) : Node × Node → Pen
  | (k, v) =>
    let p := (print { spot with simpleKey := true } p k).sign [':'] false false false
    print spot p v

end

/-- A tree as a text of its own. -/
def render (n : Node) : String := ((print {} {} n).goTo 0).text

end Node

end TaintReach.Yaml
