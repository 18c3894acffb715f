import TaintReach.Yaml.Token.Name
import TaintReach.Yaml.Token.Scalar

/-! The tokens of a text, read as they are asked for.

Whether a scalar is a key shows only at the colon behind it, so tokens wait in a
queue and the key token is put in front of the scalar then. A scalar can be such a
simple key if it stands on one line with its colon and not too far from it. Columns
open and close block collections. -/
namespace TaintReach.Yaml

/-- A token that may turn out to be a simple key. -/
structure Candidate where
  possible : Bool := false
  /-- It stands where only a key can stand. -/
  required : Bool := false
  /-- The number of the token, counted from the start of the text. -/
  number : Nat := 0
  mark : Mark := {}
deriving DecidableEq, Repr

/-- What is known between two tokens. -/
structure Stream where
  place : Place
  /-- More than the characters of the text. -/
  room : Nat
  /-- From here on the text cannot be read, for a character that is not allowed. -/
  limit : Option Nat := none
  started : Bool := false
  queue : List Token := []
  /-- How many tokens were taken out of the queue. -/
  taken : Nat := 0
  /-- The column of the innermost block collection, negative outside all. -/
  indent : Int := -1
  /-- The columns of the collections around it. -/
  outer : List Int := []
  /-- A simple key may start here. -/
  keyAllowed : Bool := true
  /-- The last candidate at each depth of brackets, the innermost first. -/
  candidates : List Candidate := [{}]
  /-- Tokens that wait to be told keys, by number, with their depth. -/
  awaited : List (Nat × Nat) := []
deriving DecidableEq, Repr

abbrev Scan := StateT Stream (Except Fault)

namespace Stream

/-- The deepest that brackets or columns may nest. -/
def maxDepth : Nat := 10000

/-- The farthest a colon may be behind the start of its simple key. -/
def maxKeyLength : Nat := 1024

/-- How many brackets are open. -/
def depth (s : Stream) : Nat := s.candidates.length - 1

def inFlow (s : Stream) : Bool := 0 < s.depth

def candidate (s : Stream) : Candidate := s.candidates.headD {}

/-- The number the next token will have. -/
def nextNumber (s : Stream) : Nat := s.taken + s.queue.length

def failAt {α : Type} (start : Mark) (problem : Problem) : Scan α := do
  throw (.inToken start (← get).place.mark problem)

/-- Fails at the current place. -/
def failHere {α : Type} (problem : Problem) : Scan α := do
  failAt (← get).place.mark problem

def append (mark : Mark) (kind : Token.Kind) : Scan Unit :=
  modify fun s => { s with queue := s.queue ++ [⟨mark, kind⟩] }

/-- Puts a token in front of the one with a number. -/
def insert (number : Nat) (mark : Mark) (kind : Token.Kind) : Scan Unit :=
  modify fun s =>
    let before := number - s.taken
    { s with queue := s.queue.take before ++ ⟨mark, kind⟩ :: s.queue.drop before }

/-! ### Simple keys -/

/-- Drops the candidate at the current depth. -/
def dropCandidate : Scan Unit := do
  let c := (← get).candidate
  if c.possible then
    if c.required then failAt c.mark .colonExpected
    modify fun s =>
      { s with
        candidates := { c with possible := false } :: s.candidates.drop 1
        awaited := s.awaited.filter (·.1 ≠ c.number) }

/-- Notes that the next token may be a simple key. -/
def saveCandidate : Scan Unit := do
  let s ← get
  if s.keyAllowed then
    dropCandidate
    let c : Candidate :=
      { possible := true
        required := !s.inFlow && s.indent = s.place.mark.column
        number := s.nextNumber
        mark := s.place.mark }
    modify fun s =>
      { s with
        candidates := c :: s.candidates.drop 1
        awaited := (c.number, s.depth) :: s.awaited.filter (·.1 ≠ c.number) }

/-- Whether the last candidate at a depth can still be a key. -/
def canBeKey (depth : Nat) : Scan Bool := do
  let s ← get
  let i := s.depth - depth
  match s.candidates[i]? with
  | none => return false
  | some c =>
    if !c.possible then return false
    else if c.mark.line < s.place.mark.line || c.mark.index + maxKeyLength < s.place.mark.index then
      if c.required then failAt c.mark .colonExpected
      modify fun s => { s with candidates := s.candidates.set i { c with possible := false } }
      return false
    else return true

/-! ### Columns and brackets -/

/-- Opens a block collection at a column, unless one is open there or right of it. Its
token goes in front of the one with a number, or last. -/
def openBlock (column : Nat) (number : Option Nat) (mark : Mark) (kind : Token.Kind) :
    Scan Unit := do
  let s ← get
  if !s.inFlow && s.indent < column then
    set { s with outer := s.indent :: s.outer, indent := column }
    if maxDepth ≤ s.outer.length then failAt s.candidate.mark .tooDeep
    match number with
    | some n => insert n mark kind
    | none => append mark kind

/-- Closes the block collections right of a column. -/
def closeBlocks (column : Int) (mark : Mark) : Scan Unit :=
  modify fun s =>
    if s.inFlow then s
    else
      let closed := (s.indent :: s.outer).takeWhile (column < ·)
      let left := (s.indent :: s.outer).drop closed.length
      { s with
        queue := s.queue ++ closed.map fun _ => ⟨mark, .blockEnd⟩
        indent := left.headD (-1)
        outer := left.drop 1 }

/-- Closes everything and forgets the candidate: at directives, between documents and
at the end. -/
def closeAll : Scan Unit := do
  closeBlocks (-1) (← get).place.mark
  dropCandidate
  modify fun s => { s with keyAllowed := false }

/-- Takes a sign of some characters as a token. -/
def sign (length : Nat) (kind : Token.Kind) : Scan Unit := do
  let p := (← get).place
  modify fun s => { s with place := p.skipMany length }
  append p.mark kind

def openFlow (kind : Token.Kind) : Scan Unit := do
  saveCandidate
  modify fun s =>
    { s with candidates := { number := s.nextNumber, mark := s.place.mark } :: s.candidates }
  let s ← get
  if maxDepth < s.depth then failAt s.place.mark .tooDeep
  set { s with keyAllowed := true }
  sign 1 kind

def closeFlow (kind : Token.Kind) : Scan Unit := do
  dropCandidate
  modify fun s =>
    if s.inFlow then
      { s with
        awaited := s.awaited.filter (·.1 ≠ s.candidate.number)
        candidates := s.candidates.drop 1
        keyAllowed := false }
    else { s with keyAllowed := false }
  sign 1 kind

def flowEntry : Scan Unit := do
  dropCandidate
  modify fun s => { s with keyAllowed := true }
  sign 1 .flowEntry

def blockEntry : Scan Unit := do
  let s ← get
  if !s.inFlow then
    if !s.keyAllowed then failHere .entryNotAllowed
    openBlock s.place.mark.column none s.place.mark .blockSequenceStart
  dropCandidate
  modify fun s => { s with keyAllowed := true }
  sign 1 .blockEntry

/-- A question mark. -/
def keySign : Scan Unit := do
  let s ← get
  if !s.inFlow then
    if !s.keyAllowed then failHere .keyNotAllowed
    openBlock s.place.mark.column none s.place.mark .blockMappingStart
  dropCandidate
  modify fun s => { s with keyAllowed := !s.inFlow }
  sign 1 .key

/-- A colon: behind a simple key, or behind what a question mark announced. -/
def valueSign : Scan Unit := do
  if ← canBeKey (← get).depth then
    let c := (← get).candidate
    insert c.number c.mark .key
    openBlock c.mark.column (some c.number) c.mark .blockMappingStart
    modify fun s =>
      { s with
        candidates := { c with possible := false } :: s.candidates.drop 1
        awaited := s.awaited.filter (·.1 ≠ c.number)
        keyAllowed := false }
  else
    let s ← get
    if !s.inFlow then
      if !s.keyAllowed then failHere .valueNotAllowed
      openBlock s.place.mark.column none s.place.mark .blockMappingStart
    modify fun s => { s with keyAllowed := !s.inFlow }
  sign 1 .value

/-! ### Names and scalars -/

/-- Reads a token that may be a key; no key can start right behind it. -/
def keyLike (read : Place → Except Fault (Token.Kind × Place)) : Scan Unit := do
  saveCandidate
  let p := (← get).place
  let (kind, behind) ← read p
  modify fun s => { s with keyAllowed := false, place := behind }
  append p.mark kind

def blockScalar (folded : Bool) : Scan Unit := do
  dropCandidate
  let s ← get
  let (text, behind) ← Token.block folded s.indent s.room s.place
  set { s with keyAllowed := true, place := behind }
  append s.place.mark (.scalar (if folded then .folded else .literal) (String.ofList text))

def quotedScalar (single : Bool) : Scan Unit := do
  let room := (← get).room
  keyLike fun p =>
    (Token.quoted single room p).map fun (text, p) =>
      (.scalar (if single then .single else .double) (String.ofList text), p)

/-- A plain scalar. If a line break stands behind it, a key may follow. -/
def plainScalar : Scan Unit := do
  saveCandidate
  let s ← get
  let (text, broken, behind) ← Token.plain s.inFlow s.indent s.room s.place
  set { s with keyAllowed := broken, place := behind }
  append s.place.mark (.scalar .plain (String.ofList text))

/-- Characters that do not start a plain scalar. -/
def signs : List Char :=
  ['-', '?', ':', ',', '[', ']', '\x7b', '\x7d', '#', '&', '*', '!', '|', '>', '\'', '"', '%', '@',
    '\x60']

/-- Whether a plain scalar starts here. -/
def startsPlain (inFlow : Bool) : List Char → Bool
  | [] => false
  | c :: cs =>
    !(isGap c || signs.contains c) || (c = '-' && !cs.head?.any isBlank) ||
      (!inFlow && (c = '?' || c = ':') && !cs.head?.all isGap)

/-! ### The next token -/

/-- Steps to the next token, past blanks, comments and line breaks. Tabs do not count
as blanks where a key may start. -/
def toToken (inFlow : Bool) : Nat → Bool → Place → Bool × Place
  | 0, keyAllowed, p => (keyAllowed, p)
  | fuel + 1, keyAllowed, p =>
    let p := p.skipWhile fun c => c = ' ' || (c = '\t' && (inFlow || !keyAllowed))
    let p := if p.startsWith '#' then p.skipComments (fuel + 1) else p
    if p.atBreak then toToken inFlow fuel (keyAllowed || !inFlow) p.skipBreak
    else (keyAllowed, p)

/-- Fails if characters from here on that have to be seen cannot be read. -/
def checkLimit (ahead : Nat) : Scan Unit := do
  let s ← get
  if s.limit.any (· < s.place.mark.index + ahead) then throw ⟨.controlCharacter, 0⟩

/-- The end of the text, which starts a new line. -/
def finish : Scan Unit := do
  modify fun s =>
    if s.place.mark.column = 0 then s
    else
      { s with
        place := { s.place with mark := { s.place.mark with column := 0, line := s.place.mark.line + 1 } } }
  closeAll
  append (← get).place.mark .streamEnd

/-- Reads the token that starts here. -/
def readToken (c : Char) (next : Option Char) : Scan Unit := do
  let s ← get
  let loose := s.inFlow || next.all isGap
  match c with
  | '[' => openFlow .flowSequenceStart
  | '\x7b' => openFlow .flowMappingStart
  | ']' => closeFlow .flowSequenceEnd
  | '\x7d' => closeFlow .flowMappingEnd
  | ',' => flowEntry
  | '*' => keyLike fun p => (Token.anchorName p).map fun (name, p) => (.alias name, p)
  | '&' => keyLike fun p => (Token.anchorName p).map fun (name, p) => (.anchor name, p)
  | '!' => keyLike (Token.tag s.room)
  | '\'' => quotedScalar true
  | '"' => quotedScalar false
  | _ =>
    if c = '-' && next.all isGap then blockEntry
    else if c = '?' && loose then keySign
    else if c = ':' && loose then valueSign
    else if c = '|' && !s.inFlow then blockScalar false
    else if c = '>' && !s.inFlow then blockScalar true
    else if startsPlain s.inFlow s.place.rest then plainScalar
    else failHere .noToken

/-- Reads the next token into the queue, with the tokens its column implies. A comment
on the same line goes with it, except behind the hyphen of an entry. -/
def fetch : Scan Unit := do
  checkLimit 1
  let s ← get
  if !s.started then
    set { s with started := true }
    append s.place.mark .streamStart
  else
    let before := s.place.mark
    let (keyAllowed, place) := toToken s.inFlow s.room s.keyAllowed s.place
    set { s with keyAllowed, place }
    checkLimit 4
    closeBlocks place.mark.column before
    match place.rest with
    | [] => finish
    | c :: cs =>
      if place.mark.column = 0 && c = '%' then
        closeAll
        let (kind, behind) ← Token.directive s.room place
        modify fun s => { s with place := behind }
        append place.mark kind
      else if place.atMarker '-' then
        closeAll
        sign 3 .documentStart
      else if place.atMarker '.' then
        closeAll
        sign 3 .documentEnd
      else
        readToken c cs.head?
        let entry := c = '-' && cs.head?.all isGap
        if !entry then modify fun s => { s with place := s.place.skipLineComment }
    checkLimit 1

/-- Fills the queue until its first token is settled: it is no candidate any more, and
two tokens stand behind it. -/
def fill : Nat → Scan Unit
  | 0 => return
  | fuel + 1 => do
    let s ← get
    let settled ←
      if s.queue.length < 3 then pure false
      else
        match s.awaited.lookup s.taken with
        | none => pure true
        | some depth => pure !(← canBeKey depth)
    if !settled then
      fetch
      fill fuel

/-- The next token. -/
def peek : Scan Token := do
  fill (← get).room
  return (← get).queue.headD ⟨{}, .streamEnd⟩

/-- Takes the next token out of the queue. -/
def next : Scan Unit :=
  modify fun s => { s with queue := s.queue.drop 1, taken := s.taken + 1 }

/-! ### Starting -/

/-- How many bytes of a text are looked through at once. -/
def chunkBytes : Nat := 512

/-- The index of the first character of the chunk with the first character that is not
allowed. `start` is where the chunk starts, `bytes` how much is left of it. -/
def limitFrom (start index bytes : Nat) : List Char → Option Nat
  | [] => none
  | c :: cs =>
    let (start, bytes) := if bytes < c.utf8Size then (index, chunkBytes) else (start, bytes)
    if isAllowed c then limitFrom start (index + 1) (bytes - c.utf8Size) cs else some start

/-- The tokens of a text; a byte order mark in front does not count. -/
def ofText (text : String) : Stream :=
  let (chars, bytes) := match text.toList with
    | '\ufeff' :: cs => (cs, chunkBytes - 3)
    | cs => (cs, chunkBytes)
  { place := { rest := chars }
    room := chars.length + 8
    limit := limitFrom 0 0 bytes chars }

end Stream

end TaintReach.Yaml
