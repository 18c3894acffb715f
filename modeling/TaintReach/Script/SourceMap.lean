import TaintReach.Json.Reader
import TaintReach.Path
import TaintReach.Script.Cursor
import TaintReach.Text.Blank
import TaintReach.Text.Fold
import TaintReach.Url
import TaintReach.Word

/-! Source maps: the lines that the lines of a script were made from.

A script may name its map on its last line. The map is given there in base 64, or in
a file. It holds segments: from a column of a line of the script on, up to the next
segment, everything comes from one line of a source. -/
namespace TaintReach.Script

/-- From a place in the script on, everything comes from a line of a source. -/
structure SourceMap.Segment where
  line : Int
  column : Int
  source : Int
deriving DecidableEq, Repr

/-- Segments for a part of the script, which starts behind some lines and columns. -/
structure SourceMap.Section where
  line : Int := 0
  column : Int := 0
  segments : Array SourceMap.Segment
deriving DecidableEq, Repr

/-- The parts of a map, the last first. -/
structure SourceMap where
  sections : List SourceMap.Section
deriving DecidableEq, Repr

namespace SourceMap

/-! ### Lines -/

/-- The first index from `low` to `high` where a test holds, if it holds from there on. -/
def firstWhere (test : Nat → Bool) : Nat → Nat → Nat → Nat
  | 0, low, _ => low
  | fuel + 1, low, high =>
    if low < high then
      let middle := (low + high) / 2
      if test middle then firstWhere test fuel low middle
      else firstWhere test fuel (middle + 1) high
    else low

/-- The source line of a place. Before the first segment of a line the last one of the
lines before it counts; behind the last segment of all there is none. -/
def Section.lineAt? (s : Section) (line column : Int) : Option Int :=
  let isPast (i : Nat) : Bool := s.segments[i]?.all fun g =>
    if g.line = line then column ≤ g.column else line ≤ g.line
  let i := firstWhere isPast (s.segments.size + 1) 0 s.segments.size
  match s.segments[i]? with
  | some g =>
    if line < g.line || column < g.column then
      if i = 0 then none else s.segments[i - 1]?.map (·.source)
    else some g.source
  | none => none

/-- The line that a line and a column of the script come from, or the line itself. -/
def lineAt (m : SourceMap) (line column : Int) : Int :=
  let found := m.sections.find? fun s => s.line < line
  (found.bind fun s => s.lineAt? (line - s.line) (column - s.column)).getD line

/-- The line that a place in the script comes from. Columns count from one. -/
def lineOf (m : SourceMap) (pos : Pos) : Int := m.lineAt pos.line (pos.column + 1)

/-- The line of what has no place: it stands before the first column. -/
def noLine (m : SourceMap) : Int := m.lineAt 1 0

/-! ### Segments -/

/-- An integer in 32 bits. -/
def narrow (n : Int) : Int := Int.bmod n 0x100000000

/-- The digits of a number in base 32, the least first. A digit above 31 has more behind it. -/
def digits : List Char → Option (List Nat × List Char)
  | [] => none
  | c :: rest =>
    let d := (Text.base64Digit? c).getD 0
    if d < 32 then some ([d], rest)
    else (digits rest).map fun (more, rest) => ((d - 32) :: more, rest)

/-- A number whose lowest bit is its sign. -/
def number? (cs : List Char) : Option (Int × List Char) :=
  (digits cs).map fun (ds, rest) =>
    let n := narrow (ds.foldr (fun d n => n * 32 + d) 0 : Nat)
    (if n % 2 = 0 then n / 2 else -(n / 2), rest)

/-- Where the reading of segments stands. All numbers but the line of the script are
differences to those before. -/
structure Progress where
  line : Int := 1
  column : Int := 0
  source : Int := 1
  sourceColumn : Int := 0
  /-- Which number of a segment is next: column, source, line, column and name. -/
  next : Nat := 0

/-- The segment that ends here. At the very start of a source there is none. -/
def Progress.segment (p : Progress) : List Segment :=
  if p.source = 1 && p.sourceColumn = 0 then [] else [⟨p.line, p.column, p.source⟩]

/-- Takes the next number of a segment. -/
def Progress.take (p : Progress) (n : Int) : Progress :=
  { p with
    column := if p.next = 0 then narrow (p.column + n) else p.column
    source := if p.next = 2 then narrow (p.source + n) else p.source
    sourceColumn := if p.next = 3 then narrow (p.sourceColumn + n) else p.sourceColumn
    next := (p.next + 1) % 5 }

/-- The segments of a text; commas end segments, semicolons lines. A segment without
numbers goes on with the place of the one before. -/
def segments : Nat → Progress → List Char → Option (List Segment)
  | 0, _, _ => none
  | _, p, [] => some p.segment
  | fuel + 1, p, c :: cs =>
    if c = ',' then
      (segments fuel { p with next := 0 } cs).map (p.segment ++ ·)
    else if c = ';' then
      let p' := { p with line := narrow (p.line + 1), column := 0, next := 0 }
      (segments fuel p' cs).map (p.segment ++ ·)
    else do
      let (n, rest) ← number? (c :: cs)
      segments fuel (p.take n) rest

/-! ### Maps -/

/-- The values of a member, letter case aside, without nulls. -/
def valuesOf (name : String) (members : List (String × Json)) : List Json :=
  members.filterMap fun (k, v) =>
    if k.toList.map Text.foldCase = name.toList.map Text.foldCase then
      match v with
      | .null => none
      | v => some v
    else none

/-- The last value of a member, if all of them are of its kind; `default` if there is none. -/
def member {α : Type} (read : Json → Option α) (default : α) (name : String)
    (members : List (String × Json)) : Option α := do
  let values ← (valuesOf name members).mapM read
  return values.getLast?.getD default

def text? : Json → Option String
  | .string s => some s
  | _ => none

def int? : Json → Option Int
  | .number s =>
    let n := s.toList
    if n.all fun c => c.isDigit || c = '-' then
      let size := Text.valueIn 10 (n.filter Char.isDigit)
      let negative := n.head? = some '-'
      if size < Word.signedLimit || (negative && size = Word.signedLimit) then
        some (if negative then -(size : Int) else size)
      else none
    else none
  | _ => none

def object? : Json → Option (List (String × Json))
  | .object members => some members
  | _ => none

def list? : Json → Option (List Json)
  | .array items => some items
  | _ => none

def isTextOrNull : Json → Bool
  | .string _ | .null => true
  | _ => false

/-- The version of the format there is; a map may leave it out. -/
def isVersion (version : Int) : Bool := version = 3 || version = 0

/-- The segments of a map. All its members have to be of their kinds, and addresses
well formed; `file` is the script's. -/
def mappings? (file : String) (members : List (String × Json)) : Option (Array Segment) := do
  let version ← member int? 0 "version" members
  let _ ← member text? "" "file" members
  let root ← member text? "" "sourceRoot" members
  let sources ← member list? [] "sources" members
  let contents ← member list? [] "sourcesContent" members
  let _ ← member list? [] "names" members
  let mappings ← member text? "" "mappings" members
  let base := if root = "" then file else root
  if !isVersion version || !(sources ++ contents).all isTextOrNull || mappings = "" ||
      (Url.parse? base.toList).isNone then none
  -- Characters beyond ASCII count by their bytes, none of which is a digit.
  let bytes := mappings.toList.flatMap fun c =>
    if c.toNat < 0x80 then [c] else List.replicate c.utf8Size 'A'
  return (← segments (bytes.length + 1) {} bytes).toArray

def section? (file : String) (j : Json) : Option Section := do
  let members ← object? j
  let offset ← member object? [] "offset" members
  return {
    line := ← member int? 0 "line" offset
    column := ← member int? 0 "column" offset
    segments := ← mappings? file (← member object? [] "map" members) }

/-- Reads a map; none if it is malformed. -/
def read? (file : String) (text : List Char) : Option SourceMap := do
  let members ← object? (← (Json.Reader.whole text).toOption)
  let sections ← member list? [] "sections" members
  if sections.isEmpty then return ⟨[{ segments := ← mappings? file members }]⟩
  let version ← member int? 0 "version" members
  if !isVersion version then none
  return ⟨(← sections.mapM (section? file)).reverse⟩

/-! ### Where a map is -/

/-- Where a script says that its map is. -/
inductive Location where
  /-- It names none, or no place at all. -/
  | none
  /-- In the script itself, if the text can be read. -/
  | inline (text : Option (List Char))
  | file (path : String)
  /-- Where it cannot be had from. -/
  | elsewhere
deriving DecidableEq, Repr

/-- The last line of a text that is neither empty nor the end of a wrapper. -/
def lastLine (text : List Char) : Option (List Char) :=
  (Text.split '\n' text).reverse.find? fun l => l ≠ [] && l ≠ ['\x7d', ')']

def announcement : List Char := "//# sourceMappingURL=".toList

def inlineStart : List Char := "data:application/json".toList

/-- An address seen from a file. -/
def resolve? (file address : List Char) : Option Url := do
  let url ← Url.parse? (Text.trim address)
  if !url.scheme.isEmpty then return url
  let file := Text.trim file
  let base := Url.parse? file
  if base.any fun b => b.path.head? = some '/' then
    let directory := (base.map fun b => Path.directory b.path).getD []
    let path := if url.path.head? = some '/' then url.path else directory ++ '/' :: url.path
    return { scheme := (base.map (·.scheme)).getD [], path := Path.clean path }
  Url.parse? (Path.clean (Path.directory file ++ '/' :: url.path))

/-- Where the map of a script is. -/
def location (file code : String) : Location :=
  match lastLine code.toList with
  | some line =>
    if announcement.isPrefixOf line then
      let address := line.drop announcement.length
      if inlineStart.isPrefixOf address then
        let data := if address.contains ',' then (address.dropWhile (· ≠ ',')).drop 1 else address
        .inline ((Text.base64? data).map Text.ofBytes)
      else
        match resolve? file.toList address with
        | some url =>
          if url.scheme = [] || url.scheme = "file".toList then .file (String.ofList url.path)
          else .elsewhere
        | none => .none
    else .none
  | none => .none

/-- The map of a script, if it names one; an error if that cannot be had. Files are
read by `load`. -/
def find (load : String → Option String) (file code : String) : Except Unit (Option SourceMap) :=
  let parsed (text : Option (List Char)) : Except Unit (Option SourceMap) :=
    match text.bind (read? file) with
    | some m => .ok (some m)
    | none => .error ()
  match location file code with
  | .none => .ok none
  | .inline text => parsed text
  | .file path => parsed ((load path).map String.toList)
  | .elsewhere => .error ()

end SourceMap

end TaintReach.Script
