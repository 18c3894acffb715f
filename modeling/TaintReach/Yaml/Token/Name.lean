import TaintReach.Text.Digit
import TaintReach.Yaml.Token

/-! Directives, anchors and tags. -/
namespace TaintReach.Yaml.Token

/-- What a reader of one token gives. -/
abbrev Named := Except Fault (Kind × Place)

/-! ### Tags -/

/-- Characters of a tag. -/
def isUriChar (c : Char) : Bool :=
  isNameChar c || c ∈ [';', '/', '?', ':', '@', '&', '=', '+', '$', ',', '.', '!', '~', '*', '\'',
    '(', ')', '[', ']', '%']

/-- How many octets a character has by its first one; zero if none starts so. -/
def octetsOf (lead : Nat) : Nat :=
  if lead < 0x80 then 1
  else if lead < 0xC0 then 0
  else if lead < 0xE0 then 2
  else if lead < 0xF0 then 3
  else if lead < 0xF8 then 4
  else 0

/-- An octet behind a percent sign. -/
def octet? : List Char → Option Nat
  | '%' :: a :: b :: _ => do return (← Text.hexDigit? a) * 16 + (← Text.hexDigit? b)
  | _ => none

/-- Reads the octets of a character behind the first one. -/
def trailingOctets (start : Mark) : Nat → Nat → Place → Except Fault (Nat × Place)
  | 0, code, p => .ok (code, p)
  | n + 1, code, p =>
    match octet? p.rest with
    | none => .error (.inToken start p.mark .octetExpected)
    | some o =>
      if o / 0x40 ≠ 2 then .error (.inToken start p.mark .trailingOctet)
      else trailingOctets start n (code * 0x40 + o % 0x40) (p.skipMany 3)

/-- Reads a character given by its octets. -/
def escapedOctets (start : Mark) (p : Place) : Except Fault (Char × Place) :=
  match octet? p.rest with
  | none => .error (.inToken start p.mark .octetExpected)
  | some lead =>
    match octetsOf lead with
    | 0 => .error (.inToken start p.mark .leadingOctet)
    | n + 1 =>
      let bits := if n = 0 then lead else lead % Nat.pow 2 (6 - n)
      (trailingOctets start n bits (p.skipMany 3)).map fun (code, p) => (Char.ofNat code, p)

/-- Reads the characters of a tag. -/
def uri (start : Mark) : Nat → Place → Except Fault (List Char × Place)
  | 0, p => .ok ([], p)
  | fuel + 1, p =>
    match p.rest with
    | [] => .ok ([], p)
    | c :: _ =>
      if !isUriChar c then .ok ([], p)
      else
        let step : Except Fault (Char × Place) :=
          if c = '%' then escapedOctets start p else .ok (c, p.skip)
        match step with
        | .error f => .error f
        | .ok (c, p) => (uri start fuel p).map fun (cs, p) => (c :: cs, p)

/-- Reads the characters of a tag, of which there is at least one. -/
def uriNonempty (start : Mark) (fuel : Nat) (p : Place) : Except Fault (List Char × Place) := do
  let (cs, q) ← uri start fuel p
  if q.mark.index = p.mark.index then .error (.inToken start p.mark .uriExpected)
  return (cs, q)

/-- Reads a handle: an exclamation mark, a name, and a second mark if it is there. -/
def handleChars (start : Mark) (p : Place) : Except Fault (List Char × Place) :=
  if !p.startsWith '!' then .error (.inToken start p.mark .bangExpected)
  else
    let (name, p) := p.skip.take isNameChar
    .ok (if p.startsWith '!' then ('!' :: name ++ ['!'], p.skip) else ('!' :: name, p))

/-- Reads a tag: whole between angle brackets, behind a handle, or behind one
exclamation mark. -/
def tag (fuel : Nat) (p : Place) : Named := do
  let start := p.mark
  let (handle, suffix, p) ← (do
    if p.skip.startsWith '<' then
      let (suffix, p) ← uriNonempty start fuel (p.skipMany 2)
      if !p.startsWith '>' then .error (.inToken start p.mark .angleExpected)
      return ([], suffix, p.skip)
    else
      let (handle, p) ← handleChars start p
      if 1 < handle.length && handle.getLast? = some '!' then
        let (suffix, p) ← uriNonempty start fuel p
        return (handle, suffix, p)
      else
        let (rest, p) ← uri start fuel p
        let suffix := handle.drop 1 ++ rest
        return if suffix.isEmpty then ([], ['!'], p) else (['!'], suffix, p) :
    Except Fault (List Char × List Char × Place))
  if !p.atGap then .error (.inToken start p.mark .gapExpected)
  return (.tag (String.ofList handle) (String.ofList suffix), p)

/-! ### Anchors and aliases -/

/-- Reads the name of an anchor or alias behind its sign. -/
def anchorName (p : Place) : Except Fault (String × Place) :=
  let (name, behind) := p.skip.take isNameChar
  let ends := behind.atGap ||
    behind.rest.head?.any fun c => c ∈ ['?', ':', ',', ']', '\x7d', '%', '@', '\x60']
  if name.isEmpty || !ends then .error (.inToken p.mark behind.mark .nameExpected)
  else .ok (String.ofList name, behind)

/-! ### Directives -/

/-- Reads one of the two numbers of a version. -/
def versionNumber (start : Mark) (p : Place) : Except Fault (Nat × Place) :=
  let (ds, behind) := p.take Char.isDigit
  if 2 < ds.length then .error (.inToken start p.mark .versionTooLong)
  else if ds.isEmpty then .error (.inToken start p.mark .versionExpected)
  else .ok (Text.valueIn 10 ds, behind)

def version (start : Mark) (p : Place) : Named := do
  let (major, p) ← versionNumber start (p.skipWhile isBlank)
  if !p.startsWith '.' then .error (.inToken start p.mark .versionPointExpected)
  let (minor, p) ← versionNumber start p.skip
  return (.version major minor, p)

/-- Reads a handle and what it stands for. -/
def handle (start : Mark) (fuel : Nat) (p : Place) : Named := do
  let (name, p) ← handleChars start (p.skipWhile isBlank)
  if name ≠ ['!'] && name.getLast? ≠ some '!' then
    .error (.inToken start p.mark .bangExpected)
  if !p.atBlank then .error (.inToken start p.mark .blankExpected)
  let (text, p) ← uriNonempty start fuel (p.skipWhile isBlank)
  if !p.atGap then .error (.inToken start p.mark .gapExpected)
  return (.handle (String.ofList name) (String.ofList text), p)

/-- Reads a directive and the rest of its line. -/
def directive (fuel : Nat) (p : Place) : Named := do
  let start := p.mark
  let (name, p) := p.skip.take isNameChar
  if name.isEmpty then .error (.inToken start p.mark .directiveNameExpected)
  if !p.atGap then .error (.inToken start p.mark .directiveNameCharacter)
  let (kind, p) ←
    if name = ['Y', 'A', 'M', 'L'] then version start p
    else if name = ['T', 'A', 'G'] then handle start fuel p
    else .error (.inToken start p.mark .unknownDirective)
  let p := p.skipWhile isBlank
  let p := if p.startsWith '#' then p.line.2 else p
  if !p.atEnd && !p.atBreak then .error (.inToken start p.mark .lineEndExpected)
  return (kind, p.skipBreak)

end TaintReach.Yaml.Token
