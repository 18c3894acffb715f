import TaintReach.Text.Quote
import TaintReach.Yaml.Document

/-! What a document says: scalars, lists and tables.

Aliases are replaced by what they stand for, and the tables behind a merge key are
added to the table around it, whose own keys win. No two keys of a table may be
spelled alike. -/
namespace TaintReach.Yaml

inductive Datum where
  | scalar (s : Scalar)
  | list (items : List Datum)
  | table (members : List (Scalar × Datum))

/-- Members of a table, by key. -/
abbrev Members := List (Scalar × Datum)

/-- Gives a key a value. -/
def Members.put (members : Members) (key : Scalar) (value : Datum) : Members :=
  if members.any (·.1 = key) then members.map fun m => if m.1 = key then (key, value) else m
  else members ++ [(key, value)]

/-- What is counted and noted while a document is made sense of. -/
structure Tally where
  decoded : Nat := 0
  /-- How many of these inside aliases. -/
  aliased : Nat := 0
  /-- What does not fit, in order. -/
  complaints : List String := []

abbrev Decode := StateT Tally (Except Fault)

namespace Decode

/-- Whether aliases make up too much: most of a small document, a tenth of a huge one. -/
def tooManyAliases (aliased decoded : Nat) : Bool :=
  let low := 400000
  let high := 4000000
  let hundredths := 100 * aliased * (high - low)
  let allowed :=
    if decoded ≤ low then 99 * (high - low)
    else if high ≤ decoded then 10 * (high - low)
    else 99 * (high - low) - 89 * (decoded - low)
  100 < aliased && 1000 < decoded && allowed * decoded < hundredths

/-- Counts a node, `inAlias` if it is reached through an alias. -/
def count (inAlias : Bool) : Decode Unit := do
  let t ← get
  let t :=
    { t with decoded := t.decoded + 1, aliased := if inAlias then t.aliased + 1 else t.aliased }
  set t
  if tooManyAliases t.aliased t.decoded then throw ⟨.tooManyAliases, 0⟩

def complain (text : String) : Decode Unit :=
  modify fun t => { t with complaints := t.complaints ++ [text] }

/-- A scalar shortened for a message. -/
def excerpt (text : String) : String :=
  if 10 < text.utf8ByteSize then
    String.ofList (Text.ofBytes ((text.toUTF8.toList.take 7).map UInt8.toNat)) ++ "..."
  else text

/-- Notes that a node is of another kind than wanted. -/
def complainKind (n : Node) (wanted : String) : Decode Unit :=
  let told (h : Node.Head) (text : String) : Decode Unit :=
    complain ("line " ++ toString h.line ++ ": cannot unmarshal " ++ h.tag ++
      (if h.tag = Tag.sequence || h.tag = Tag.mapping then ""
        else " \x60" ++ excerpt text ++ "\x60") ++ " into " ++ wanted)
  match n with
  | .scalar h _ text => told h text
  | .sequence h _ _ | .mapping h _ _ => told h ""
  | .alias _ _ _ => return

/-! ### Keys -/

/-- Whether two keys are spelled alike. Of collections all are. -/
def alike : Node → Node → Bool
  | .scalar _ _ a, .scalar _ _ b => a = b
  | .alias _ a _, .alias _ b _ => a = b
  | .sequence _ _ _, .sequence _ _ _ => true
  | .mapping _ _ _, .mapping _ _ _ => true
  | _, _ => false

def keyText : Node → String
  | .scalar _ _ text => text
  | .alias _ name _ => name
  | _ => ""

/-- Notes keys that are spelled like one before; tells whether there are any. -/
def repeated : List Node → Decode Bool
  | [] => return false
  | n :: rest => do
    let again := rest.filter (alike n)
    for m in again do
      complain ("line " ++ toString m.line ++ ": mapping key " ++ Text.quote (keyText m) ++
        " already defined at line " ++ toString n.line)
    let more ← repeated rest
    return more || !again.isEmpty

def isMerge : Node → Bool
  | .scalar h _ text => text = "<<" && h.tag = Tag.merge
  | _ => false

/-- The tag of a node, that of what it stands for if it is an alias. -/
def tagOf (d : Document) : Nat → Node → String
  | _, .scalar h _ _ | _, .sequence h _ _ | _, .mapping h _ _ => h.tag
  | 0, .alias _ _ _ => ""
  | fuel + 1, .alias _ _ target => ((d.anchored.lookup target).map (tagOf d fuel)).getD ""

/-- Whether all keys are texts, merge keys aside. -/
def keysAreTexts (d : Document) (keys : List Node) : Bool :=
  keys.all fun k =>
    let tag := tagOf d (d.anchored.length + 1) k
    tag = Tag.text || tag = Tag.merge

/-- Whether a node is a mapping, or stands for one. -/
def isMapping (d : Document) : Node → Bool
  | .mapping _ _ _ => true
  | .alias _ _ target =>
    match d.anchored.lookup target with
    | some (.mapping _ _ _) => true
    | _ => false
  | _ => false

/-! ### Values -/

/-- What a scalar stands for. -/
def scalar (h : Node.Head) (text : String) : Decode Scalar :=
  if h.tag = Tag.text then return .text text
  else
    match Scalar.tagged h.tag text with
    | .ok s => return s
    | .error p => throw ⟨p, 0⟩

/-- A key as text; `none` if it is null or no scalar, which is noted. -/
def textKey (d : Document) : Nat → List Nat → Node → Decode (Option Scalar)
  | 0, _, _ => return none
  | fuel + 1, path, n => do
    count (!path.isEmpty)
    match n with
    | .alias _ name target =>
      if path.contains target then throw ⟨.circularAnchor name, 0⟩
      match d.anchored.lookup target with
      | some n => textKey d fuel (target :: path) n
      | none => return none
    | .scalar h _ text =>
      match ← scalar h text with
      | .null => return none
      | .text s => return some (.text s)
      | _ => return some (.text text)
    | .sequence _ _ _ =>
      complainKind n "string"
      return none
    | .mapping _ _ pairs =>
      if !(← repeated (pairs.map (·.1))) then complainKind n "string"
      return none

mutual

/-- What a node says. `path` holds the anchors whose aliases are being replaced. -/
def value (d : Document) (fuel : Nat) (path : List Nat) (n : Node) : Decode (Option Datum) := do
  match fuel with
  | 0 => return none
  | fuel + 1 =>
    count (!path.isEmpty)
    match n with
    | .alias _ name target =>
      if path.contains target then throw ⟨.circularAnchor name, 0⟩
      match d.anchored.lookup target with
      | some n => value d fuel (target :: path) n
      | none => return none
    | .scalar h _ text => return some (.scalar (← scalar h text))
    | .sequence _ _ items => return some (.list (← values d fuel path items))
    | .mapping _ _ pairs =>
      let keys := pairs.map (·.1)
      if ← repeated keys then return none
      let (members, _) ← members d fuel path (keysAreTexts d keys) pairs pairs none [] none
      return some (.table members)

/-- What the items of a list say. -/
def values (d : Document) (fuel : Nat) (path : List Nat) (ns : List Node) : Decode (List Datum) := do
  match fuel, ns with
  | 0, _ | _, [] => return []
  | fuel + 1, n :: ns =>
    let first ← value d fuel path n
    let rest ← values d fuel path ns
    return first.toList ++ rest

/-- Adds the pairs that are left of a mapping to the members of a table, then those of
its merge key. Keys in `taken` are passed over, if it is given, and new ones go there. -/
def members (d : Document) (fuel : Nat) (path : List Nat) (texts : Bool)
    (all left : List (Node × Node)) (merge : Option Node) (found : Members)
    (taken : Option (List Scalar)) : Decode (Members × Option (List Scalar)) := do
  match fuel, left with
  | 0, _ => return (found, taken)
  | fuel + 1, [] =>
    match merge with
    | none => return (found, taken)
    | some m =>
      let own ← match taken with
        | some keys => pure keys
        | none => ownKeys d fuel path all
      let (found, keys) ← merged d fuel path texts m found own
      return (found, taken.map fun _ => keys)
  | fuel + 1, (k, v) :: left =>
    if isMerge k then members d fuel path texts all left (some v) found taken
    else
      let key ←
        if texts then textKey d fuel path k
        else
          match ← value d fuel path k with
          | some (.scalar s) => pure (some s)
          | some _ => throw ⟨.collectionKey, 0⟩
          | none => pure none
      match key with
      | none => members d fuel path texts all left merge found taken
      | some key =>
        if taken.any (·.contains key) then members d fuel path texts all left merge found taken
        else
          let taken := taken.map (key :: ·)
          match ← value d fuel path v with
          | some datum => members d fuel path texts all left merge (found.put key datum) taken
          | none => members d fuel path texts all left merge found taken

/-- The keys of a mapping. -/
def ownKeys (d : Document) (fuel : Nat) (path : List Nat) (pairs : List (Node × Node)) :
    Decode (List Scalar) := do
  match fuel, pairs with
  | 0, _ | _, [] => return []
  | fuel + 1, (k, _) :: rest =>
    let key ← value d fuel path k
    let more ← ownKeys d fuel path rest
    return match key with
      | some (.scalar s) => s :: more
      | _ => more

/-- Adds what stands behind a merge key: a mapping, an alias of one, or a list of these. -/
def merged (d : Document) (fuel : Nat) (path : List Nat) (texts : Bool) (n : Node)
    (found : Members) (taken : List Scalar) : Decode (Members × List Scalar) := do
  match fuel with
  | 0 => return (found, taken)
  | fuel + 1 =>
    match n with
    | .sequence _ _ items => mergedEach d fuel path texts items found taken
    | n =>
      if isMapping d n then mergedOne d fuel path texts n found taken
      else throw ⟨.badMerge, 0⟩

/-- Adds one mapping. -/
def mergedOne (d : Document) (fuel : Nat) (path : List Nat) (texts : Bool) (n : Node)
    (found : Members) (taken : List Scalar) : Decode (Members × List Scalar) := do
  match fuel with
  | 0 => return (found, taken)
  | fuel + 1 =>
    count (!path.isEmpty)
    match n with
    | .alias _ name target =>
      if path.contains target then throw ⟨.circularAnchor name, 0⟩
      match d.anchored.lookup target with
      | some n => mergedOne d fuel (target :: path) texts n found taken
      | none => return (found, taken)
    | .mapping _ _ pairs =>
      if ← repeated (pairs.map (·.1)) then return (found, taken)
      let (found, keys) ← members d fuel path texts pairs pairs none found (some taken)
      return (found, keys.getD taken)
    | _ => return (found, taken)

/-- Adds mappings one after the other. -/
def mergedEach (d : Document) (fuel : Nat) (path : List Nat) (texts : Bool) (ns : List Node)
    (found : Members) (taken : List Scalar) : Decode (Members × List Scalar) := do
  match fuel, ns with
  | 0, _ | _, [] => return (found, taken)
  | fuel + 1, n :: ns =>
    if !isMapping d n then throw ⟨.badMerge, 0⟩
    let (found, taken) ← mergedOne d fuel path texts n found taken
    mergedEach d fuel path texts ns found taken

end

/-- The members of a document whose root is a mapping; none if it is null. -/
def root (d : Document) (fuel : Nat) : Decode Members := do
  count false
  count false
  match d.root with
  | .mapping _ _ pairs =>
    if ← repeated (pairs.map (·.1)) then return []
    return (← members d fuel [] true pairs pairs none [] none).1
  | .scalar h _ text =>
    if (← scalar h text) ≠ .null then complainKind d.root tableType
    return []
  | n =>
    complainKind n tableType
    return []
where
  /-- The word for a table in messages. -/
  tableType : String := "map[string]interface \x7b\x7d"

end Decode

/-- What a text says that is a table with texts as keys. Texts without content say
nothing. -/
def table (text : String) : Except Fault (List (String × Datum)) :=
  match Document.read? text with
  | .error f => .error f
  | .ok none => .ok []
  | .ok (some d) =>
    let fuel := (d.anchored.length + 1) * (4 * text.length + 64)
    match (Decode.root d fuel).run {} with
    | .error f => .error f
    | .ok (members, t) =>
      if !t.complaints.isEmpty then .error ⟨.unfit t.complaints, 0⟩
      else
        .ok (members.filterMap fun
          | (.text key, v) => some (key, v)
          | _ => none)

end TaintReach.Yaml
