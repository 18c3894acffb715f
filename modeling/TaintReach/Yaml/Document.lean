import TaintReach.Yaml.Node
import TaintReach.Yaml.Token.Stream

/-! The first document of a text as a tree of nodes. -/
namespace TaintReach.Yaml

/-- What is known while a document is read. -/
structure Reading where
  stream : Stream
  /-- Handles of tags and what they stand for. -/
  handles : List (String × String) := []
  /-- Anchors by name, the last first. -/
  anchors : List (String × Nat) := []
  anchored : List (Nat × Node) := []

abbrev Read := StateT Reading (Except Fault)

namespace Read

/-! ### Tokens -/

def peek : Read Token := do
  let r ← get
  let (t, stream) ← Stream.peek.run r.stream
  set { r with stream }
  return t

/-- Takes the next token and looks at the one behind it. -/
def step : Read Token := do
  let r ← get
  let (_, stream) ← Stream.next.run r.stream
  set { r with stream }
  peek

/-- Takes the next token without looking further. -/
def drop : Read Unit := do
  let r ← get
  let (_, stream) ← Stream.next.run r.stream
  set { r with stream }

/-! ### Anchors and tags -/

/-- Gives an anchor its number. -/
def register (anchor : Option String) : Read (Option Nat) := do
  match anchor with
  | none => return none
  | some name =>
    let r ← get
    let number := r.anchors.length
    set { r with anchors := (name, number) :: r.anchors }
    return some number

/-- Keeps a finished node under the number of its anchor. -/
def keep (number : Option Nat) (n : Node) : Read Node := do
  if let some number := number then
    modify fun r => { r with anchored := (number, n) :: r.anchored }
  return n

/-- A tag in full, given as it stands in the text. -/
def fullTag (start here : Mark) (handle suffix : String) : Read String := do
  if handle = "" then return suffix
  match (← get).handles.lookup handle with
  | some uri =>
    let tag := uri ++ suffix
    if tag = "" then throw (.inOrder start here .undefinedHandle)
    return tag
  | none => throw (.inOrder start here .undefinedHandle)

/-- What stands in front of a node: where it starts, its tag and anchor. -/
structure Front where
  mark : Mark
  tag : String := ""
  anchor : Option String := none

/-- Reads an anchor and a tag, in either order, and looks at the token behind. -/
def front (t : Token) : Read (Front × Token) := do
  match t.kind with
  | .anchor name =>
    let t' ← step
    match t'.kind with
    | .tag handle suffix =>
      let behind ← step
      return ({ mark := t.mark, anchor := some name, tag := ← fullTag t.mark t'.mark handle suffix },
        behind)
    | _ => return ({ mark := t.mark, anchor := some name }, t')
  | .tag handle suffix =>
    let t' ← step
    match t'.kind with
    | .anchor name =>
      let behind ← step
      return ({ mark := t.mark, anchor := some name, tag := ← fullTag t.mark t.mark handle suffix },
        behind)
    | _ => return ({ mark := t.mark, tag := ← fullTag t.mark t.mark handle suffix }, t')
  | _ => return ({ mark := t.mark }, t)

/-- The head of a node; a tag of one exclamation mark counts as none. -/
def Front.head (f : Front) (implied : String) : Node.Head :=
  { line := f.mark.line + 1
    tag := if f.tag = "" || f.tag = "!" then implied else Tag.short f.tag
    anchor := f.anchor }

def scalar (f : Front) (style : Style) (text : String) : Read Node := do
  let number ← register f.anchor
  keep number (.scalar (f.head (Node.impliedTag style text)) style text)

/-- A scalar that is not there. -/
def absent (mark : Mark) : Read Node := scalar { mark } .plain ""

/-! ### Nodes -/

/-- Ends of what stands behind a hyphen. -/
def endsEntry (k : Token.Kind) : Bool := k = .blockEntry || k = .blockEnd

/-- Ends of a key, a value, or an entry at the column of a mapping. -/
def endsPart (k : Token.Kind) : Bool := k = .key || k = .value || k = .blockEnd

/-- Ends of a value in brackets. -/
def endsFlow (close : Token.Kind) (k : Token.Kind) : Bool := k = .flowEntry || k = close

mutual

/-- Reads a node. Block collections are only allowed in blocks, and entries without a
collection of their own only as parts of a mapping. -/
def node (fuel : Nat) (block loose : Bool) : Read Node := do
  match fuel with
  | 0 => throw ⟨.tooDeep, 0⟩
  | fuel + 1 =>
    let t ← peek
    match t.kind with
    | .alias name =>
      match (← get).anchors.lookup name with
      | none => throw ⟨.unknownAnchor name, 0⟩
      | some target =>
        drop
        return .alias (t.mark.line + 1) name target
    | _ =>
      let (f, t) ← front t
      match t.kind with
      | .scalar style text =>
        drop
        scalar f style text
      | .flowSequenceStart =>
        let number ← register f.anchor
        let items ← flowItems fuel t.mark true
        keep number (.sequence (f.head Tag.sequence) true items)
      | .flowMappingStart =>
        let number ← register f.anchor
        let pairs ← flowPairs fuel t.mark true
        keep number (.mapping (f.head Tag.mapping) true pairs)
      | kind =>
        if loose && kind = .blockEntry then
          let number ← register f.anchor
          let items ← looseItems fuel
          keep number (.sequence (f.head Tag.sequence) false items)
        else if block && kind = .blockSequenceStart then
          let number ← register f.anchor
          drop
          let items ← blockItems fuel t.mark
          keep number (.sequence (f.head Tag.sequence) false items)
        else if block && kind = .blockMappingStart then
          let number ← register f.anchor
          drop
          let pairs ← blockPairs fuel t.mark
          keep number (.mapping (f.head Tag.mapping) false pairs)
        else if f.anchor.isSome || f.tag ≠ "" then scalar f .plain ""
        else throw (.inOrder f.mark t.mark .contentExpected)

/-- Reads entries behind hyphens up to the end of their block. -/
def blockItems (fuel : Nat) (start : Mark) : Read (List Node) := do
  match fuel with
  | 0 => throw ⟨.tooDeep, 0⟩
  | fuel + 1 =>
    let t ← peek
    match t.kind with
    | .blockEntry =>
      let behind ← step
      let item ← if endsEntry behind.kind then absent t.mark else node fuel true false
      return item :: (← blockItems fuel start)
    | .blockEnd =>
      drop
      return []
    | _ => throw (.inOrder start t.mark .entryExpected)

/-- Reads entries at the column of the mapping around them. -/
def looseItems (fuel : Nat) : Read (List Node) := do
  match fuel with
  | 0 => throw ⟨.tooDeep, 0⟩
  | fuel + 1 =>
    let t ← peek
    match t.kind with
    | .blockEntry =>
      let behind ← step
      let item ←
        if behind.kind = .blockEntry || endsPart behind.kind then absent t.mark
        else node fuel true false
      return item :: (← looseItems fuel)
    | _ => return []

/-- Reads keys and values up to the end of their block. -/
def blockPairs (fuel : Nat) (start : Mark) : Read (List (Node × Node)) := do
  match fuel with
  | 0 => throw ⟨.tooDeep, 0⟩
  | fuel + 1 =>
    let t ← peek
    match t.kind with
    | .key =>
      let behind ← step
      let key ← if endsPart behind.kind then absent t.mark else node fuel true true
      let t ← peek
      let value ←
        if t.kind = .value then do
          let behind ← step
          if endsPart behind.kind then absent t.mark else node fuel true true
        else absent t.mark
      return (key, value) :: (← blockPairs fuel start)
    | .blockEnd =>
      drop
      return []
    | _ => throw (.inOrder start t.mark .keyExpected)

/-- Reads the items of a sequence in brackets, standing on its bracket or, behind the
first item, on a comma. An item with a colon is a mapping of one pair. -/
def flowItems (fuel : Nat) (start : Mark) (first : Bool) : Read (List Node) := do
  match fuel with
  | 0 => throw ⟨.tooDeep, 0⟩
  | fuel + 1 =>
    if first then drop
    let t ← peek
    if t.kind = .flowSequenceEnd then
      drop
      return []
    if !first && t.kind ≠ .flowEntry then throw (.inOrder start t.mark .bracketExpected)
    let t ← if first then pure t else step
    match t.kind with
    | .flowSequenceEnd =>
      drop
      return []
    | .key =>
      let behind ← step
      let ends := endsFlow .flowSequenceEnd
      let key ←
        if behind.kind = .value || ends behind.kind then do
          drop
          absent behind.mark
        else node fuel false false
      let v ← peek
      let value ←
        if v.kind = .value then do
          let behind ← step
          if ends behind.kind then absent v.mark else node fuel false false
        else absent v.mark
      let pair : Node := .mapping { line := t.mark.line + 1, tag := Tag.mapping } true [(key, value)]
      let _ ← peek
      return pair :: (← flowItems fuel start false)
    | _ =>
      let item ← node fuel false false
      return item :: (← flowItems fuel start false)

/-- Reads the pairs of a mapping in braces, standing on its brace or, behind the first
pair, on a comma. A key without a colon has no value. -/
def flowPairs (fuel : Nat) (start : Mark) (first : Bool) : Read (List (Node × Node)) := do
  match fuel with
  | 0 => throw ⟨.tooDeep, 0⟩
  | fuel + 1 =>
    if first then drop
    let t ← peek
    if t.kind = .flowMappingEnd then
      drop
      return []
    if !first && t.kind ≠ .flowEntry then throw (.inOrder start t.mark .braceExpected)
    let t ← if first then pure t else step
    match t.kind with
    | .flowMappingEnd =>
      drop
      return []
    | .key =>
      let behind ← step
      let ends := endsFlow .flowMappingEnd
      let key ←
        if behind.kind = .value || ends behind.kind then absent behind.mark
        else node fuel false false
      let v ← peek
      let value ←
        if v.kind = .value then do
          let behind ← step
          if ends behind.kind then absent behind.mark else node fuel false false
        else absent v.mark
      return (key, value) :: (← flowPairs fuel start false)
    | _ =>
      let key ← node fuel false false
      let value ← absent (← peek).mark
      return (key, value) :: (← flowPairs fuel start false)

end

/-! ### Documents -/

/-- Handles every document knows. -/
def usualHandles : List (String × String) := [("!", "!"), ("!!", Tag.longPrefix)]

/-- Reads directives; tells the token behind them. -/
def directives (versioned : Bool) : Nat → Read Token
  | 0 => peek
  | fuel + 1 => do
    let t ← peek
    match t.kind with
    | .version major minor =>
      if versioned then throw (.inOrder {} t.mark .repeatedVersion)
      if major ≠ 1 || minor ≠ 1 then throw (.inOrder {} t.mark .otherVersion)
      let _ ← step
      directives true fuel
    | .handle name uri =>
      if ((← get).handles.lookup name).isSome then throw (.inOrder {} t.mark .repeatedHandle)
      modify fun r => { r with handles := r.handles ++ [(name, uri)] }
      let _ ← step
      directives versioned fuel
    | _ => return t

/-- What only stands in front of a document. -/
def isPreamble : Token.Kind → Bool
  | .version _ _ | .handle _ _ | .documentStart => true
  | _ => false

/-- Reads the first document; `none` if the text has no content. -/
def document (fuel : Nat) : Read (Option Node) := do
  let _ ← peek
  let t ← step
  if t.kind = .streamEnd then return none
  let start ← directives false fuel
  modify fun r => { r with handles := r.handles ++ usualHandles }
  let root ←
    if isPreamble t.kind then do
      if start.kind ≠ .documentStart then throw (.inOrder {} start.mark .documentStartExpected)
      let behind ← step
      if isPreamble behind.kind || behind.kind = .documentEnd || behind.kind = .streamEnd then
        absent behind.mark
      else node fuel true false
    else node fuel true false
  let t ← peek
  if t.kind = .documentEnd then drop
  return some root

end Read

/-- The first document of a text; `none` if the text has no content. -/
def Document.read? (text : String) : Except Fault (Option Document) :=
  let stream := Stream.ofText text
  match (Read.document (4 * stream.room)).run { stream } with
  | .error f => .error f
  | .ok (none, _) => .ok none
  | .ok (some root, r) => .ok (some { root, anchored := r.anchored })

end TaintReach.Yaml
