import TaintReach.Yaml.Scalar
import TaintReach.Yaml.Token

/-! YAML as a tree. -/
namespace TaintReach.Yaml

namespace Tag

/-- What the short form of common tags stands for. -/
def longPrefix : String := "tag:yaml.org,2002:"

def null : String := "!!null"
def text : String := "!!str"
def sequence : String := "!!seq"
def mapping : String := "!!map"
/-- The tag of the key whose value is merged into a mapping. -/
def merge : String := "!!merge"

/-- A tag in its short form. -/
def short (tag : String) : String :=
  let long := longPrefix.toList
  if long.isPrefixOf tag.toList then "!!" ++ String.ofList (tag.toList.drop long.length) else tag

end Tag

/-- What nodes of all kinds have. -/
structure Node.Head where
  /-- The line it starts on, from one. -/
  line : Nat := 0
  tag : String
  anchor : Option String := none
deriving DecidableEq, Repr

inductive Node where
  | scalar (head : Node.Head) (style : Style) (text : String)
  | sequence (head : Node.Head) (flow : Bool) (items : List Node)
  | mapping (head : Node.Head) (flow : Bool) (pairs : List (Node × Node))
  /-- Stands for the node with an anchor; `target` is the number of the anchor. -/
  | alias (line : Nat) (name : String) (target : Nat)

namespace Node

/-- The tag of a scalar that has none: of the key `<<` without quotes that of merging, of
other scalars without quotes that of what they stand for. -/
def impliedTag (style : Style) (text : String) : String :=
  if style ≠ .plain then Tag.text
  else if text = "<<" then Tag.merge
  else (Scalar.ofPlain text).tag

/-- A text as a scalar that is written in a style. -/
def ofText (style : Style) (text : String) : Node := .scalar { tag := Tag.text } style text

def line : Node → Nat
  | .scalar h _ _ | .sequence h _ _ | .mapping h _ _ => h.line
  | .alias line _ _ => line

end Node

/-- A document: its root and its nodes with anchors, by number. -/
structure Document where
  root : Node
  anchored : List (Nat × Node) := []

end TaintReach.Yaml
