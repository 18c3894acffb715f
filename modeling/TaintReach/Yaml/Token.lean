import TaintReach.Yaml.Fault

/-! The tokens of YAML. -/
namespace TaintReach.Yaml

/-- How a scalar is written. -/
inductive Style where
  | plain
  | single
  | double
  | literal
  | folded
deriving DecidableEq, Repr

namespace Token

inductive Kind where
  | streamStart
  | streamEnd
  | version (major minor : Nat)
  | handle (name uri : String)
  | documentStart
  | documentEnd
  | blockSequenceStart
  | blockMappingStart
  | blockEnd
  | flowSequenceStart
  | flowSequenceEnd
  | flowMappingStart
  | flowMappingEnd
  | blockEntry
  | flowEntry
  | key
  | value
  | alias (name : String)
  | anchor (name : String)
  | tag (handle suffix : String)
  | scalar (style : Style) (text : String)
deriving DecidableEq, Repr

end Token

structure Token where
  mark : Mark
  kind : Token.Kind
deriving DecidableEq, Repr

end TaintReach.Yaml
