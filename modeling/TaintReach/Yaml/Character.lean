/-! Characters that matter in YAML. -/
namespace TaintReach.Yaml

/-- Characters that end a line. -/
def isBreak (c : Char) : Bool :=
  let n := c.toNat
  n = 0xD || n = 0xA || n = 0x85 || n = 0x2028 || n = 0x2029

def isBlank (c : Char) : Bool := c = ' ' || c = '\t'

def isGap (c : Char) : Bool := isBlank c || isBreak c

/-- Characters of anchors, handles and the names of directives. -/
def isNameChar (c : Char) : Bool := c.isAlphanum || c = '_' || c = '-'

/-- Characters a text may consist of. -/
def isAllowed (c : Char) : Bool :=
  let n := c.toNat
  n = 0x9 || n = 0xA || n = 0xD || (0x20 ≤ n && n ≤ 0x7E) || n = 0x85 ||
    (0xA0 ≤ n && n ≤ 0xFFFD) || 0x10000 ≤ n

/-- Characters that are written as they are. -/
def isPrintable (c : Char) : Bool :=
  let n := c.toNat
  n = 0xA || (0x20 ≤ n && n ≤ 0x7E) || (0xA0 ≤ n && n < 0xFFFE && n ≠ 0xFEFF)

/-- What a line break at the front of a text stands for: a line feed, unless it is
one of the two separators that stand for themselves. -/
def breakText : List Char → List Char
  | c :: _ =>
    if c.toNat = 0x2028 || c.toNat = 0x2029 then [c] else if isBreak c then ['\n'] else []
  | [] => []

end TaintReach.Yaml
