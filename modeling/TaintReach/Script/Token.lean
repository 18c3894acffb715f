import TaintReach.Script.Numeral

/-! The tokens of a script. -/
namespace TaintReach.Script

inductive Token where
  | eof
  /-- Text that is no token; nothing in the grammar takes it. -/
  | illegal
  /-- A string with the units it stands for. -/
  | string (units : List Nat)
  | number (value : Numeral)
  /-- The back quote that opens a template. -/
  | backtick
  /-- A name behind `#`. -/
  | privateName
  | identifier
  /-- A word that is reserved without having a meaning. -/
  | future
  /-- A reserved word spelled with an escape. -/
  | escapedWord
  | keyword (word : String)
  /-- A word that is reserved in some places only. -/
  | soft (word : String)
  | punct (text : String)
deriving DecidableEq, Repr

namespace Token

instance : Inhabited Token := ⟨.illegal⟩

/-- Whether a token can name a property: names and all words. -/
def isWord : Token → Bool
  | .identifier | .future | .escapedWord | .keyword _ | .soft _ => true
  | _ => false

/-- Reserved words that mean something. -/
def keywords : List String :=
  ["if", "in", "do", "var", "for", "new", "try", "this", "else", "case", "void", "with",
   "while", "break", "catch", "throw", "class", "const", "super", "return", "typeof", "delete",
   "switch", "default", "finally", "extends", "function", "continue", "debugger", "instanceof",
   "null", "true", "false"]

def softWords : List String := ["let", "static", "async", "await", "yield"]

def futureWords : List String := ["enum", "export", "import"]

/-- Words behind which a line break can end a statement. -/
def endsStatement : List String :=
  ["true", "false", "null", "this", "break", "throw", "yield", "return", "continue", "debugger"]

/-- Operators and other marks, longer ones before their beginnings. -/
def marks : List String :=
  [">>>=", "...", "===", "!==", "**=", "<<=", ">>=", ">>>", "&&=", "||=", "??=",
   "=>", "==", "!=", "<=", ">=", "&&", "||", "??", "++", "--", "+=", "-=", "*=", "/=", "%=",
   "&=", "|=", "^=", "<<", ">>", "**",
   "\x7b", "\x7d", "(", ")", "[", "]", ";", ",", "<", ">", "+", "-", "*", "/", "%", "&", "|",
   "^", "!", "~", "?", ":", "=", "."]

/-- Marks behind which a line break can end a statement. -/
def closingMarks : List String := [")", "]", "\x7d", "++", "--", "/", "/="]

end Token

end TaintReach.Script
