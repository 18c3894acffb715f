import TaintReach.Text.Bytes
import TaintReach.Text.Digit
import TaintReach.Text.Split

/-! Addresses: whether one is well formed, its scheme and its path. -/
namespace TaintReach

structure Url where
  /-- Empty in an address that is relative to another. -/
  scheme : List Char := []
  /-- The path with its escapes resolved. -/
  path : List Char := []
deriving DecidableEq, Repr

namespace Url

/-! ### Escapes -/

/-- The bytes of a text in which a percent sign and two digits stand for a byte. -/
def bytes? : List Char → Option (List Nat)
  | [] => some []
  | '%' :: a :: b :: rest => do
    let byte := (← Text.hexDigit? a) * 16 + (← Text.hexDigit? b)
    return byte :: (← bytes? rest)
  | '%' :: _ => none
  | c :: rest => (bytes? rest).map (Text.bytesOf c ++ ·)

/-- A text with its escapes resolved. -/
def unescape? (cs : List Char) : Option (List Char) := (bytes? cs).map Text.ofBytes

/-! ### Hosts -/

def isHostChar (c : Char) : Bool :=
  0x80 ≤ c.toNat || c.isAlphanum || "-_.~!$&'()*+,;=:[]<>\"".toList.contains c

/-- Characters that may stand in a host; of the escapes only those beyond ASCII and the
percent sign itself. -/
def hostFits : List Char → Bool
  | [] => true
  | '%' :: a :: b :: rest =>
    match Text.hexDigit? a, Text.hexDigit? b with
    | some x, some _ => (8 ≤ x || (a = '2' && b = '5')) && hostFits rest
    | _, _ => false
  | c :: rest => isHostChar c && hostFits rest

/-- Nothing, or a colon and digits. -/
def isService : List Char → Bool
  | [] => true
  | c :: rest => c = ':' && rest.all Char.isDigit

def isHost (cs : List Char) : Bool :=
  let service :=
    if cs.head? = some '[' then
      if cs.contains ']' then (cs.reverse.takeWhile (· ≠ ']')).reverse else ['[']
    else if cs.contains ':' then ':' :: (cs.reverse.takeWhile (· ≠ ':')).reverse
    else []
  isService service && hostFits cs

def isUserChar (c : Char) : Bool := c.isAlphanum || "-._:~!$&'()*+,;=%@".toList.contains c

/-- A host, with the name of a user and an at sign in front on demand. -/
def isAuthority (cs : List Char) : Bool :=
  let host := (cs.reverse.takeWhile (· ≠ '@')).reverse
  if host.length = cs.length then isHost cs
  else
    let user := cs.take (cs.length - host.length - 1)
    isHost host && user.all isUserChar && (bytes? user).isSome

/-! ### Addresses -/

/-- The scheme in front of a colon and what stands behind it. None if a colon comes first. -/
def splitScheme? (cs : List Char) : Option (List Char × List Char) :=
  let word := cs.takeWhile fun c => c.isAlphanum || c = '+' || c = '-' || c = '.'
  match word, cs.drop word.length with
  | [], ':' :: _ => none
  | c :: _, ':' :: rest => if c.isAlpha then some (word, rest) else some ([], cs)
  | _, _ => some ([], cs)

/-- An address without its fragment. -/
def parseMain? (cs : List Char) : Option Url := do
  if cs.any fun c => c.toNat < 0x20 || c.toNat = 0x7f then none
  if cs = ['*'] then return { path := cs }
  let (scheme, rest) ← splitScheme? cs
  let rest := rest.takeWhile (· ≠ '?')
  if rest.head? ≠ some '/' then
    if !scheme.isEmpty then return { scheme := scheme.map Char.toLower }
    if (rest.takeWhile (· ≠ '/')).contains ':' then none
  let starts (front : String) : Bool := front.toList.isPrefixOf rest
  let hasHost := starts "//" && (!scheme.isEmpty || !starts "///")
  let host := if hasHost then (rest.drop 2).takeWhile (· ≠ '/') else []
  if !isAuthority host then none
  let path ← unescape? (if hasHost then rest.drop (2 + host.length) else rest)
  return { scheme := scheme.map Char.toLower, path }

/-- Reads an address; none if it is malformed. -/
def parse? (cs : List Char) : Option Url := do
  let url ← parseMain? (cs.takeWhile (· ≠ '#'))
  let _ ← bytes? ((cs.dropWhile (· ≠ '#')).drop 1)
  return url

end Url

end TaintReach
