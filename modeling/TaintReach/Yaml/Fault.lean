import TaintReach.Yaml.Place

/-! Why a text is no YAML, or not the YAML that is wanted. -/
namespace TaintReach.Yaml

inductive Problem where
  | controlCharacter
  -- Tokens.
  | noToken
  | colonExpected
  | tooDeep
  | entryNotAllowed
  | keyNotAllowed
  | valueNotAllowed
  | unknownDirective
  | directiveNameExpected
  | directiveNameCharacter
  | versionPointExpected
  | versionTooLong
  | versionExpected
  | blankExpected
  | gapExpected
  | lineEndExpected
  | nameExpected
  | angleExpected
  | bangExpected
  | uriExpected
  | octetExpected
  | leadingOctet
  | trailingOctet
  | zeroIndent
  | tabInIndent
  | tabInContinuation
  | markerInQuotes
  | endInQuotes
  | unknownEscape
  | hexExpected
  | badCode
  -- Structure.
  | documentStartExpected
  | repeatedVersion
  | otherVersion
  | repeatedHandle
  | undefinedHandle
  | contentExpected
  | entryExpected
  | keyExpected
  | bracketExpected
  | braceExpected
  -- Meaning.
  | unknownAnchor (name : String)
  | circularAnchor (name : String)
  | tooManyAliases
  | mismatch (found text wanted : String)
  | badBase64
  | badMerge
  | collectionKey
  | unfit (complaints : List String)
deriving DecidableEq, Repr

def Problem.message : Problem → String
  | .controlCharacter => "control characters are not allowed"
  | .noToken => "found character that cannot start any token"
  | .colonExpected => "could not find expected ':'"
  | .tooDeep => "exceeded max depth of 10000"
  | .entryNotAllowed => "block sequence entries are not allowed in this context"
  | .keyNotAllowed => "mapping keys are not allowed in this context"
  | .valueNotAllowed => "mapping values are not allowed in this context"
  | .unknownDirective => "found unknown directive name"
  | .directiveNameExpected => "could not find expected directive name"
  | .directiveNameCharacter => "found unexpected non-alphabetical character"
  | .versionPointExpected => "did not find expected digit or '.' character"
  | .versionTooLong => "found extremely long version number"
  | .versionExpected => "did not find expected version number"
  | .blankExpected => "did not find expected whitespace"
  | .gapExpected => "did not find expected whitespace or line break"
  | .lineEndExpected => "did not find expected comment or line break"
  | .nameExpected => "did not find expected alphabetic or numeric character"
  | .angleExpected => "did not find the expected '>'"
  | .bangExpected => "did not find expected '!'"
  | .uriExpected => "did not find expected tag URI"
  | .octetExpected => "did not find URI escaped octet"
  | .leadingOctet => "found an incorrect leading UTF-8 octet"
  | .trailingOctet => "found an incorrect trailing UTF-8 octet"
  | .zeroIndent => "found an indentation indicator equal to 0"
  | .tabInIndent => "found a tab character where an indentation space is expected"
  | .tabInContinuation => "found a tab character that violates indentation"
  | .markerInQuotes => "found unexpected document indicator"
  | .endInQuotes => "found unexpected end of stream"
  | .unknownEscape => "found unknown escape character"
  | .hexExpected => "did not find expected hexdecimal number"
  | .badCode => "found invalid Unicode character escape code"
  | .documentStartExpected => "did not find expected <document start>"
  | .repeatedVersion => "found duplicate %YAML directive"
  | .otherVersion => "found incompatible YAML document"
  | .repeatedHandle => "found duplicate %TAG directive"
  | .undefinedHandle => "found undefined tag handle"
  | .contentExpected => "did not find expected node content"
  | .entryExpected => "did not find expected '-' indicator"
  | .keyExpected => "did not find expected key"
  | .bracketExpected => "did not find expected ',' or ']'"
  | .braceExpected => "did not find expected ',' or '\x7d'"
  | .unknownAnchor name => "unknown anchor '" ++ name ++ "' referenced"
  | .circularAnchor name => "anchor '" ++ name ++ "' value contains itself"
  | .tooManyAliases => "document contains excessive aliasing"
  | .mismatch found text wanted =>
    "cannot decode " ++ found ++ " \x60" ++ text ++ "\x60 as a " ++ wanted
  | .badBase64 => "!!binary value contains invalid base64 data"
  | .badMerge => "map merge requires map or sequence of maps as the value"
  | .collectionKey => "invalid map key"
  | .unfit complaints => "unmarshal errors:\n  " ++ "\n  ".intercalate complaints

/-- A problem and the line it is reported for; zero if for none. -/
structure Fault where
  problem : Problem
  line : Nat := 0
deriving DecidableEq, Repr

namespace Fault

/-- A problem with a token that starts at `start`, noticed at `here`. Lines count from
one, but the first line is not told. -/
def inToken (start here : Mark) (problem : Problem) : Fault :=
  { problem
    line := if start.line ≠ 0 then start.line + 1 else if here.line ≠ 0 then here.line + 1 else 0 }

/-- A problem with the order of tokens in what starts at `start`, noticed at the token
at `here`. The line told is the one before. -/
def inOrder (start here : Mark) (problem : Problem) : Fault :=
  { problem, line := if start.line ≠ 0 then start.line else here.line }

def message (f : Fault) : String :=
  "yaml: " ++ (if f.line = 0 then "" else "line " ++ toString f.line ++ ": ") ++ f.problem.message

end Fault

end TaintReach.Yaml
