import TaintReach.Html.Token
import TaintReach.Text.Blank
import TaintReach.Text.Lowercase
import TaintReach.Text.Search

/-! Inline scripts of a page.

A script block counts if it has no source of its own and its type, if it names one,
is that of a script. Each is given with the line its text starts on, so that its
source, padded with empty lines, has the line numbers of the page. -/
namespace TaintReach.Html

structure Script where
  /-- The place among the scripts of the page, from 1. -/
  index : Int
  /-- The line of the page the text starts on. -/
  line : Int
  code : String
deriving DecidableEq, Repr

namespace Script

def name (s : Script) (document : String) : String :=
  document ++ "#script" ++ toString s.index

/-- The code below as many line breaks as stand before it on the page. -/
def source (s : Script) : String :=
  String.ofList (List.replicate (s.line - 1).toNat '\n') ++ s.code

end Script

/-- Types that stand for a script; an empty one does too. -/
def scriptTypes : List String :=
  ["", "module", "text/javascript", "application/javascript", "text/ecmascript",
    "application/ecmascript"]

/-- Case and blanks around it aside. -/
def isScriptType (value : String) : Bool :=
  Text.lower (String.ofList (Text.trim value.toList)) ∈ scriptTypes

/-- Whether the attributes of a script block leave it inline. -/
def isInline (attributes : List Tag.Attribute) : Bool :=
  attributes.all fun a => a.name ≠ "src" && (a.name ≠ "type" || isScriptType a.value)

/-- Whether the text behind a token belongs to an inline script. -/
def inScriptAfter (inScript : Bool) : Kind → Bool
  | .startTag name attributes false => if name = "script" then isInline attributes else inScript
  | .endTag => false
  | _ => inScript

def lineBreaks (cs : List Char) : Nat := cs.count '\n'

/-- Collects scripts from tokens, the first of which starts on `line`. -/
def scriptsFrom (inScript : Bool) (index line : Nat) : List Token → List Script
  | [] => []
  | t :: ts =>
    let rest (index : Nat) : List Script :=
      scriptsFrom (inScriptAfter inScript t.kind) index (line + lineBreaks t.raw) ts
    if t.kind = .text && inScript && !t.raw.all Text.isBlank then
      ⟨index, line, String.ofList t.raw⟩ :: rest (index + 1)
    else rest index

/-- The inline scripts of a page in order. -/
def scripts (text : String) : List Script := scriptsFrom false 1 1 (tokens none text.toList)

/-- The inline scripts of a page whose text may have broken off with a problem. What
was read before it counts as a page. -/
def extract (text : String) (broken : Option String) : List Script × Option String :=
  (scripts text, broken.map ("tokenize html: " ++ ·))

/-- Whether a text is a page rather than a script: it names one of the elements
that a page has. -/
def looksLikePage (text : String) : Bool :=
  let cs := (Text.lower text).toList
  ["<html", "<body", "<script"].any fun w => Text.contains w.toList cs

end TaintReach.Html
