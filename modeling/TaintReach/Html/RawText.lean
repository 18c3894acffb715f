import TaintReach.Html.Tag

/-! Elements whose content is plain text up to their end tag.

Scripts have a rule of their own: inside a comment that opens in a script, the tags
of an inner script come in pairs and the end tag of an inner one does not count. -/
namespace TaintReach.Html.RawText

/-- Elements with such content. -/
def elements : List String :=
  ["iframe", "noembed", "noframes", "noscript", "plaintext", "script", "style", "textarea", "title",
    "xmp"]

/-- Whether a text starts with a word, case aside, and a character that ends a tag's name. -/
def startsWithName (name : String) (cs : List Char) : Bool :=
  let n := name.toList.length
  (cs.take n).map Char.toLower = name.toList &&
    (cs.drop n).head?.any fun c => Tag.isSpace c || c = '/' || c = '>'

/-- Whether a text starts with the end tag of an element. -/
def startsWithEnd (name : String) : List Char → Bool
  | '<' :: '/' :: rest => startsWithName name rest
  | _ => false

/-- Length of the text up to the end tag of an element. -/
def lengthTo (name : String) : List Char → Nat
  | [] => 0
  | c :: cs => if startsWithEnd name (c :: cs) then 0 else 1 + lengthTo name cs

/-! ### Scripts -/

/-- Where in a script the text stands. -/
inductive Place where
  | code
  /-- Inside a comment, behind so many dashes. -/
  | comment (dashes : Nat)
  /-- Inside an inner script of a comment, behind so many dashes. -/
  | inner (dashes : Nat)
deriving DecidableEq, Repr

/-- The place a text reaches behind an angle bracket in a comment, and how many
characters before it gets there. -/
def Place.ofBracket : List Char → Nat × Place
  | [] => (0, .comment 0)
  | c :: cs =>
    if c.isAlpha then
      if startsWithName "script" (c :: cs) then (7, .inner 0) else (0, .comment 0)
    else if c = '/' then (0, .comment 0)
    else (0, .code)

/-- Length of a script up to its end tag, from a place on that is reached behind
some characters. -/
def scriptLength : Nat → Place → List Char → Nat
  | _, _, [] => 0
  | n + 1, place, _ :: cs => 1 + scriptLength n place cs
  | 0, .code, c :: cs =>
    if startsWithEnd "script" (c :: cs) then 0
    else if c = '<' && cs.take 3 = ['!', '-', '-'] then 1 + scriptLength 3 (.comment 2) cs
    else 1 + scriptLength 0 .code cs
  | 0, .comment dashes, c :: cs =>
    if startsWithEnd "script" (c :: cs) then 0
    else if c = '-' then 1 + scriptLength 0 (.comment (min 2 (dashes + 1))) cs
    else if c = '<' then 1 + scriptLength (Place.ofBracket cs).1 (Place.ofBracket cs).2 cs
    else if c = '>' && dashes = 2 then 1 + scriptLength 0 .code cs
    else 1 + scriptLength 0 (.comment 0) cs
  | 0, .inner dashes, c :: cs =>
    if startsWithEnd "script" (c :: cs) then 1 + scriptLength 8 (.comment 0) cs
    else if c = '-' then 1 + scriptLength 0 (.inner (min 2 (dashes + 1))) cs
    else if c = '>' && dashes = 2 then 1 + scriptLength 0 .code cs
    else 1 + scriptLength 0 (.inner 0) cs

/-- Length of the content of an element. -/
def contentLength (name : String) (cs : List Char) : Nat :=
  if name = "plaintext" then cs.length
  else if name = "script" then scriptLength 0 .code cs
  else lengthTo name cs

end TaintReach.Html.RawText
