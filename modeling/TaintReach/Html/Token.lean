import TaintReach.Html.RawText

/-! The tokens of a page.

A page is cut into consecutive slices. Each step finds what the text starts with
and how many characters that takes, so the slices put together give the text back,
up to a tag that the text ends in the middle of. -/
namespace TaintReach.Html

inductive Kind where
  | text
  /-- `closed` tells that the tag ends in a slash. -/
  | startTag (name : String) (attributes : List Tag.Attribute) (closed : Bool)
  | endTag
  /-- Comments, declarations and instructions. -/
  | comment
deriving DecidableEq, Repr

structure Token where
  kind : Kind
  raw : List Char
deriving DecidableEq, Repr

/-- Length up to and with the next closing angle bracket, or to the end. -/
def closeLength : List Char → Nat
  | [] => 0
  | c :: cs => if c = '>' then 1 else 1 + closeLength cs

/-- Length of a comment behind its opening. It ends at a bracket behind two dashes,
or two dashes and a mark, or at one that only dashes stand before. -/
def commentLength (dashes : Nat) (fresh : Bool) : List Char → Nat
  | [] => 0
  | '-' :: cs => 1 + commentLength (dashes + 1) fresh cs
  | '>' :: cs => if 2 ≤ dashes || fresh then 1 else 1 + commentLength 0 false cs
  | ['!'] => 1
  | '!' :: c :: cs =>
    if 2 ≤ dashes then
      if c = '>' then 2
      else if c = '-' then 2 + commentLength 1 false cs
      else 2 + commentLength 0 false cs
    else 1 + commentLength 0 false (c :: cs)
  | _ :: cs => 1 + commentLength 0 false cs

/-- Whether something other than text starts here. -/
def opensMarkup : List Char → Bool
  | '<' :: c :: _ => c.isAlpha || c = '/' || c = '!' || c = '?'
  | _ => false

/-- Length of the text before the next markup. -/
def textLength : List Char → Nat
  | [] => 0
  | c :: cs => if opensMarkup (c :: cs) then 0 else 1 + textLength cs

/-- What markup is, and its length; none if the text ends inside a tag. -/
def markup : List Char → Option (Kind × Nat)
  | '<' :: '/' :: rest =>
    match rest with
    | [] => some (.text, 2)
    | '>' :: _ => some (.comment, 3)
    | c :: _ =>
      if c.isAlpha then (Tag.find? rest).map fun t => (.endTag, t.length + 2)
      else some (.comment, closeLength rest + 2)
  | '<' :: '!' :: '-' :: '-' :: rest => some (.comment, commentLength 0 true rest + 4)
  | '<' :: '!' :: rest | '<' :: '?' :: rest => some (.comment, closeLength rest + 2)
  | '<' :: rest =>
    (Tag.find? rest).map fun t =>
      let closed := (rest.take (t.length - 1)).getLast? = some '/'
      (.startTag t.name t.attributes closed, t.length + 1)
  | _ => none

/-- What a text starts with, inside an element of raw content or not. -/
def first (element : Option String) (cs : List Char) : Option (Kind × Nat) :=
  let content := match element with
    | some name => RawText.contentLength name cs
    | none => 0
  if 0 < content then some (.text, content)
  else if 0 < textLength cs then some (.text, textLength cs)
  else markup cs

/-- The element of raw content that a token opens. -/
def Kind.opens : Kind → Option String
  | .startTag name _ _ => if name ∈ RawText.elements then some name else none
  | _ => none

/-- The tokens of a text. -/
def tokens (element : Option String) (cs : List Char) : List Token :=
  match first element cs with
  | none => []
  | some (kind, n) =>
    if _h : 0 < n ∧ cs ≠ [] then ⟨kind, cs.take n⟩ :: tokens kind.opens (cs.drop n) else []
termination_by cs.length
decreasing_by
  have : 0 < cs.length := List.length_pos_iff.mpr _h.2
  simp only [List.length_drop]
  omega

end TaintReach.Html
