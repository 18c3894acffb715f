import TaintReach.Html.Reference

/-! The inside of tags: the name and the attributes. -/
namespace TaintReach.Html.Tag

def isSpace (c : Char) : Bool := c = ' ' || c = '\n' || c = '\r' || c = '\t' || c = '\x0c'

def skip (cs : List Char) : List Char := cs.dropWhile isSpace

def lower (cs : List Char) : String := String.ofList (cs.map Char.toLower)

structure Attribute where
  name : String
  value : String
deriving DecidableEq, Repr

/-- An attribute's name: up to a blank, a slash, an equals sign or the end of the
tag. An equals sign that comes first belongs to the name. -/
def attributeName (cs : List Char) : List Char :=
  let isRest (c : Char) : Bool := !(isSpace c || c = '/' || c = '=' || c = '>')
  match cs with
  | '=' :: rest => '=' :: rest.takeWhile isRest
  | _ => cs.takeWhile isRest

/-- An attribute's value and what stands behind it; none if the text ends first. A
slash in place of the equals sign is passed over. -/
def attributeValue (cs : List Char) : Option (List Char × List Char) :=
  match skip cs with
  | [] => none
  | '/' :: rest => some ([], rest)
  | '=' :: rest =>
    match skip rest with
    | [] => none
    | '>' :: rest => some ([], '>' :: rest)
    | q :: rest =>
      if q = '"' || q = '\'' then
        let value := rest.takeWhile (· ≠ q)
        match rest.drop value.length with
        | [] => none
        | _ :: rest => some (value, rest)
      else
        let value := q :: rest.takeWhile fun c => !(isSpace c || c = '>')
        match (q :: rest).drop value.length with
        | [] => none
        | '>' :: rest => some (value, '>' :: rest)
        | _ :: rest => some (value, rest)
  | rest => some ([], rest)

/-- Line breaks in values are plain. -/
def plainBreaks : List Char → List Char
  | '\r' :: '\n' :: rest => '\n' :: plainBreaks rest
  | '\r' :: rest => '\n' :: plainBreaks rest
  | c :: rest => c :: plainBreaks rest
  | [] => []

/-- Attributes up to the end of the tag, and what stands behind it; none if the
text ends first. The number bounds the steps, one character each at least. -/
def attributes : Nat → List Char → Option (List Attribute × List Char)
  | 0, _ => none
  | steps + 1, cs =>
    match skip cs with
    | [] => none
    | '>' :: rest => some ([], rest)
    | cs =>
      let name := attributeName cs
      match attributeValue (cs.drop name.length) with
      | none => none
      | some (value, rest) =>
        (attributes steps rest).map fun (more, rest) =>
          if name.isEmpty then (more, rest)
          else
            let value := String.ofList (Reference.resolve (plainBreaks value))
            (⟨lower name, value⟩ :: more, rest)

structure Found where
  name : String
  attributes : List Attribute
  /-- How many characters the tag takes behind its first angle bracket or slash. -/
  length : Nat

/-- The tag whose name a text starts with; none if the text ends first. -/
def find? (cs : List Char) : Option Found :=
  let name := cs.takeWhile fun c => !(isSpace c || c = '/' || c = '>')
  (attributes cs.length (cs.drop name.length)).map fun (list, rest) =>
    ⟨lower name, list, cs.length - rest.length⟩

end TaintReach.Html.Tag
