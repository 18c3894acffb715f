import TaintReach.Text.Bytes
import TaintReach.Text.Quote

/-! Why a text is not JSON. -/
namespace TaintReach.Json

/-- Where a character does not belong. -/
inductive Place where
  | value
  | key
  | afterKey
  | afterMember
  | afterElement
  | afterAll
  | string
  | escape
  | unit
  | number
  | fraction
  | exponent
  /-- Inside of a word, in place of one of its letters. -/
  | word (spelling : String) (letter : Char)
  /-- An opening bracket below too many others. -/
  | depth
deriving DecidableEq, Repr

def Place.text : Place → String
  | .value => "looking for beginning of value"
  | .key => "looking for beginning of object key string"
  | .afterKey => "after object key"
  | .afterMember => "after object key:value pair"
  | .afterElement => "after array element"
  | .afterAll => "after top-level value"
  | .string => "in string literal"
  | .escape => "in string escape code"
  | .unit => "in \\u hexadecimal character escape"
  | .number => "in numeric literal"
  | .fraction => "after decimal point in numeric literal"
  | .exponent => "in exponent of numeric literal"
  | .word spelling letter => "in literal " ++ spelling ++ " (expecting " ++ Text.quoteOne letter ++ ")"
  | .depth => "exceeded max depth"

/-- A blank does no harm there. -/
def Place.isOpen : Place → Bool
  | .value | .key | .afterKey | .afterMember | .afterElement | .afterAll | .string => true
  | .escape | .unit | .number | .fraction | .exponent | .word _ _ | .depth => false

inductive Problem where
  | ended
  | unexpected (found : Char) (place : Place)
deriving DecidableEq, Repr

/-- What is wrong with the text at a place. Its end counts as a blank where blanks matter. -/
def Problem.ofRest (place : Place) : List Char → Problem
  | [] => if place.isOpen then .ended else .unexpected ' ' place
  | c :: _ => .unexpected c place

/-- A character is shown by the first byte of its encoding. -/
def Problem.message : Problem → String
  | .ended => "unexpected end of JSON input"
  | .unexpected found place =>
    "invalid character " ++ Text.quoteOne (Text.firstByte found) ++ " " ++ place.text

end TaintReach.Json
