/-! Texts in pieces. -/
namespace TaintReach.Text

/-- The pieces of a text between the places where a character stands; always one
more than there are such places. -/
def split (mark : Char) : List Char → List (List Char)
  | [] => [[]]
  | c :: cs =>
    if c = mark then [] :: split mark cs
    else
      match split mark cs with
      | [] => [[c]]
      | piece :: pieces => (c :: piece) :: pieces

end TaintReach.Text
