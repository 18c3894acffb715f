/-! Sets of numbers given as ranges. -/
namespace TaintReach.Text

/-- Whether `n` lies in one of the ranges, both ends included. -/
def inRanges (ranges : Array (Nat × Nat)) (n : Nat) : Bool :=
  ranges.any fun (first, last) => first ≤ n && n ≤ last

end TaintReach.Text
