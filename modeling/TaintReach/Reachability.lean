/-! Reachability classes and taint verdicts.

A program point runs always, maybe or never. The classes are ranked in that
order, so that two conditions that must both hold meet in the higher rank, and
two of which one suffices in the lower. A verdict records what reaching a sink
at such a point proves: must, may, or nothing. Both are ranks on the integers;
a rank outside the named ones is carried along, compared like any other and
read as the first class. -/
namespace TaintReach

/-- How surely a program point runs. -/
structure Reachable where
  rank : Int
deriving DecidableEq, Repr

namespace Reachable

def always : Reachable := ⟨0⟩
def maybe : Reachable := ⟨1⟩
def never : Reachable := ⟨2⟩

instance : Inhabited Reachable := ⟨always⟩

/-- The class of a point behind two conditions: `never` absorbs, `maybe` beats `always`. -/
def meet (a b : Reachable) : Reachable := if b.rank < a.rank then a else b

/-- The class of a point reached when one of two conditions holds. -/
def either (a b : Reachable) : Reachable := if a.rank < b.rank then a else b

/-- The class of the opposite branch. -/
def negate (r : Reachable) : Reachable :=
  if r = always then never else if r = never then always else maybe

def name (r : Reachable) : String :=
  if r = maybe then "maybe" else if r = never then "never" else "always"

end Reachable

/-- What is known about a source at the sinks it meets. -/
structure Taint where
  rank : Int
deriving DecidableEq, Repr

namespace Taint

def clean : Taint := ⟨0⟩
def may : Taint := ⟨1⟩
def must : Taint := ⟨2⟩

instance : Inhabited Taint := ⟨clean⟩

/-- The higher of two verdicts, the first on a tie. -/
def max (a b : Taint) : Taint := if a.rank < b.rank then b else a

def name (t : Taint) : String :=
  if t = may then "may" else if t = must then "must" else "none"

end Taint

/-- The verdict that a sink at a point of class `r` gives. -/
def Reachable.taint (r : Reachable) : Taint :=
  if r = .always then .must else if r = .maybe then .may else .clean

end TaintReach
