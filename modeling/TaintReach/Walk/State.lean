import TaintReach.Fault
import TaintReach.Scope
import TaintReach.Walk.Condition
import TaintReach.Walk.Event

/-! The state of a walk over one function.

The walk carries the scope it fills, the variable being defined, the class of
the point it stands at, the constants known there and the last fault. Every
known variable is stamped with the class of the current point, so entering and
leaving a branch stamps the whole scope. -/
namespace TaintReach.Walk

/-- The callees that open and close a flow. -/
structure Endpoints where
  source : String := "retSource"
  sink : String := "sink"
deriving DecidableEq, Repr

/-- Endpoints from configured names; an empty name stands for the usual one. -/
def Endpoints.ofNames (source sink : String) : Endpoints :=
  { source := if source = "" then "retSource" else source
    sink := if sink = "" then "sink" else sink }

/-- What a walk never changes. -/
structure Setting where
  graph : Graph
  endpoints : Endpoints := {}
  /-- Which names the function declares; without it no variable counts as escaped. -/
  declared : Option (String → Bool) := none

structure State where
  scope : Scope := {}
  defining : Option String := none
  ambient : Reachable := .always
  consts : Consts := []
  fault : Option Fault := none
  /-- Latest first. -/
  events : List Event := []

namespace State

def tell (e : Event) (s : State) : State := { s with events := e :: s.events }

/-- Records that the node on `line` stands below itself. -/
def failCyclic (line : Int) (s : State) : State :=
  { s with fault := some (.malformed s.scope.name line "cyclic syntax tree") }

/-- Resolves a name, registering it at the current point if it is new. -/
def lookup (declared : Option (String → Bool)) (ident : String) (line : Int) (s : State) : State :=
  match s.scope.lookup? ident with
  | some _ => s
  | none =>
    let v : Variable :=
      { home := s.scope.home, name := ident, line, reachable := s.ambient
        escaped := declared.any fun declares => !declares ident }
    { s with scope := s.scope.add v }.tell (.registered v.id)

/-- Resolves the name that receives a value. A rebinding ends what was known of
it as a constant, in an inner block too. -/
def bind (declared : Option (String → Bool)) (ident : String) (line : Int) (s : State) : State :=
  { s with consts := s.consts.forget ident }.lookup declared ident line

def depend (name on : String) (s : State) : State :=
  { s with scope := s.scope.depend name on }

/-- Adds a dependency to the variable being defined, if there is one. -/
def dependDefining (on : String) (s : State) : State :=
  match s.defining with
  | none => s
  | some name => s.depend name on

/-- Sets the class of the current point and stamps every known variable with it. -/
def enter (r : Reachable) (s : State) : State :=
  { s with ambient := r, scope := s.scope.stamp r }

/-- Runs `step` with `name` as the variable being defined. -/
def route (name : Option String) (step : State → State) (s : State) : State :=
  { step { s with defining := name } with defining := s.defining }

/-- Marks the variable being defined as a source. -/
def markSource (line : Int) (s : State) : State :=
  match s.defining.bind s.scope.lookup? with
  | none => s
  | some v =>
    { s with scope := s.scope.update v.name fun v => { v with source := true } }.tell
      (.sourceMet v.id line)

/-- Raises a source to what class `r` gives, and tells of it if that is a rise. -/
def promote (r : Reachable) (v : Variable) (e : Variable → Event) (s : State) : State :=
  match (if v.source then v.promote? r else none) with
  | none => s
  | some v' => { s with scope := s.scope.update v.name fun _ => v' }.tell (e v')

/-- A sink met `name`: the variable itself and the sources behind it that were
seen at the same class are promoted to what that class gives. -/
def sink (name : String) (line : Int) (s : State) : State :=
  match s.scope.lookup? name with
  | none => s
  | some v =>
    let r := v.reachable
    v.dependents.foldl (fun s d =>
        match s.scope.lookup? d.name with
        | some dv =>
          if dv.reachable = r then
            s.promote r dv fun dv => .sinkMetThrough line dv.id dv.taint v.id
          else s
        | none => s)
      (s.promote r v fun v => .sinkMet line v.id v.taint)

end State

end TaintReach.Walk
