import TaintReach.Report.Json
import TaintReach.Yaml.Document
import TaintReach.Yaml.Printer

/-! Reports as YAML: a mapping from scope to its two lists.

The report of a scope is written by itself first and read back, and what was read is
written under the scope. So a list item that does not read back makes writing fail. -/
namespace TaintReach.Report.Yaml
open TaintReach.Yaml

/-- The style asked for a list item: one that would not read back as text, in this
version of the format or an older one, is quoted. -/
def itemStyle (s : String) : Style :=
  if s.toList.contains '\n' then .literal
  else if Scalar.isText s && !Scalar.isSexagesimal s && !Scalar.isOldBool s then .plain
  else .double

def items (ids : List String) : Yaml.Node :=
  .sequence { tag := Tag.sequence } false (ids.map fun id => .ofText (itemStyle id) id)

/-- The two lists of a report under their names. -/
def fields (r : Report) : Yaml.Node :=
  .mapping { tag := Tag.mapping } false
    [(.ofText .plain mustKey, items r.must), (.ofText .plain mayKey, items r.may)]

/-- A report as it reads back from its text. -/
def readBack (r : Report) : Except Yaml.Fault Yaml.Node :=
  (Yaml.Document.read? (fields r).render).map fun d => (d.map (·.root)).getD (fields r)

/-- A scope whose report cannot be written. -/
structure Problem where
  scope : String
  fault : Yaml.Fault
deriving DecidableEq, Repr

def Problem.message (p : Problem) : String := "marshal scope " ++ p.scope ++ ": " ++ p.fault.message

/-- The reports of scopes under their names. -/
def pairs : List (String × Report) → Except Problem (List (Yaml.Node × Yaml.Node))
  | [] => .ok []
  | (scope, report) :: rest => do
    match readBack report with
    | .error fault => throw { scope, fault }
    | .ok n => return (.ofText .plain scope, n) :: (← pairs rest)

def render (r : Results) : Except Problem String :=
  (pairs r.entries).map fun ps => (Yaml.Node.mapping { tag := Tag.mapping } false ps).render

end TaintReach.Report.Yaml
