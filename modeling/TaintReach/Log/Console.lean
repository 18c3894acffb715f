import TaintReach.Log
import TaintReach.Text.Quote

/-! Log records as lines on a console.

A line has the mark of its severity, the message, and the fields behind it: an error
first, the others by name. A value is put in quotes if it could be misread. -/
namespace TaintReach.Log

/-- Whether a field's value cannot stand as it is. -/
def needsQuotes (value : String) : Bool :=
  value.toList.any fun c => c.toNat ≤ 0x20 || 0x7e < c.toNat || c = '\\' || c = '"'

def fieldText (f : String × String) : String :=
  f.1 ++ "=" ++ (if needsQuotes f.2 then Text.quote f.2 else f.2)

/-- Each field once, with the value it was given last. -/
def lastFields : List (String × String) → List (String × String)
  | [] => []
  | f :: fs => if fs.any (·.1 = f.1) then lastFields fs else f :: lastFields fs

/-- The fields of a record in the order they are shown. -/
def Record.shownFields (r : Record) : List (String × String) :=
  let fields := lastFields r.fields
  fields.filter (·.1 = "error") ++
    (fields.filter (·.1 ≠ "error")).mergeSort fun a b => decide (a.1 ≤ b.1)

def Record.line (r : Record) : String :=
  " ".intercalate (r.severity.mark :: ((if r.message = "" then [] else [r.message]) ++
    r.shownFields.map fieldText)) ++ "\n"

end TaintReach.Log
