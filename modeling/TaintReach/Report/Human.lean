import TaintReach.Report

/-! Reports for people, in colour if wanted. -/
namespace TaintReach.Report.Human

/-- Terminal codes around the parts of a report. -/
structure Palette where
  scope : String := ""
  total : String := ""
  label : String := ""
  must : String := ""
  may : String := ""
  reset : String := ""

/-- Shades of purple, with red and orange for findings. -/
def palette (color : Bool) : Palette :=
  if color then
    { scope := "\x1b[38;5;129m", total := "\x1b[38;5;141m", label := "\x1b[38;5;93m"
      must := "\x1b[38;5;196m", may := "\x1b[38;5;214m", reset := "\x1b[0m" }
  else {}

def isTainted (r : Report) : Bool := !r.may.isEmpty

/-- One line of a finding. -/
def finding (p : Palette) (title shade : String) (ids : List String) : String :=
  if ids.isEmpty then ""
  else
    "    " ++ p.label ++ title ++ p.reset ++ " " ++ shade ++ ", ".intercalate ids ++ p.reset ++
      "\n"

/-- The lines of a scope. What must reach a sink is not listed again under may. -/
def entry (p : Palette) (scope : String) (r : Report) : String :=
  if isTainted r then
    "\n" ++ p.scope ++ "[+] " ++ scope ++ p.reset ++ "\n" ++
      finding p "Must reach:" p.must r.must ++
      finding p "May reach:" (" " ++ p.may) (r.may.filter fun id => !r.must.contains id)
  else p.label ++ "[-] " ++ scope ++ p.reset ++ ": no source reaches a sink\n"

def render (color : Bool) (r : Results) : String :=
  let p := palette color
  let tainted := (r.entries.filter fun e => isTainted e.2).length
  String.join (r.entries.map fun (scope, report) => entry p scope report) ++
    "\n" ++ p.total ++ "[*] " ++ toString r.size ++ " scopes analysed, " ++ toString tainted ++
    " with tainted sinks" ++ p.reset ++ "\n"

end TaintReach.Report.Human
