import TaintReach.Walk.Event

/-! Log records and the loggers that let them through.

A logger has a verbosity: from 2 on everything is written, at 1 all but traces, and
otherwise only information and errors. It may carry fields that stand on each of
its records, or be silenced altogether. -/
namespace TaintReach

inductive Severity where
  | trace
  | debug
  | info
  | error
deriving DecidableEq, Repr

namespace Severity

def name : Severity → String
  | .trace => "trace"
  | .debug => "debug"
  | .info => "info"
  | .error => "error"

/-- The mark on a console line. -/
def mark : Severity → String
  | .trace => "TRC"
  | .debug => "DBG"
  | .info => "INF"
  | .error => "ERR"

/-- The least verbosity at which the severity is written. -/
def threshold : Severity → Option Int
  | .trace => some 2
  | .debug => some 1
  | .info | .error => none

end Severity

namespace Log

structure Record where
  severity : Severity
  /-- Later fields replace earlier ones of the same name. -/
  fields : List (String × String) := []
  message : String := ""
deriving DecidableEq, Repr

/-- All fields by name; an empty message is left out. -/
def Record.entries (r : Record) : List (String × String) :=
  ("level", r.severity.name) :: r.fields ++
    (if r.message = "" then [] else [("message", r.message)])

structure Logger where
  verbosity : Int := 0
  silenced : Bool := false
  fields : List (String × String) := []
deriving Repr

namespace Logger

/-- A logger that writes nothing. -/
def nop : Logger := { silenced := true }

def isVerbose (l : Logger) : Bool := 1 ≤ l.verbosity

def isVeryVerbose (l : Logger) : Bool := 2 ≤ l.verbosity

def admits (l : Logger) (s : Severity) : Bool :=
  !l.silenced && s.threshold.all (· ≤ l.verbosity)

/-- Records that the logger lets through, with its fields in front of theirs. -/
def write (l : Logger) (records : List Record) : List Record :=
  (records.filter (l.admits ·.severity)).map fun r => { r with fields := l.fields ++ r.fields }

/-- The same logger with one more field. -/
def carry (l : Logger) (key value : String) : Logger :=
  { l with fields := l.fields ++ [(key, value)] }

end Logger

/-! ### Kinds of records -/

def debug (message : String) : Record := { severity := .debug, message }

def trace (message : String) : Record := { severity := .trace, message }

def info (message : String) : Record := { severity := .info, message }

/-- An error; without a cause there is no field for it. -/
def error (cause : Option String) (message : String) : Record :=
  { severity := .error, fields := (cause.map ("error", ·)).toList, message }

/-- A heading. -/
def heading (title : String) : Record :=
  { severity := .trace, fields := [("section", title)], message := "=== " ++ title ++ " ===" }

/-- A line below a heading. -/
def detail (message : String) : Record := trace ("→ " ++ message)

/-! ### The walk's own records -/

/-- The record of one event. -/
def ofEvent (e : Walk.Event) : Record :=
  { severity := .trace
    fields := (e.section?.map ("section", ·)).toList
    message := e.message }

/-- The records of a walk over functions. Each carries the scope opened last. -/
def ofEvents (scope : String) : List Walk.Event → List Record
  | [] => []
  | e :: es =>
    let scope := match e with
      | .opened name => name
      | _ => scope
    let r := ofEvent e
    { r with fields := ("scope", scope) :: r.fields } :: ofEvents scope es

end Log

end TaintReach
