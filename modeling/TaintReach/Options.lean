import TaintReach.Options.Layers
import TaintReach.Path
import TaintReach.Report.Format
import TaintReach.Text.Blank
import TaintReach.Walk

/-! The options of a run.

`Options.flags` are the settings there are. Each can be given by a flag, by the
environment or in a settings file; `Options.ofLayers` looks in this order, and the
default comes last. `Options.validate` fills what is left empty and refuses options
that make no sense. -/
namespace TaintReach

structure Options where
  source : String := ""
  sink : String := ""
  /-- How many inputs and functions are worked on at once. -/
  concurrency : Int := 0
  format : String := ""
  /-- Where the report goes; empty for the standard output. -/
  output : String := ""
  /-- Also write the report of each input beside it. -/
  write : Bool := false
  color : Bool := false
  verbose : Int := 0
  silent : Bool := false
deriving DecidableEq, Repr

namespace Options

/-- The endpoints of a run that names none. -/
def usual : Walk.Endpoints := {}

def defaultConcurrency : Int := 8

/-- The options of a run that is given none. -/
def default : Options :=
  { source := usual.source
    sink := usual.sink
    concurrency := defaultConcurrency
    format := OutputFormat.json.name }

def flags : List Flag :=
  [{ default := .text usual.source
     key := "source"
     usage := "identifier whose argument-less call is a taint source" },
   { default := .text usual.sink
     key := "sink"
     usage := "identifier whose single argument is checked for taint" },
   { default := .text OutputFormat.json.name
     key := "format"
     letter := some 'f'
     usage := "output format: " ++ OutputFormat.listed },
   { default := .text ""
     key := "output"
     letter := some 'o'
     usage := "write the combined report to this file instead of stdout" },
   { default := .bool false
     key := "write"
     letter := some 'w'
     usage := "also write <input>" ++ Path.reportSuffix ++ " next to every input file" },
   { default := .int defaultConcurrency
     key := "concurrency"
     letter := some 'c'
     usage := "number of inputs and functions analysed in parallel" },
   { default := .int 0
     key := "verbose"
     letter := some 'v'
     counts := true
     usage := "verbose output (-v debug, -vv trace)" },
   { default := .bool false
     key := "silent"
     letter := some 's'
     usage := "only print the report" }]

def settings : Settings := Settings.ofFlags flags flags

def ofLayers (line : CommandLine) (s : Surroundings) : Options :=
  let setting (key : String) : Value := settings.value line s key
  { source := (setting "source").asText
    sink := (setting "sink").asText
    concurrency := (setting "concurrency").asInt
    format := (setting "format").asText
    output := (setting "output").asText
    write := (setting "write").asBool
    verbose := (setting "verbose").asInt
    silent := (setting "silent").asBool }

/-! ### Validation -/

/-- Why options are refused. -/
inductive Problem where
  | unknownFormat (name : String)
  | sameEndpoints (name : String)
deriving DecidableEq, Repr

def Problem.message : Problem → String
  | .unknownFormat name =>
    "invalid output format " ++ Text.quote name ++ " (want one of " ++ OutputFormat.listed ++ ")"
  | .sameEndpoints name => "source and sink must differ, both are " ++ Text.quote name

/-- The name of a format, case and blanks around it aside; the first format if empty. -/
def settledFormat (name : String) : String :=
  let name := Text.lower (String.ofList (Text.trim name.toList))
  if name = "" then OutputFormat.json.name else name

/-- Fills empty options in and checks the rest. The options come back as far as they
were filled in when a check failed. -/
def validate (o : Options) : Options × Option Problem :=
  let o := { o with format := settledFormat o.format }
  if (OutputFormat.ofName? o.format).isNone then (o, some (.unknownFormat o.format))
  else
    let o :=
      { o with
        source := if o.source = "" then usual.source else o.source
        sink := if o.sink = "" then usual.sink else o.sink }
    if o.source = o.sink then (o, some (.sameEndpoints o.source))
    else
      ({ o with concurrency := if o.concurrency < 1 then defaultConcurrency else o.concurrency },
        none)

/-- How much is logged: nothing extra in a silent run. -/
def verboseLevel (o : Options) : Int := if o.silent then 0 else o.verbose

end Options

end TaintReach
