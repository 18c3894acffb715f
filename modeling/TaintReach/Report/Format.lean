import TaintReach.Report.Dot
import TaintReach.Report.Human
import TaintReach.Report.Yaml

/-! The formats a document can be rendered in. -/
namespace TaintReach

inductive OutputFormat where
  | json
  | compact
  | yaml
  | human
  | dot
deriving DecidableEq, Repr

namespace OutputFormat

def name : OutputFormat → String
  | .json => "json"
  | .compact => "compact"
  | .yaml => "yaml"
  | .human => "human"
  | .dot => "dot"

def all : List OutputFormat := [.json, .compact, .yaml, .human, .dot]

def names : List String := all.map name

def ofName? (s : String) : Option OutputFormat := all.find? (·.name = s)

/-- The formats as they are offered. -/
def listed : String := ", ".intercalate names

end OutputFormat

namespace Document

/-- Why a document cannot be rendered. -/
inductive Problem where
  | unknownFormat (name : String)
  | unwritable (problem : Report.Yaml.Problem)
deriving DecidableEq, Repr

def Problem.message : Problem → String
  | .unknownFormat name =>
    "unknown output format " ++ Text.quote name ++ " (want one of " ++ OutputFormat.listed ++ ")"
  | .unwritable problem => "failed to marshal result: " ++ problem.message

/-- The document as JSON over several lines. -/
def json (d : Document) : String := String.ofList (d.results.json.indented 0 ++ ['\n'])

/-- The document as JSON on one line. -/
def compact (d : Document) : String := String.ofList (d.results.json.compact ++ ['\n'])

/-- The document in a format; colour only shows in the one for people. -/
def renderAs (format : OutputFormat) (color : Bool) (d : Document) : Except Problem String :=
  match format with
  | .json => .ok d.json
  | .compact => .ok d.compact
  | .yaml => (Report.Yaml.render d.results).mapError .unwritable
  | .human => .ok (Report.Human.render color d.results)
  | .dot => .ok (Report.Dot.render d)

/-- The document in the format of a name; no name stands for the first format. -/
def render (format : String) (color : Bool) (d : Document) : Except Problem String :=
  if format = "" then d.renderAs .json color
  else
    match OutputFormat.ofName? format with
    | some f => d.renderAs f color
    | none => .error (.unknownFormat format)

end Document

end TaintReach
