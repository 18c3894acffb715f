import TaintReach.Log.Console
import TaintReach.Options.Surroundings
import TaintReach.Run

/-! The command line program.

`Command.run` does all the program does, given what it may see: its arguments, the
environment, files and the standard input. -/
namespace TaintReach.Command

/-- What a command leaves: its exit code and what it prints. -/
structure Outcome where
  exit : Nat := 0
  stdout : String := ""
  stderr : String := ""
deriving DecidableEq, Repr

def name : String := "jstaint"

def description : String :=
  "jstaint reports, per function, the variables filled by an argument-less\n" ++
  "source call (retSource() by default) that reach a sink call (sink(x) by default)\n" ++
  "on every path (must) or on some path (may).\n\n" ++
  "Inputs are JavaScript files or HTML pages whose inline scripts are analysed.\n" ++
  "With no files, the program is read from stdin."

/-- The flags of the options, and those that only print something. -/
def flags : List Flag :=
  Options.flags ++
    [{ default := .bool false, key := "help", letter := some 'h', usage := "help for " ++ name },
     { default := .bool false, key := "version", usage := "version for " ++ name }]

def help : String :=
  description ++ "\n\nUsage:\n  " ++ name ++ " [files...] [flags]\n\nFlags:\n" ++ Flag.listing flags

/-- An outcome with an error told last. -/
def Outcome.failing (message : String) (o : Outcome) : Outcome :=
  { o with exit := 1, stderr := o.stderr ++ "Error: " ++ message ++ "\n" }

def isOn (line : CommandLine) (key : String) : Bool :=
  ((line.given.lookup key).map Value.asBool).getD false

/-- The variables a command looks at. -/
def variableNames : List String :=
  Options.Surroundings.fileVariable :: Options.flags.map fun f => Options.variableOf f.key

section
variable {m : Type → Type} [Monad m] [Files m]

/-- Runs over the inputs that paths name and prints the report. -/
def analyze (o : Options) (stdin : m (Except String String)) (paths : List String) :
    m Outcome := do
  match ← Input.ofPaths stdin paths with
  | .error p => return Outcome.failing p.message {}
  | .ok inputs =>
    let logger : Log.Logger := if o.silent then .nop else { verbosity := o.verboseLevel }
    let told (records : List Log.Record) : String :=
      String.join ((logger.write records).map Log.Record.line)
    let ran ← Run.run o false inputs
    let after (problem : Option String) (out : Outcome) : Outcome :=
      match problem with
      | some text => out.failing text
      | none => out
    let problem := ran.problem.map Run.Problem.message
    match ran.document with
    | none => return after problem { stderr := told ran.records }
    | some document =>
      let emission ← Run.emit o document
      return after (emission.problem <|> problem)
        { stdout := emission.text, stderr := told (ran.records ++ emission.records) }

/-- Does what a command line asks for. Colour is for a terminal. -/
def run (environment : List (String × String)) (stdin : m (Except String String))
    (terminal : Bool) (arguments : List String) : m Outcome := do
  match CommandLine.read flags arguments with
  | .error p => return Outcome.failing p.message {}
  | .ok line =>
    if isOn line "help" then return { stdout := help }
    else if isOn line "version" then
      return { stdout := name ++ " version " ++ Run.version ++ "\n" }
    else
      match ← Options.Surroundings.load environment with
      | .error p => return Outcome.failing p.message {}
      | .ok surroundings =>
        let o := Options.ofLayers line surroundings
        let (o, problem) := { o with color := o.output = "" && terminal : Options }.validate
        match problem with
        | some p => return Outcome.failing p.message {}
        | none => analyze o stdin line.arguments

end

end TaintReach.Command
