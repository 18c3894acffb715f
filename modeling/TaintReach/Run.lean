import TaintReach.Log
import TaintReach.Options
import TaintReach.Run.Input

/-! A run over inputs.

Each input is analysed by itself: `Input.analyze` reads its scripts and analyses their
functions in order, and an input with a fault anywhere gives no scopes at all.
`Run.run` then combines the scopes in the order of the inputs, so the report does not
hang on which input was ready first. `Run.emit` writes the report. -/
namespace TaintReach

/-! ### One input -/

/-- What came of one input, and what is to be logged of it. -/
structure Analysis where
  result : Except Input.Problem (List Scope)
  records : List Log.Record := []

namespace Input

/-- Reads scripts in order, up to the first that is none. -/
def programs (load : String → Option String) :
    List Piece → Except Problem (List Program) × List Log.Record
  | [] => (.ok [], [])
  | p :: ps =>
    match Script.readWith load p.name p.code with
    | .error _ => (.error (.malformed p.name), [])
    | .ok program =>
      let (rest, records) := programs load ps
      (rest.map (program :: ·),
        Log.debug ("[*] " ++ p.name ++ ": " ++ toString program.functions.length ++
          " functions") :: records)

/-- Analyses each function of a program against its own declarations. -/
def outcomes (endpoints : Walk.Endpoints) (p : Program) : List (Walk.Outcome Scope) :=
  p.functions.map fun f =>
    Walk.analyzeFunction
      { graph := p.graph, endpoints, declared := some (Walk.declaredBy p.graph (some f)).contains }
      (some f)

/-- The scopes of outcomes, or else all their faults. -/
def scopesOf (outcomes : List (Walk.Outcome Scope)) : Except (List Fault) (List Scope) :=
  let faults := outcomes.filterMap Walk.Outcome.fault?
  if faults.isEmpty then .ok (outcomes.filterMap fun o => o.result.toOption) else .error faults

/-- The scopes of all functions in an input that holds a text, in order; `load` gives
the files that source maps are in. -/
def analyze (load : String → Option String) (endpoints : Walk.Endpoints) (i : Input)
    (text : String) : Analysis :=
  let pieces := i.pieces text
  let found := if i.isPage text then
      [Log.detail ("Found " ++ toString pieces.length ++ " inline script blocks in " ++ i.name)]
    else []
  let (programs, read) := programs load pieces
  match programs with
  | .error p => ⟨.error p, found ++ read⟩
  | .ok programs =>
    let outcomes := programs.flatMap (outcomes endpoints)
    ⟨(scopesOf outcomes).mapError (.unanalysable i.name ·),
      found ++ read ++ outcomes.flatMap fun o => Log.ofEvents "" o.events⟩

end Input

/-! ### All inputs -/

namespace Run

/-- Why a run has no clean ending. -/
inductive Problem where
  /-- It was stopped before it was done. -/
  | cancelled
  /-- Some of its inputs could not be reported. -/
  | failed (problems : List Input.Problem) (inputs : Nat)
deriving DecidableEq, Repr

def Problem.message : Problem → String
  | .cancelled => "context canceled"
  | .failed problems inputs =>
    toString problems.length ++ " of " ++ toString inputs ++ " inputs failed: " ++
      "\n".intercalate (problems.map Input.Problem.message)

/-- What a run leaves: a document unless it was stopped, what went wrong, and what is
to be logged. -/
structure Outcome where
  document : Option Document
  problem : Option Problem := none
  records : List Log.Record := []

/-- What is gathered while inputs are combined. -/
structure Tally where
  document : Document := {}
  problems : List Input.Problem := []
  records : List Log.Record := []

section
variable {m : Type → Type} [Monad m] [Files m]

/-- Reads the files that the source maps of scripts are in. -/
def mapFiles : List Input.Piece → m (List (String × String))
  | [] => return []
  | p :: ps => do
    let rest ← mapFiles ps
    match Script.SourceMap.location p.name p.code with
    | .file path =>
      match ← Files.read path with
      | .ok text => return (path, text) :: rest
      | .error _ => return rest
    | _ => return rest

/-- Reads an input and analyses it. -/
def analyzeInput (endpoints : Walk.Endpoints) (i : Input) : m Analysis := do
  match ← i.text with
  | .error p => return ⟨.error p, []⟩
  | .ok text =>
    let files ← mapFiles (i.pieces text)
    return i.analyze (fun path => files.lookup path) endpoints text

/-- The report of an input alone. -/
def ownReport (scopes : List Scope) : String :=
  (({} : Document).collect scopes).json

/-- Writes the report of an input beside it. -/
def writeSibling (i : Input) (scopes : List Scope) (t : Tally) : m Tally := do
  let path := Path.sibling i.path
  match ← Files.write path (ownReport scopes) with
  | .ok _ =>
    return { t with
      records := t.records ++
        [Log.debug ("report for " ++ i.name ++ " written to " ++ path)] }
  | .error p =>
    let problem := Input.Problem.unwritable p
    return { t with
      problems := t.problems ++ [problem]
      records := t.records ++
        [Log.error problem.message ("[!] failed to write report for " ++ i.name)] }

/-- Adds what came of one input. -/
def combineOne (write : Bool) (t : Tally) (i : Input) (a : Analysis) : m Tally := do
  match a.result with
  | .error p =>
    return { t with
      problems := t.problems ++ [p]
      records := t.records ++ [Log.error p.message ("[!] skipping " ++ i.name)] }
  | .ok scopes =>
    let t := { t with document := t.document.collect scopes }
    if write && i.path ≠ "" then writeSibling i scopes t else return t

/-- Adds what came of inputs, in their order. -/
def combine (write : Bool) (t : Tally) : List (Input × Analysis) → m Tally
  | [] => return t
  | (i, a) :: rest => do combine write (← combineOne write t i a) rest

def version : String := "v1.0.0"

/-- What is logged before anything is done. -/
def opening (o : Options) : List Log.Record :=
  [Log.debug ("jstaint " ++ version ++ " | @lcalzada-xor"),
    Log.debug ("source " ++ Text.quote o.source ++ ", sink " ++ Text.quote o.sink ++ ", " ++
      toString o.concurrency ++ " workers")]

/-- What is logged when all is done. -/
def closing (inputs : Nat) (t : Tally) : Log.Record :=
  Log.info ("[*] Analysis complete: " ++ toString inputs ++ " inputs, " ++
    toString t.document.results.size ++ " scopes, " ++ toString t.problems.length ++ " failed")

/-- Runs over inputs. A run that is cancelled beforehand starts none of them. -/
def run (o : Options) (cancelled : Bool) (inputs : List Input) : m Outcome := do
  if cancelled && !inputs.isEmpty then
    return { document := none, problem := some .cancelled, records := opening o }
  let analyses ← inputs.mapM fun i =>
    return (i, ← analyzeInput (.ofNames o.source o.sink) i)
  let t ← combine o.write {} analyses
  return {
    document := t.document
    problem := if t.problems.isEmpty then none else some (.failed t.problems inputs.length)
    records := opening o ++ analyses.flatMap (fun (_, a) => a.records) ++ t.records ++
      [closing inputs.length t] }

/-! ### The report -/

/-- What came of writing a report: the text for the standard output, or a problem. -/
structure Emission where
  text : String := ""
  problem : Option String := none
  records : List Log.Record := []

/-- Writes a document to the output that the options name. -/
def emit (o : Options) (d : Document) : m Emission := do
  match d.render o.format (o.color && o.output = "") with
  | .error p => return { problem := p.message }
  | .ok text =>
    if o.output = "" then return { text }
    match ← Files.write o.output text with
    | .error p => return { problem := (Input.Problem.unwritable p).message }
    | .ok _ => return { records := [Log.debug ("report written to " ++ o.output)] }

end

end Run

end TaintReach
