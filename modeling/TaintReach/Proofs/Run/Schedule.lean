import TaintReach.Proofs.Run.Sequential

/-! Runs with several workers, step by step.

Every input has a task. Tasks are launched in the order of the inputs, at most so
many at once as the options allow. A task looks at the context, reads its input,
parses it and hands its functions one by one to a pool that all tasks share.
Before each function it looks at the context again and goes no further once the
run is being stopped. A function that the pool takes is analysed whenever it
comes to it; one that the pool refuses is analysed by the task itself. When all
functions handed over are done, the task looks at the context a last time and
records what came of its input.

The pool fills slots, one for each function, and a slot that was never handed
over stays empty. Nothing in the steps keeps a record from holding empty slots:
that it never does is a theorem. `Trace` follows a run from action to action, in
any order that the steps allow. -/
namespace TaintReach.Schedule

/-! ### What a run is about -/

/-- A function to analyse, with what its analysis needs. -/
structure Job where
  setting : Walk.Setting
  fn : NodeId

def Job.outcome (j : Job) : Walk.Outcome Scope := Walk.analyzeFunction j.setting (some j.fn)

/-- The functions of a program, in order. -/
def jobsOf (endpoints : Walk.Endpoints) (p : Program) : List Job :=
  p.functions.map fun f =>
    ⟨{ graph := p.graph, endpoints, declared := some (Walk.declaredBy p.graph (some f)).contains },
      f⟩

/-- What does not change while a run goes on. -/
structure Plan where
  options : Options
  inputs : List Input
  disk : Disk

namespace Plan

def endpoints (P : Plan) : Walk.Endpoints := .ofNames P.options.source P.options.sink

def workers (P : Plan) : Nat := P.options.concurrency.toNat

def text (P : Plan) (i : Input) : Except Input.Problem String := Run.give P.disk i.text

/-- The functions in an input that holds a text. -/
def jobs (P : Plan) (i : Input) (text : String) : Except Input.Problem (List Job) :=
  let files := Run.give P.disk (Run.mapFiles (i.pieces text))
  (Input.programs (fun path => files.lookup path) (i.pieces text)).1.map
    (·.flatMap (jobsOf P.endpoints))

end Plan

/-! ### Tasks -/

/-- Where the result of a function goes that was handed over. -/
inductive Slot where
  | running
  | filled (r : Except Fault Scope)

namespace Slot

def fault? : Slot → Option Fault
  | filled (.error f) => some f
  | _ => none

def scope? : Slot → Option Scope
  | filled (.ok s) => some s
  | _ => none

def isRunning : Slot → Bool
  | running => true
  | filled _ => false

theorem isRunning_eq_true {slot : Slot} : slot.isRunning = true ↔ slot = running := by
  cases slot <;> simp [isRunning]

end Slot

/-- Why an input is recorded as failed. -/
inductive Failure where
  /-- The run was being stopped. -/
  | cancelled
  | input (p : Input.Problem)

/-- What is recorded of an input; a scope may be missing. -/
abbrev Record := Except Failure (List (Option Scope))

/-- The functions of an input and the slots of those that were handed over. -/
structure Work where
  jobs : List Job
  slots : List Slot := []

namespace Work

def next? (w : Work) : Option Job := w.jobs[w.slots.length]?

def push (w : Work) (slot : Slot) : Work := { w with slots := w.slots ++ [slot] }

def fill (w : Work) (n : Nat) (r : Except Fault Scope) : Work :=
  { w with slots := w.slots.set n (.filled r) }

/-- What is recorded when no slot is running any more. -/
def record (w : Work) (i : Input) (stopping : Bool) : Record :=
  if stopping then .error .cancelled
  else
    let faults := w.slots.filterMap Slot.fault?
    if faults = [] then
      .ok (w.slots.map Slot.scope? ++ List.replicate (w.jobs.length - w.slots.length) none)
    else .error (.input (.unanalysable i.name faults))

end Work

/-- What may happen next: all but the first concern one task. -/
inductive Action where
  | cancel
  | launch
  | advance
  | accept
  | decline
  | complete
deriving DecidableEq

inductive Phase where
  /-- About to look at the context for the next function. -/
  | submitting
  /-- The next function is offered to the pool. -/
  | offering
  /-- The pool refused the next function. -/
  | inline
  | waiting
deriving DecidableEq

inductive Task where
  | idle
  /-- About to look at the context. -/
  | launched
  | reading
  | parsing (text : String)
  | working (phase : Phase) (w : Work)
  | done (r : Record)
  /-- The run was being stopped when the task was launched. -/
  | refused

namespace Task

def isOver : Task → Bool
  | done _ | refused => true
  | _ => false

/-- Whether the task takes one of the places for tasks. -/
def isActive : Task → Bool
  | idle | done _ | refused => false
  | _ => true

def isRefused : Task → Bool
  | refused => true
  | _ => false

def slots : Task → List Slot
  | working _ w => w.slots
  | _ => []

/-- What a task does under an action, given whether the run is being stopped. -/
inductive Step (P : Plan) (i : Input) (stopping : Bool) : Action → Task → Task → Prop
  | launch : Step P i stopping .launch idle launched
  | enter (h : stopping = false) : Step P i stopping .advance launched reading
  | refuse (h : stopping = true) : Step P i stopping .advance launched refused
  | unreadable {p : Input.Problem} (htext : P.text i = .error p) :
    Step P i stopping .advance reading (done (.error (.input p)))
  | read {text : String} (htext : P.text i = .ok text) :
    Step P i stopping .advance reading (parsing text)
  | malformed {text : String} {p : Input.Problem} (hjobs : P.jobs i text = .error p) :
    Step P i stopping .advance (parsing text) (done (.error (.input p)))
  | parse {text : String} {jobs : List Job} (hjobs : P.jobs i text = .ok jobs) :
    Step P i stopping .advance (parsing text) (working .submitting { jobs })
  | offer {w : Work} {j : Job} (hnext : w.next? = some j) (h : stopping = false) :
    Step P i stopping .advance (working .submitting w) (working .offering w)
  | halt {w : Work} {j : Job} (hnext : w.next? = some j) (h : stopping = true) :
    Step P i stopping .advance (working .submitting w) (working .waiting w)
  | last {w : Work} (hnext : w.next? = none) :
    Step P i stopping .advance (working .submitting w) (working .waiting w)
  | accept {w : Work} :
    Step P i stopping .accept (working .offering w) (working .submitting (w.push .running))
  | decline {w : Work} : Step P i stopping .decline (working .offering w) (working .inline w)
  | inline {w : Work} {j : Job} (hnext : w.next? = some j) :
    Step P i stopping .advance (working .inline w)
      (working .submitting (w.push (.filled j.outcome.result)))
  /-- A worker of the pool is done with a function, whatever its task is at. -/
  | complete {phase : Phase} {w : Work} {n : Nat} {j : Job} (hslot : w.slots[n]? = some .running)
    (hj : w.jobs[n]? = some j) :
    Step P i stopping .complete (working phase w) (working phase (w.fill n j.outcome.result))
  | finish {w : Work} (hdone : ∀ slot ∈ w.slots, slot.isRunning = false) :
    Step P i stopping .advance (working .waiting w) (done (w.record i stopping))

end Task

/-! ### Runs -/

structure State where
  cancelled : Bool := false
  /-- A task refused to start, which stops the others too. -/
  failed : Bool := false
  tasks : List Task

namespace State

/-- What a look at the context shows. -/
def stopping (s : State) : Bool := s.cancelled || s.failed

def active (s : State) : Nat := s.tasks.countP Task.isActive

/-- How many workers of the pool are busy. -/
def running (s : State) : Nat := (s.tasks.flatMap Task.slots).countP Slot.isRunning

def put (s : State) (k : Nat) (t : Task) : State :=
  { s with failed := s.failed || t.isRefused, tasks := s.tasks.set k t }

/-- Tasks are launched in order, and neither the tasks at work nor the functions in
the pool are ever more than the workers. -/
def Allows (P : Plan) (s : State) (k : Nat) : Action → Prop
  | .launch => (∀ j < k, s.tasks[j]? ≠ some .idle) ∧ s.active < P.workers
  | .accept => s.running < P.workers
  | _ => True

/-- All tasks are over, so the run returns. -/
def Finished (s : State) : Prop := ∀ t ∈ s.tasks, t.isOver = true

end State

/-- One action of a run: the context is cancelled, or a task does something. -/
inductive Step (P : Plan) : Action → State → State → Prop
  | cancel {s : State} (h : s.cancelled = false) : Step P .cancel s { s with cancelled := true }
  | task {s : State} {a : Action} {k : Nat} {i : Input} {t t' : Task}
    (hi : P.inputs[k]? = some i) (ht : s.tasks[k]? = some t)
    (hstep : Task.Step P i s.stopping a t t') (hallowed : s.Allows P k a) : Step P a s (s.put k t')

/-- The actions of a run so far, the latest first, and where they lead. -/
inductive Trace (P : Plan) : List Action → State → Prop
  | start : Trace P [] { tasks := P.inputs.map fun _ => .idle }
  | step {actions : List Action} {a : Action} {s s' : State} (h : Trace P actions s)
    (hstep : Step P a s s') : Trace P (a :: actions) s'

/-! ### What a run returns -/

inductive Outcome where
  /-- The empty document, with the error of the context. -/
  | stopped
  /-- A scope was missing where one was to be collected. -/
  | crashed
  | returned (document : Document) (failures : List Failure)

/-- Collects what was recorded, in order. -/
def collect (d : Document) (failures : List Failure) : List Record → Outcome
  | [] => .returned d failures
  | .error f :: rest => collect d (failures ++ [f]) rest
  | .ok scopes :: rest =>
    if scopes.all Option.isSome then collect (d.collect (scopes.filterMap fun s => s)) failures rest
    else .crashed

def Task.record? : Task → Option Record
  | .done r => some r
  | _ => none

/-- What a finished run returns. -/
def State.outcome (s : State) : Outcome :=
  if s.failed then .stopped else collect {} [] (s.tasks.filterMap Task.record?)

end TaintReach.Schedule
