import TaintReach.Proofs.Run.Progress

/-! What a run with several workers returns.

A finished run in which no task refused to start has a record of every input
(`State.Valid.exists_records`), and collecting the records adds the scopes of an
input as a whole or not at all (`collect_records`). Unless the context was
cancelled, the inputs left out are those that fail by themselves, so the
document is the one of a run that takes the inputs one by one
(`schedule_independent`). -/
namespace TaintReach.Schedule

/-! ### Collecting -/

def Outcome.document? : Outcome → Option Document
  | .returned d _ => some d
  | .stopped | .crashed => none

/-- All scopes of an input in order, or none if the input fails. -/
def Plan.scopes (P : Plan) (i : Input) : List Scope := Run.scopesOn P.disk P.endpoints i

/-- The inputs that are not recorded as failed. -/
def kept (inputs : List Input) (records : List Record) : List Input :=
  ((inputs.zip records).filter fun (_, r) => r.isOk).map Prod.fst

def failures (records : List Record) : List Failure :=
  records.filterMap fun
    | .error f => some f
    | .ok _ => none

theorem Plan.scopes_eq (P : Plan) (i : Input) : P.scopes i = (P.result i).toOption.getD [] := rfl

theorem Plan.scopes_of_ok {P : Plan} {i : Input} {scopes : List Scope}
    (h : P.result i = .ok scopes) : P.scopes i = scopes := by
  rw [Plan.scopes_eq, h]
  rfl

theorem Plan.scopes_of_error {P : Plan} {i : Input} {p : Input.Problem}
    (h : P.result i = .error p) : P.scopes i = [] := by
  rw [Plan.scopes_eq, h]
  rfl

/-- No scope is missing, and no input is there in part. -/
theorem collect_records {P : Plan} {c : Prop} {inputs : List Input} {records : List Record}
    (h : List.Forall₂ (fun i r => Settles P i c r) inputs records) (d : Document)
    (fs : List Failure) :
    collect d fs records =
      .returned (d.collect ((kept inputs records).flatMap P.scopes)) (fs ++ failures records) := by
  induction h generalizing d fs with
  | nil => simp [collect, kept, failures, Document.collect]
  | @cons i r inputs records hr _ ih =>
    cases hr with
    | @complete scopes hresult =>
      have hkept : kept (i :: inputs) (.ok (scopes.map some) :: records) =
          i :: kept inputs records := rfl
      rw [collect, if_pos (by simp), ih, hkept, List.flatMap_cons, Plan.scopes_of_ok hresult,
        Run.collect_append]
      simp [failures]
    | failed _ =>
      rw [collect, ih]
      simp [kept, failures, Except.isOk, Except.toBool]
    | stopped _ =>
      rw [collect, ih]
      simp [kept, failures, Except.isOk, Except.toBool]

/-- What fails by itself adds nothing anyway. -/
theorem kept_scopes {P : Plan} {c : Prop} {inputs : List Input} {records : List Record} (hc : ¬ c)
    (h : List.Forall₂ (fun i r => Settles P i c r) inputs records) :
    (kept inputs records).flatMap P.scopes = inputs.flatMap P.scopes := by
  induction h with
  | nil => rfl
  | @cons i r inputs records hr _ ih =>
    cases hr with
    | complete _ => exact congrArg (P.scopes i ++ ·) ih
    | failed hresult => rw [List.flatMap_cons, Plan.scopes_of_error hresult]; exact ih
    | stopped hcancelled => exact absurd hcancelled hc

theorem filter_scopes (P : Plan) (inputs : List Input) :
    (inputs.filter fun i => (P.result i).isOk).flatMap P.scopes = inputs.flatMap P.scopes := by
  induction inputs with
  | nil => rfl
  | cons i inputs ih =>
    cases hresult : P.result i with
    | ok scopes =>
      rw [List.filter_cons_of_pos (by simp [hresult, Except.isOk, Except.toBool]),
        List.flatMap_cons, List.flatMap_cons, ih]
    | error p =>
      rw [List.filter_cons_of_neg (by simp [hresult, Except.isOk, Except.toBool]),
        List.flatMap_cons, Plan.scopes_of_error hresult, List.nil_append, ih]

/-! ### Finished runs -/

theorem filterMap_record?_done (records : List Record) :
    (records.map Task.done).filterMap Task.record? = records := by
  rw [List.filterMap_map]
  exact List.filterMap_some

theorem exists_done {tasks : List Task} (h : ∀ t ∈ tasks, ∃ r, t = .done r) :
    ∃ records : List Record, tasks = records.map .done := by
  induction tasks with
  | nil => exact ⟨[], rfl⟩
  | cons t tasks ih =>
    obtain ⟨r, rfl⟩ := h t List.mem_cons_self
    obtain ⟨records, rfl⟩ := ih fun t ht => h t (List.mem_cons_of_mem _ ht)
    exact ⟨r :: records, rfl⟩

/-- A finished run without a task that refused to start has recorded every input. -/
theorem State.Valid.exists_records {P : Plan} {s : State} (h : s.Valid P) (hfinished : s.Finished)
    (hfailed : s.failed = false) :
    ∃ records : List Record, s.tasks = records.map .done ∧
      List.Forall₂ (fun i r => Settles P i (s.cancelled = true) r) P.inputs records := by
  have hdone : ∀ t ∈ s.tasks, ∃ r, t = .done r := by
    intro t ht
    have hover := hfinished t ht
    have hrefused := h.refused t ht
    cases t with
    | done r => exact ⟨r, rfl⟩
    | refused => simp [hfailed, Task.isRefused] at hrefused
    | idle | launched | reading | parsing _ | working _ _ => simp [Task.isOver] at hover
  obtain ⟨records, htasks⟩ := exists_done hdone
  have hfits := h.fits
  rw [htasks, List.forall₂_map_right_iff] at hfits
  exact ⟨records, htasks, hfits⟩

theorem State.outcome_of_records {s : State} {records : List Record} (hfailed : s.failed = false)
    (htasks : s.tasks = records.map .done) : s.outcome = collect {} [] records := by
  rw [State.outcome, hfailed, htasks, filterMap_record?_done]
  rfl

/-- A run that nobody cancels keeps all that its inputs give. -/
theorem Trace.document_of_not_cancelled {P : Plan} {actions : List Action} {s : State}
    (h : Trace P actions s) (hfinished : s.Finished) (hnever : .cancel ∉ actions) :
    s.outcome.document? = some (({} : Document).collect (P.inputs.flatMap P.scopes)) := by
  have hcancelled : s.cancelled ≠ true := fun hc => hnever (h.cancelled_iff.mp hc)
  have hfailed : s.failed = false := by
    simpa using fun hf => hcancelled (h.valid.cancelled hf)
  obtain ⟨records, htasks, hsettles⟩ := h.valid.exists_records hfinished hfailed
  rw [s.outcome_of_records hfailed htasks, collect_records hsettles,
    kept_scopes hcancelled hsettles]
  rfl

/-- **Schedule independence.** Every run with at least one worker comes to an end. It
returns nothing only if the context was cancelled. Otherwise its document is what
collecting the scopes of the inputs that are not recorded as failed makes, in order
and in full. Unless the context was cancelled, this is the document of every other
run over these inputs, over those of them that succeed, and of the run that takes the
inputs one by one. -/
theorem schedule_independent (P : Plan) (hworkers : 1 ≤ P.options.concurrency)
    {actions : List Action} {s : State} (h : Trace P actions s) :
    actions.length ≤ P.limit ∧
    (¬ s.Finished → ∃ a s', a ≠ .cancel ∧ a ≠ .decline ∧ Step P a s s') ∧
    (s.Finished →
      (s.outcome = .stopped ∧ .cancel ∈ actions) ∨
      ∃ records : List Record, s.tasks = records.map .done ∧
        List.Forall₂ (fun i r => Settles P i (.cancel ∈ actions) r) P.inputs records ∧
        s.outcome = .returned
          (({} : Document).collect ((kept P.inputs records).flatMap P.scopes))
          (failures records)) ∧
    (s.Finished → .cancel ∉ actions → ∃ document, s.outcome.document? = some document ∧
      ∀ P' : Plan, P'.disk = P.disk → P'.options.source = P.options.source →
        P'.options.sink = P.options.sink →
        (P'.inputs = P.inputs ∨ P'.inputs = P.inputs.filter fun i => (P.result i).isOk) →
        (Run.give P.disk (Run.run P'.options false P'.inputs)).document = some document ∧
        ∀ {actions' s'}, Trace P' actions' s' → s'.Finished → .cancel ∉ actions' →
          s'.outcome.document? = some document) := by
  refine ⟨h.length_le, h.valid.exists_step ?_, fun hfinished => ?_, fun hfinished hnever => ?_⟩
  · rw [Plan.workers]
    omega
  · cases hfailed : s.failed with
    | true =>
      refine .inl ⟨?_, h.cancelled_iff.mp (h.valid.cancelled hfailed)⟩
      rw [State.outcome, if_pos hfailed]
    | false =>
      obtain ⟨records, htasks, hsettles⟩ := h.valid.exists_records hfinished hfailed
      refine .inr ⟨records, htasks, ?_, ?_⟩
      · exact hsettles.imp fun _ _ => Settles.imp h.cancelled_iff.mp
      · rw [s.outcome_of_records hfailed htasks, collect_records hsettles]
        rfl
  · refine ⟨_, h.document_of_not_cancelled hfinished hnever, ?_⟩
    intro P' hdisk hsource hsink hinputs
    have hscopes : P'.scopes = P.scopes := by
      funext i
      rw [Plan.scopes, Plan.scopes, Plan.endpoints, Plan.endpoints, hdisk, hsource, hsink]
    have hall : P'.inputs.flatMap P.scopes = P.inputs.flatMap P.scopes := by
      rcases hinputs with hsame | hsucceed
      · rw [hsame]
      · rw [hsucceed, filter_scopes]
    refine ⟨?_, fun h' hfinished' hnever' => ?_⟩
    · rw [Run.run_document, hsource, hsink]
      exact congrArg (fun scopes => some (Document.collect {} scopes)) hall
    · rw [h'.document_of_not_cancelled hfinished' hnever', hscopes, hall]

namespace Sample

def lost : Input := { path := "lost.js" }

def code : String := "function f() { var s = retSource(); sink(s); } function g() {}"

def script : Input := { content := some code }

/-- A file that is not there, and a text with two functions. -/
def plan : Plan where
  options := { source := "retSource", sink := "sink", concurrency := 2 }
  inputs := [lost, script]
  disk := {}

theorem jobs_code : ∃ j k, plan.jobs script code = .ok [j, k] := by
  have hlength : (plan.jobs script code).toOption.map List.length = some 2 := by decide +kernel
  cases h : plan.jobs script code with
  | error p => simp [h, Except.toOption] at hlength
  | ok jobs =>
    have htwo : jobs.length = 2 := by simpa [h, Except.toOption] using hlength
    obtain ⟨j, k, rfl⟩ := List.length_eq_two.mp htwo
    exact ⟨j, k, rfl⟩

theorem text_lost : plan.text lost = .error (.unreadable (.reading "lost.js" .missing)) := rfl

/-- The pool takes the first function and refuses the second, which is done before
the first. -/
def actions : List Action :=
  [.advance, .advance, .complete, .advance, .decline, .advance, .accept, .advance, .advance,
    .advance, .advance, .advance, .advance, .launch, .launch]

theorem trace : ∃ s, s.Finished ∧ Trace plan actions s := by
  obtain ⟨j, k, hjobs⟩ := jobs_code
  have h := Trace.start (P := plan)
  have h := h.step (.task (k := 0) rfl rfl .launch ⟨by simp, by decide⟩)
  have h := h.step (.task (k := 1) rfl rfl .launch ⟨by simp [plan, State.put], by decide⟩)
  have h := h.step (.task (k := 0) rfl rfl (.enter rfl) trivial)
  have h := h.step (.task (k := 1) rfl rfl (.enter rfl) trivial)
  have h := h.step (.task (k := 0) rfl rfl (.unreadable text_lost) trivial)
  have h := h.step (.task (k := 1) rfl rfl (.read rfl) trivial)
  have h := h.step (.task (k := 1) rfl rfl (.parse hjobs) trivial)
  have h := h.step (.task (k := 1) rfl rfl (.offer rfl rfl) trivial)
  have h := h.step (.task (k := 1) rfl rfl .accept Nat.zero_lt_two)
  have h := h.step (.task (k := 1) rfl rfl (.offer rfl rfl) trivial)
  have h := h.step (.task (k := 1) rfl rfl .decline trivial)
  have h := h.step (.task (k := 1) rfl rfl (.inline rfl) trivial)
  have h := h.step (.task (k := 1) rfl rfl (.complete (n := 0) rfl rfl) trivial)
  have h := h.step (.task (k := 1) rfl rfl (.last rfl) trivial)
  have h := h.step (.task (k := 1) rfl rfl
    (.finish (by simp [Work.fill, Work.push, Slot.isRunning])) trivial)
  refine ⟨_, ?_, h⟩
  simp [State.Finished, State.put, plan, Task.isOver]

theorem outcome_independent :
    1 ≤ plan.options.concurrency ∧ ∃ s, Trace plan actions s ∧ s.Finished ∧
      s.outcome.document? = (Run.give plan.disk (Run.run plan.options false plan.inputs)).document ∧
      s.outcome.document?.map (·.scopes.map fun (name, scope) => (name, scope.report.must)) =
        some [("f@1", ["s@1"]), ("g@1", [])] := by
  refine ⟨by decide, ?_⟩
  obtain ⟨s, hfinished, htrace⟩ := trace
  obtain ⟨_, _, _, hsame⟩ := schedule_independent plan (by decide) htrace
  obtain ⟨document, hdocument, hrest⟩ := hsame hfinished (by decide)
  have hsequential := (hrest plan rfl rfl rfl (.inl rfl)).1
  have heq := hdocument.trans hsequential.symm
  refine ⟨s, htrace, hfinished, heq, ?_⟩
  rw [heq]
  decide +kernel

end Sample

end TaintReach.Schedule
