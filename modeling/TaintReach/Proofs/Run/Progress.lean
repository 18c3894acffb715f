import Mathlib.Data.Nat.Find
import TaintReach.Proofs.Run.Validity

/-! A run with several workers ends.

Every action makes the run lighter (`Step.weight_lt`), so no run takes more than
`Plan.limit` actions, whatever their order. While a task is left, a run with at
least one worker can go on (`State.Valid.exists_step`), and it needs neither a
cancellation nor a refusal by the pool for that. -/
namespace TaintReach.Schedule

/-! ### Weights -/

/-- The functions of an input, if it can be read. -/
def Plan.functions (P : Plan) (i : Input) : List Job :=
  ((P.text i).bind (P.jobs i)).toOption.getD []

/-- A function weighs four before it is handed over and one while it is running. -/
def Work.weight (w : Work) : Nat :=
  w.slots.countP Slot.isRunning + 4 * (w.jobs.length - w.slots.length)

def Phase.weight : Phase → Nat
  | .submitting => 2
  | .offering | .waiting => 1
  | .inline => 0

/-- What a task of an input with so many functions may still do. -/
def Task.weight (size : Nat) : Task → Nat
  | .idle => 4 * size + 6
  | .launched => 4 * size + 5
  | .reading => 4 * size + 4
  | .parsing _ => 4 * size + 3
  | .working phase w => w.weight + phase.weight
  | .done _ | .refused => 0

/-- What tasks of inputs may still do together. -/
def Plan.weight (P : Plan) : List Input → List Task → Nat
  | i :: inputs, t :: tasks => t.weight (P.functions i).length + P.weight inputs tasks
  | _, _ => 0

def State.weight (P : Plan) (s : State) : Nat :=
  (if s.cancelled then 0 else 1) + P.weight P.inputs s.tasks

/-- No run takes more actions than this: one for the cancellation, six for each input
and four for each function. -/
def Plan.limit (P : Plan) : Nat :=
  1 + 6 * P.inputs.length + 4 * (P.inputs.flatMap P.functions).length

theorem Work.weight_push {w : Work} {j : Job} (slot : Slot) (h : w.next? = some j) :
    (w.push slot).weight + 4 = w.weight + if slot.isRunning then 1 else 0 := by
  have := next?_eq_some h
  simp only [Work.weight, Work.push, List.countP_append, List.countP_singleton,
    List.length_append, List.length_singleton]
  omega

theorem Work.weight_fill {w : Work} {n : Nat} (r : Except Fault Scope)
    (h : w.slots[n]? = some .running) : (w.fill n r).weight + 1 = w.weight := by
  obtain ⟨hn, hslot⟩ := List.getElem?_eq_some_iff.mp h
  have hmem : Slot.running ∈ w.slots := hslot ▸ List.getElem_mem hn
  have hpos : 0 < w.slots.countP Slot.isRunning := List.countP_pos_iff.mpr ⟨_, hmem, rfl⟩
  simp only [Work.weight, Work.fill, List.countP_set hn, hslot, Slot.isRunning, List.length_set]
  simp only [if_true, Bool.false_eq_true, if_false]
  omega

theorem Task.Step.weight_lt {P : Plan} {i : Input} {stopping : Bool} {a : Action} {t t' : Task}
    (hstep : Task.Step P i stopping a t t') (h : t.Fits P i (stopping = true)) :
    t'.weight (P.functions i).length < t.weight (P.functions i).length := by
  cases hstep with
  | launch | enter _ | refuse _ | unreadable _ | read _ | malformed _ =>
    simp only [Task.weight]
    omega
  | @parse text jobs hjobs =>
    have hfunctions : P.functions i = jobs := by
      rw [Plan.functions, (h : P.text i = .ok text)]
      simp [Except.bind, hjobs, Except.toOption]
    simp [Task.weight, Work.weight, Phase.weight, hfunctions]
  | offer _ _ | halt _ _ | last _ | decline => simp [Task.weight, Phase.weight]
  | @accept w =>
    have hlt := h.2.pending (.inl rfl)
    have hpush := Work.weight_push .running (List.getElem?_eq_getElem hlt : w.next? = some _)
    simp only [Task.weight, Phase.weight, Slot.isRunning, if_true] at hpush ⊢
    omega
  | inline hnext =>
    rename_i j
    have hpush := Work.weight_push (.filled j.outcome.result) hnext
    simp only [Task.weight, Phase.weight, Slot.isRunning] at hpush ⊢
    simp only [Bool.false_eq_true, if_false] at hpush
    omega
  | complete hslot _ =>
    rename_i j _
    have hfill := Work.weight_fill j.outcome.result hslot
    simp only [Task.weight]
    omega
  | finish _ => simp [Task.weight, Phase.weight]

theorem Plan.weight_set (P : Plan) {inputs : List Input} {tasks : List Task} {k : Nat} {i : Input}
    {t : Task} (t' : Task) (hi : inputs[k]? = some i) (ht : tasks[k]? = some t) :
    P.weight inputs (tasks.set k t') + t.weight (P.functions i).length =
      P.weight inputs tasks + t'.weight (P.functions i).length := by
  induction inputs generalizing tasks k with
  | nil => simp at hi
  | cons x inputs ih =>
    cases tasks with
    | nil => simp at ht
    | cons u tasks =>
      cases k with
      | zero =>
        obtain rfl : x = i := by simpa using hi
        obtain rfl : u = t := by simpa using ht
        simp only [List.set_cons_zero, Plan.weight]
        omega
      | succ k =>
        have hrest := @ih tasks k (by simpa using hi) (by simpa using ht)
        simp only [List.set_cons_succ, Plan.weight]
        omega

theorem Plan.weight_idle (P : Plan) (inputs : List Input) :
    P.weight inputs (inputs.map fun _ => .idle) =
      6 * inputs.length + 4 * (inputs.flatMap P.functions).length := by
  induction inputs with
  | nil => rfl
  | cons i inputs ih =>
    simp only [List.map_cons, Plan.weight, Task.weight, ih, List.length_cons, List.flatMap_cons,
      List.length_append]
    omega

theorem Step.weight_lt {P : Plan} {a : Action} {s s' : State} (hstep : Step P a s s')
    (h : s.Valid P) : s'.weight P < s.weight P := by
  cases hstep with
  | cancel hc => simp [State.weight, hc]
  | @task _ _ k i t t' hi ht hstep _ =>
    rw [h.stopping_eq] at hstep
    have hlt := hstep.weight_lt (forall₂_getElem? h.fits hi ht)
    have hsum := P.weight_set t' hi ht
    refine Nat.add_lt_add_left ?_ _
    simp only [State.put]
    omega

/-- A run takes no more actions than its weight at the start. -/
theorem Trace.length_le {P : Plan} {actions : List Action} {s : State} (h : Trace P actions s) :
    actions.length ≤ P.limit := by
  suffices hweight : actions.length + s.weight P ≤ P.limit by omega
  induction h with
  | start =>
    simp only [State.weight, Plan.weight_idle, Plan.limit, List.length_nil]
    simp only [Bool.false_eq_true, if_false]
    omega
  | step h hstep ih =>
    have := hstep.weight_lt h.valid
    simp only [List.length_cons]
    omega

/-! ### Going on -/

/-- A function in the pool can be done. -/
theorem Task.exists_complete {P : Plan} {i : Input} {c : Prop} {t : Task} (stopping : Bool)
    (h : t.Fits P i c) (hrunning : .running ∈ t.slots) :
    ∃ t', Task.Step P i stopping .complete t t' := by
  cases t with
  | working phase w =>
    obtain ⟨n, hslot⟩ := List.getElem?_of_mem hrunning
    have hn : n < w.jobs.length :=
      Nat.lt_of_lt_of_le (List.getElem?_eq_some_iff.mp hslot).1 h.2.within
    exact ⟨_, .complete hslot (List.getElem?_eq_getElem hn)⟩
  | idle | launched | reading | parsing _ | done _ | refused => cases hrunning

/-- A task that was launched and is not over can do something by itself, unless it
waits for the pool. -/
theorem Task.exists_step {P : Plan} {i : Input} {c : Prop} {t : Task} (stopping : Bool)
    (h : t.Fits P i c) (hactive : t.isActive = true) :
    (∃ t', Task.Step P i stopping .advance t t') ∨
      (∃ t', Task.Step P i stopping .accept t t') ∨ .running ∈ t.slots := by
  cases t with
  | idle | done _ | refused => simp [Task.isActive] at hactive
  | launched =>
    cases stopping with
    | true => exact .inl ⟨_, .refuse rfl⟩
    | false => exact .inl ⟨_, .enter rfl⟩
  | reading =>
    cases htext : P.text i with
    | error p => exact .inl ⟨_, .unreadable htext⟩
    | ok text => exact .inl ⟨_, .read htext⟩
  | parsing text =>
    cases hjobs : P.jobs i text with
    | error p => exact .inl ⟨_, .malformed hjobs⟩
    | ok jobs => exact .inl ⟨_, .parse hjobs⟩
  | working phase w =>
    cases phase with
    | submitting =>
      cases hnext : w.next? with
      | none => exact .inl ⟨_, .last hnext⟩
      | some j =>
        cases stopping with
        | true => exact .inl ⟨_, .halt hnext rfl⟩
        | false => exact .inl ⟨_, .offer hnext rfl⟩
    | offering => exact .inr (.inl ⟨_, .accept⟩)
    | inline =>
      have hnext := List.getElem?_eq_getElem (h.2.pending (.inr rfl))
      exact .inl ⟨_, .inline hnext⟩
    | waiting =>
      by_cases hrunning : .running ∈ w.slots
      · exact .inr (.inr hrunning)
      · refine .inl ⟨_, .finish fun slot hmem => ?_⟩
        cases slot with
        | running => exact absurd hmem hrunning
        | filled r => rfl

namespace State
variable {P : Plan} {s : State}

theorem Valid.input (h : s.Valid P) {k : Nat} {t : Task} (ht : s.tasks[k]? = some t) :
    ∃ i, P.inputs[k]? = some i ∧ t.Fits P i (s.cancelled = true) := by
  have hk : k < P.inputs.length := by
    rw [h.fits.length_eq]
    exact (List.getElem?_eq_some_iff.mp ht).1
  have hi := List.getElem?_eq_getElem hk
  exact ⟨_, hi, forall₂_getElem? h.fits hi ht⟩

theorem Valid.exists_complete (h : s.Valid P) {k : Nat} {t : Task} (ht : s.tasks[k]? = some t)
    (hrunning : .running ∈ t.slots) : ∃ s', Step P .complete s s' := by
  obtain ⟨i, hi, hfits⟩ := h.input ht
  obtain ⟨t', hstep⟩ := Task.exists_complete s.stopping hfits hrunning
  exact ⟨_, .task hi ht hstep trivial⟩

/-- The first task that is not launched yet. -/
theorem exists_first_idle {t : Task} (hmem : t ∈ s.tasks) (hidle : t = .idle) :
    ∃ k : Nat, s.tasks[k]? = some .idle ∧ ∀ j < k, s.tasks[j]? ≠ some .idle := by
  classical
  have hex : ∃ k : Nat, s.tasks[k]? = some .idle := by
    obtain ⟨k, hk⟩ := List.getElem?_of_mem hmem
    exact ⟨k, hidle ▸ hk⟩
  exact ⟨Nat.find hex, Nat.find_spec hex, fun j hj => Nat.find_min hex hj⟩

/-- **Progress.** A run that is not finished can go on. -/
theorem Valid.exists_step (h : s.Valid P) (hworkers : 0 < P.workers) (hleft : ¬ s.Finished) :
    ∃ a s', a ≠ .cancel ∧ a ≠ .decline ∧ Step P a s s' := by
  by_cases hactive : ∃ t ∈ s.tasks, t.isActive = true
  · obtain ⟨t, hmem, hactive⟩ := hactive
    obtain ⟨k, ht⟩ := List.getElem?_of_mem hmem
    obtain ⟨i, hi, hfits⟩ := h.input ht
    rcases Task.exists_step s.stopping hfits hactive with ⟨t', hstep⟩ | ⟨t', hstep⟩ | hrunning
    · exact ⟨.advance, _, by simp, by simp, .task hi ht hstep trivial⟩
    · by_cases hplace : s.running < P.workers
      · exact ⟨.accept, _, by simp, by simp, .task hi ht hstep hplace⟩
      · -- All workers of the pool are busy, so one of them can be done.
        have hbusy : 0 < s.running := Nat.lt_of_lt_of_le hworkers (Nat.le_of_not_lt hplace)
        obtain ⟨slot, hmem, hslot⟩ := List.countP_pos_iff.mp hbusy
        obtain ⟨u, hu, hrunning⟩ := List.mem_flatMap.mp hmem
        rw [Slot.isRunning_eq_true.mp hslot] at hrunning
        obtain ⟨k', hu⟩ := List.getElem?_of_mem hu
        obtain ⟨s', hstep⟩ := h.exists_complete hu hrunning
        exact ⟨.complete, s', by simp, by simp, hstep⟩
    · obtain ⟨s', hstep⟩ := h.exists_complete ht hrunning
      exact ⟨.complete, s', by simp, by simp, hstep⟩
  · -- No task is at work, so there is a place for the first that is left.
    obtain ⟨t, hmem, hover⟩ : ∃ t ∈ s.tasks, t.isOver = false := by
      simpa [State.Finished] using hleft
    have hidle : t = .idle := by
      have hrest : t.isActive ≠ true := fun ht => hactive ⟨t, hmem, ht⟩
      cases t <;> simp_all [Task.isActive, Task.isOver]
    obtain ⟨k, ht, hfirst⟩ := exists_first_idle hmem hidle
    obtain ⟨i, hi, _⟩ := h.input ht
    have hnone : s.active = 0 := List.countP_eq_zero.mpr fun u hu hu' => hactive ⟨u, hu, hu'⟩
    exact ⟨.launch, _, by simp, by simp, .task hi ht .launch ⟨hfirst, by omega⟩⟩

end State

end TaintReach.Schedule
