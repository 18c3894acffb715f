import Mathlib.Data.List.Forall2
import TaintReach.Proofs.Run.Schedule

/-! What holds throughout a run with several workers.

`State.Valid` is the invariant: each task fits its input, a task that refused to
start shows in the state, and only a run that was cancelled can have one. What a
task records is then right (`Settles`): all scopes of its input, the problem that
keeps the input from giving any, or that the run was stopped, which is only said
after the context was cancelled. -/
namespace TaintReach.Schedule

/-! ### What comes of an input -/

namespace Plan

/-- What comes of an input if nothing stops the run. -/
def result (P : Plan) (i : Input) : Except Input.Problem (List Scope) :=
  Run.resultOn P.disk P.endpoints i

theorem outcomes_eq_map (endpoints : Walk.Endpoints) (programs : List Program) :
    programs.flatMap (Input.outcomes endpoints) =
      (programs.flatMap (jobsOf endpoints)).map Job.outcome := by
  rw [List.map_flatMap]
  refine congrArg (programs.flatMap ·) (funext fun p => ?_)
  simp only [jobsOf, List.map_map]
  rfl

theorem analyze_result (load : String → Option String) (endpoints : Walk.Endpoints) (i : Input)
    (text : String) :
    (i.analyze load endpoints text).result =
      ((Input.programs load (i.pieces text)).1.map (·.flatMap (jobsOf endpoints))).bind fun jobs =>
        (Input.scopesOf (jobs.map Job.outcome)).mapError (.unanalysable i.name ·) := by
  simp only [Input.analyze]
  cases (Input.programs load (i.pieces text)).1 with
  | error p => rfl
  | ok programs => simp only [outcomes_eq_map, Except.map, Except.bind]

/-- Reading, parsing and analysing in turn. -/
theorem result_eq (P : Plan) (i : Input) :
    P.result i = (P.text i).bind fun text => (P.jobs i text).bind fun jobs =>
      (Input.scopesOf (jobs.map Job.outcome)).mapError (.unanalysable i.name ·) := by
  unfold result Run.resultOn Run.analyzeInput
  rw [(Run.readOnly_text i).give_bind]
  change _ = (Run.give P.disk i.text).bind _
  cases Run.give P.disk (i.text : StateM Disk _) with
  | error p => rfl
  | ok text =>
    refine Eq.trans (congrArg Analysis.result ?_) (analyze_result _ P.endpoints i text)
    exact (Run.readOnly_mapFiles _).give_bind _ P.disk

theorem result_of_text {P : Plan} {i : Input} {text : String} (h : P.text i = .ok text) :
    P.result i = (P.jobs i text).bind fun jobs =>
      (Input.scopesOf (jobs.map Job.outcome)).mapError (.unanalysable i.name ·) := by
  rw [P.result_eq, h]
  rfl

end Plan

/-- How a record may settle an input of a run. -/
inductive Settles (P : Plan) (i : Input) (cancelled : Prop) : Record → Prop
  | complete {scopes : List Scope} (h : P.result i = .ok scopes) :
    Settles P i cancelled (.ok (scopes.map some))
  | failed {p : Input.Problem} (h : P.result i = .error p) :
    Settles P i cancelled (.error (.input p))
  | stopped (h : cancelled) : Settles P i cancelled (.error .cancelled)

/-! ### What a task holds -/

/-- The slot of a function that is done. -/
def Job.slot (j : Job) : Slot := .filled j.outcome.result

theorem scopesOf_outcomes (jobs : List Job) :
    Input.scopesOf (jobs.map Job.outcome) =
      if (jobs.map Job.slot).filterMap Slot.fault? = [] then
        .ok ((jobs.map Job.slot).filterMap Slot.scope?)
      else .error ((jobs.map Job.slot).filterMap Slot.fault?) := by
  have hfaults : (jobs.map Job.slot).filterMap Slot.fault? =
      (jobs.map Job.outcome).filterMap Walk.Outcome.fault? := by
    simp only [List.filterMap_map]
    refine List.filterMap_congr fun j _ => ?_
    cases h : j.outcome.result <;> simp [Job.slot, Slot.fault?, Walk.Outcome.fault?, h]
  have hscopes : (jobs.map Job.slot).filterMap Slot.scope? =
      (jobs.map Job.outcome).filterMap fun o => o.result.toOption := by
    simp only [List.filterMap_map]
    refine List.filterMap_congr fun j _ => ?_
    cases h : j.outcome.result <;> simp [Job.slot, Slot.scope?, Except.toOption, h]
  rw [hfaults, hscopes]
  exact if_congr List.isEmpty_iff rfl rfl

/-- Without a fault no scope is missing. -/
theorem scopes_present {jobs : List Job} (h : (jobs.map Job.slot).filterMap Slot.fault? = []) :
    (jobs.map Job.slot).map Slot.scope? =
      ((jobs.map Job.slot).filterMap Slot.scope?).map some := by
  induction jobs with
  | nil => rfl
  | cons j rest ih =>
    cases hj : j.outcome.result with
    | error f => simp [Job.slot, Slot.fault?, hj] at h
    | ok scope =>
      have hrest : (rest.map Job.slot).filterMap Slot.fault? = [] := by
        simpa [Job.slot, Slot.fault?, hj] using h
      simpa [Job.slot, Slot.scope?, hj] using ih hrest

/-- No slot is ahead of the functions, and a filled one holds what its function gives. -/
structure Work.Fits (w : Work) (phase : Phase) (cancelled : Prop) : Prop where
  within : w.slots.length ≤ w.jobs.length
  filled : ∀ (n : Nat) (r : Except Fault Scope), w.slots[n]? = some (.filled r) →
    ∃ j, w.jobs[n]? = some j ∧ r = j.outcome.result
  pending : phase = .offering ∨ phase = .inline → w.slots.length < w.jobs.length
  /-- The task gives up early only in a run that was cancelled. -/
  waiting : phase = .waiting → w.slots.length = w.jobs.length ∨ cancelled

/-- A task of an input. -/
def Task.Fits (P : Plan) (i : Input) (cancelled : Prop) : Task → Prop
  | .parsing text => P.text i = .ok text
  | .working phase w =>
    (∃ text, P.text i = .ok text ∧ P.jobs i text = .ok w.jobs) ∧ w.Fits phase cancelled
  | .done r => Settles P i cancelled r
  | _ => True

namespace Work

theorem next?_eq_some {w : Work} {j : Job} (h : w.next? = some j) :
    w.slots.length < w.jobs.length :=
  (List.getElem?_eq_some_iff.mp h).1

theorem slots_push_filled {w : Work} {slot : Slot} {n : Nat} {r : Except Fault Scope}
    (h : (w.push slot).slots[n]? = some (.filled r)) :
    w.slots[n]? = some (.filled r) ∨ n = w.slots.length ∧ slot = .filled r := by
  rcases Nat.lt_trichotomy n w.slots.length with hlt | heq | hgt
  · exact .inl (by rwa [push, List.getElem?_append_left hlt] at h)
  · subst heq
    exact .inr ⟨rfl, by simpa [push] using h⟩
  · have hlen : (w.slots ++ [slot]).length ≤ n := by simp; omega
    rw [push, List.getElem?_eq_none hlen] at h
    simp at h

namespace Fits
variable {w : Work} {phase : Phase} {cancelled : Prop}

/-- Handing over the next function. -/
theorem push {slot : Slot} {j : Job} (h : w.Fits phase cancelled) (hnext : w.next? = some j)
    (hslot : ∀ r, slot = .filled r → r = j.outcome.result) :
    (w.push slot).Fits .submitting cancelled where
  within := by
    have := next?_eq_some hnext
    simp only [Work.push, List.length_append, List.length_singleton]
    omega
  filled n r hr := by
    rcases slots_push_filled hr with hold | ⟨rfl, hnew⟩
    · exact h.filled n r hold
    · exact ⟨j, hnext, hslot r hnew⟩
  pending := by simp
  waiting := by simp

theorem fill {n : Nat} {j : Job} (h : w.Fits phase cancelled) (hj : w.jobs[n]? = some j) :
    (w.fill n j.outcome.result).Fits phase cancelled where
  within := by simpa [Work.fill] using h.within
  filled m r hr := by
    by_cases hm : n = m
    · subst hm
      have hlt : n < w.slots.length := by
        have := (List.getElem?_eq_some_iff.mp hr).1
        simpa [Work.fill] using this
      refine ⟨j, hj, ?_⟩
      have hset : some (Slot.filled j.outcome.result) = some (.filled r) := by
        rw [← hr, Work.fill, List.getElem?_set_self hlt]
      exact (by simpa using hset : j.outcome.result = r).symm
    · rw [Work.fill, List.getElem?_set_ne hm] at hr
      exact h.filled m r hr
  pending := by simpa [Work.fill] using h.pending
  waiting := by simpa [Work.fill] using h.waiting

/-- When all functions were handed over and are done, all results are there. -/
theorem slots_eq (h : w.Fits phase cancelled) (hall : w.slots.length = w.jobs.length)
    (hdone : ∀ slot ∈ w.slots, slot.isRunning = false) : w.slots = w.jobs.map Job.slot := by
  refine List.ext_getElem (by simpa using hall) fun n hn hn' => ?_
  rw [List.getElem_map, Job.slot]
  have hget : w.slots[n]? = some w.slots[n] := List.getElem?_eq_getElem hn
  cases hslot : w.slots[n] with
  | running =>
    have := hdone _ (List.getElem_mem hn)
    simp [hslot, Slot.isRunning] at this
  | filled r =>
    rw [hslot] at hget
    obtain ⟨j, hj, rfl⟩ := h.filled n r hget
    rw [(List.getElem?_eq_some_iff.mp hj).2]

end Fits

/-- What is recorded in the end is right. -/
theorem Fits.settles {P : Plan} {i : Input} {text : String} {w : Work} {stopping : Bool}
    (htext : P.text i = .ok text) (hjobs : P.jobs i text = .ok w.jobs)
    (h : w.Fits .waiting (stopping = true))
    (hdone : ∀ slot ∈ w.slots, slot.isRunning = false) :
    Settles P i (stopping = true) (w.record i stopping) := by
  cases stopping with
  | true => exact .stopped rfl
  | false =>
    have hall : w.slots.length = w.jobs.length := by simpa using h.waiting rfl
    have hresult : P.result i = (Input.scopesOf (w.jobs.map Job.outcome)).mapError
        (.unanalysable i.name ·) := by
      rw [Plan.result_of_text htext, hjobs]
      rfl
    rw [scopesOf_outcomes, ← h.slots_eq hall hdone] at hresult
    simp only [record, hall, Nat.sub_self, List.replicate_zero, List.append_nil]
    split at hresult
    case isTrue hnone =>
      rw [if_neg (by simp), if_pos hnone, h.slots_eq hall hdone,
        scopes_present (by rwa [← h.slots_eq hall hdone]), ← h.slots_eq hall hdone]
      exact .complete hresult
    case isFalse hsome =>
      rw [if_neg (by simp), if_neg hsome]
      exact .failed hresult

end Work

/-- **Validity of a task.** What a task does keeps it a task of its input. -/
theorem Task.Step.fits {P : Plan} {i : Input} {stopping : Bool} {a : Action} {t t' : Task}
    (hstep : Task.Step P i stopping a t t') (h : t.Fits P i (stopping = true)) :
    t'.Fits P i (stopping = true) := by
  cases hstep with
  | launch | enter _ | refuse _ => trivial
  | unreadable htext => exact .failed (by rw [P.result_eq, htext]; rfl)
  | read htext => exact htext
  | malformed hjobs => exact .failed (by rw [Plan.result_of_text h, hjobs]; rfl)
  | parse hjobs =>
    exact ⟨⟨_, h, hjobs⟩, by simp, by simp, by simp, by simp⟩
  | offer hnext _ =>
    exact ⟨h.1, h.2.within, h.2.filled, fun _ => Work.next?_eq_some hnext, by simp⟩
  | halt _ hstop => exact ⟨h.1, h.2.within, h.2.filled, by simp, fun _ => .inr hstop⟩
  | @last w hnext =>
    have hle : w.jobs.length ≤ w.slots.length := List.getElem?_eq_none_iff.mp hnext
    exact ⟨h.1, h.2.within, h.2.filled, by simp, fun _ => .inl (Nat.le_antisymm h.2.within hle)⟩
  | @accept w =>
    have hlt := h.2.pending (.inl rfl)
    exact ⟨h.1, h.2.push (List.getElem?_eq_getElem hlt) (by simp)⟩
  | decline => exact ⟨h.1, h.2.within, h.2.filled, fun _ => h.2.pending (.inl rfl), by simp⟩
  | inline hnext => exact ⟨h.1, h.2.push hnext (by rintro r ⟨⟩; rfl)⟩
  | complete _ hj => exact ⟨h.1, h.2.fill hj⟩
  | finish hdone =>
    obtain ⟨⟨text, htext, hjobs⟩, hfits⟩ := h
    exact hfits.settles htext hjobs hdone

theorem Settles.imp {P : Plan} {i : Input} {c c' : Prop} {r : Record} (hc : c → c')
    (h : Settles P i c r) : Settles P i c' r := by
  cases h with
  | complete h => exact .complete h
  | failed h => exact .failed h
  | stopped h => exact .stopped (hc h)

theorem Task.Fits.imp {P : Plan} {i : Input} {c c' : Prop} {t : Task} (hc : c → c')
    (h : t.Fits P i c) : t.Fits P i c' := by
  cases t with
  | parsing text => exact h
  | working phase w =>
    exact ⟨h.1, h.2.within, h.2.filled, h.2.pending, fun hw => (h.2.waiting hw).imp_right hc⟩
  | done r => exact Settles.imp hc h
  | idle | launched | reading | refused => trivial

/-! ### What a run holds -/

structure State.Valid (P : Plan) (s : State) : Prop where
  fits : List.Forall₂ (fun i t => t.Fits P i (s.cancelled = true)) P.inputs s.tasks
  refused : ∀ t ∈ s.tasks, t.isRefused = true → s.failed = true
  cancelled : s.failed = true → s.cancelled = true

theorem State.Valid.stopping_eq {P : Plan} {s : State} (h : s.Valid P) :
    s.stopping = s.cancelled := by
  unfold State.stopping
  cases hfailed : s.failed with
  | true => simp [h.cancelled hfailed]
  | false => simp

theorem Task.Step.stopping_of_refused {P : Plan} {i : Input} {stopping : Bool} {a : Action}
    {t t' : Task} (hstep : Task.Step P i stopping a t t') (h : t'.isRefused = true) :
    stopping = true := by
  cases hstep with
  | refuse hstop => exact hstop
  | _ => cases h

theorem Task.Step.ne_cancel {P : Plan} {i : Input} {stopping : Bool} {a : Action} {t t' : Task}
    (hstep : Task.Step P i stopping a t t') : a ≠ .cancel := by
  cases hstep <;> simp

section
variable {α β : Type} {R : α → β → Prop} {l₁ : List α} {l₂ : List β}

theorem forall₂_set (h : List.Forall₂ R l₁ l₂) {k : Nat} {a : α} {b : β} (ha : l₁[k]? = some a)
    (hb : R a b) : List.Forall₂ R l₁ (l₂.set k b) := by
  induction h generalizing k with
  | nil => exact .nil
  | cons hr hrest ih =>
    cases k with
    | zero =>
      obtain rfl : _ = a := by simpa using ha
      exact .cons hb hrest
    | succ k => exact .cons hr (ih (by simpa using ha))

theorem forall₂_getElem? (h : List.Forall₂ R l₁ l₂) {k : Nat} {a : α} {b : β}
    (ha : l₁[k]? = some a) (hb : l₂[k]? = some b) : R a b := by
  induction h generalizing k with
  | nil => simp at ha
  | cons hr _ ih =>
    cases k with
    | zero =>
      obtain rfl : _ = a := by simpa using ha
      obtain rfl : _ = b := by simpa using hb
      exact hr
    | succ k => exact ih (by simpa using ha) (by simpa using hb)

end

theorem Step.valid {P : Plan} {a : Action} {s s' : State} (hstep : Step P a s s')
    (h : s.Valid P) : s'.Valid P := by
  cases hstep with
  | cancel _ => exact ⟨h.fits.imp fun _ _ hfits => hfits.imp fun _ => rfl, h.refused, fun _ => rfl⟩
  | @task _ _ k i t t' hi ht hstep _ =>
    rw [h.stopping_eq] at hstep
    refine ⟨forall₂_set h.fits hi (hstep.fits (forall₂_getElem? h.fits hi ht)), ?_, ?_⟩
    · intro u hu hrefused
      rcases List.mem_or_eq_of_mem_set hu with hold | rfl
      · simp [State.put, h.refused u hold hrefused]
      · simp [State.put, hrefused]
    · intro hfailed
      rcases Bool.or_eq_true_iff.mp hfailed with hold | hnew
      · exact h.cancelled hold
      · exact hstep.stopping_of_refused hnew

/-- A run is valid at any time. -/
theorem Trace.valid {P : Plan} {actions : List Action} {s : State} (h : Trace P actions s) :
    s.Valid P := by
  induction h with
  | start =>
    refine ⟨?_, by simp [Task.isRefused], by simp⟩
    rw [List.forall₂_map_right_iff, List.forall₂_same]
    exact fun _ _ => trivial
  | step _ hstep ih => exact hstep.valid ih

/-- The context is cancelled by nothing but the action that says so. -/
theorem Trace.cancelled_iff {P : Plan} {actions : List Action} {s : State}
    (h : Trace P actions s) : s.cancelled = true ↔ .cancel ∈ actions := by
  induction h with
  | start => simp
  | step _ hstep ih =>
    cases hstep with
    | cancel _ => simp
    | task _ _ hstep _ =>
      rw [List.mem_cons, or_iff_right hstep.ne_cancel.symm]
      exact ih

end TaintReach.Schedule
