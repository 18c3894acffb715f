import TaintReach.Proofs.Report.Collect
import TaintReach.Proofs.Walk.Nested
import TaintReach.Proofs.Walk.Overlooked

/-! Code behind other code.

Statements put behind the body of a function are walked in the state that the body leaves.
What comes before them is walked as if they were not there, and they only add to what it
has left: variables stay where they are, keep name, line and mark of escape, and their
marks, verdicts and dependents never get fewer. So nothing that is reported of a function
is lost when code is appended to it (`Walk.findings_kept`). -/
namespace TaintReach

/-! ### Reports on a scope that grows -/

namespace Scope

/-- The variables of the earlier scope are where the later one starts. -/
theorem Grows.forall₂_take {s t : Scope} (h : s.Grows t) :
    List.Forall₂ Variable.Grows s.vars (t.vars.take s.vars.length) := by
  have hlength : s.vars.length ≤ t.vars.length := by
    by_contra hless
    obtain ⟨w, hw, -⟩ := h.vars t.vars.length _ (List.getElem?_eq_getElem (by omega))
    simp at hw
  refine List.forall₂_iff_get.mpr ⟨by simp [hlength], fun i hi hi' => ?_⟩
  obtain ⟨w, hw, hgrows⟩ := h.vars i _ (List.getElem?_eq_getElem hi)
  obtain ⟨_, rfl⟩ := List.getElem?_eq_some_iff.mp hw
  simpa using hgrows

/-- What is found in a scope is found in what grows out of it, as verdicts never get lower. -/
theorem Grows.found_sublist {s t : Scope} (h : s.Grows t) (verdict : Taint) :
    (s.found verdict).Sublist (t.found verdict) := by
  have hkept : ∀ {vs ws : List Variable}, List.Forall₂ Variable.Grows vs ws →
      ((vs.filter fun v => verdict.rank ≤ v.taint.rank).map Variable.id).Sublist
        ((ws.filter fun v => verdict.rank ≤ v.taint.rank).map Variable.id) := by
    intro vs ws hgrows
    induction hgrows with
    | nil => exact .slnil
    | @cons v w vs ws hgrows _ ih =>
      have hid : w.id = v.id := congrArg VarRef.id hgrows.ref
      by_cases hv : verdict.rank ≤ v.taint.rank
      · have hw : verdict.rank ≤ w.taint.rank := Int.le_trans hv hgrows.taint
        simpa [hv, hw, hid] using ih
      · by_cases hw : verdict.rank ≤ w.taint.rank
        · simpa [hv, hw] using ih.cons w.id
        · simpa [hv, hw] using ih
  exact (hkept h.forall₂_take).trans (((List.take_sublist _ _).filter _).map _)

end Scope

/-! ### Walking what comes first -/

/-- `g'` is `g` with statements put behind the body of the function at `root`. -/
structure Graph.Appends (g g' : Graph) (root : NodeId) (more : List (Option NodeId)) : Prop where
  function : ∃ line name params body locals locals',
    g.node? root = some ⟨line, .function name params body locals⟩ ∧
    g'.node? root = some ⟨line, .function name params (body ++ more) locals'⟩
  outer : ∀ id, g.Outer root id → id ≠ root → g'.node? id = g.node? id

namespace Graph.Appends

variable {g g' : Graph} {root : NodeId} {more : List (Option NodeId)}

/-- The nodes of the shorter function are seen as they were. -/
theorem mirrors (h : g.Appends g' root more) : g.Mirrors g' root fun c c' =>
    (∀ id, c = some id → g.Outer root id) ∧ c = c' := by
  obtain ⟨line, name, params, body, locals, locals', hfn, hfn'⟩ := h.function
  constructor
  case isSome =>
    rintro c c' ⟨-, rfl⟩
    rfl
  case node =>
    rintro c c' ⟨houter, rfl⟩
    cases c with
    | none => exact Or.inl ⟨rfl, rfl⟩
    | some id =>
      by_cases hroot : id = root
      · subst hroot
        exact Or.inr ⟨_, _, hfn, hfn', .function⟩
      · have hsame := h.outer id (houter id rfl) hroot
        cases hn : g.node? id with
        | none => exact Or.inl ⟨hn, hsame.trans hn⟩
        | some n =>
          exact Or.inr ⟨n, n, hn, hsame.trans hn, (houter id rfl).alike hn (.refl (fun _ => rfl) n)⟩
  case same =>
    rintro a b ⟨-, hab⟩
    exact Or.inl (Option.some.inj hab)
  case line =>
    intro n n' hn hn'
    obtain rfl := Option.some.inj (hn.symm.trans hfn)
    obtain rfl := Option.some.inj (hn'.symm.trans hfn')
    rfl

end Graph.Appends

namespace Walk

variable {E : Setting} {g' : Graph} {root : NodeId} {more : List (Option NodeId)}

/-- Nothing is visited after a fault. -/
theorem visitAll_of_fault {path : List NodeId} (cs : List (Option NodeId)) {s : State}
    (h : s.fault.isSome) : visitAll (walk E path) cs s = s := by
  induction cs with
  | nil => rfl
  | cons c rest ih =>
    show visitAll (walk E path) rest (walk E path c s) = s
    rw [walk_of_fault c h]
    exact ih

/-- The state that a function leaves. -/
def leaving (E : Setting) (root : NodeId) (name : String) (line : Int)
    (params body : List (Option NodeId)) : State :=
  visitAll (walk E [root]) body (visitAll (walk E [root]) params (opening name line))

/-- What is appended is walked in the state that the function leaves without it. -/
theorem leaving_append (h : E.graph.Appends g' root more) {line : Int} {name : String}
    {params body : List (Option NodeId)} {locals : List String}
    (hfn : E.graph.node? root = some ⟨line, .function name params body locals⟩) :
    leaving { E with graph := g' } root name line params (body ++ more) =
      visitAll (walk { E with graph := g' } [root]) more
        (leaving E root name line params body) := by
  have houter := Graph.Outer.root.children (Or.inl rfl) hfn
  obtain ⟨hparams, hbody⟩ := List.forall_mem_append.mp houter
  have hsame : ∀ {cs : List (Option NodeId)},
      (∀ c ∈ cs, ∀ id, c = some id → E.graph.Outer root id) →
      ∀ s, visitAll (walk E [root]) cs s = visitAll (walk { E with graph := g' } [root]) cs s := by
    intro cs hcs
    apply visitAll_congr
    · intro c c' hc s
      exact walk_congr h.mirrors h.mirrors.onPath_root hc s
    · exact List.forall₂_same.mpr fun c hc => ⟨hcs c hc, rfl⟩
  unfold leaving
  rw [visitAll_append, hsame hparams, hsame hbody]

/-- A function is analysed if the walk of it meets no fault. -/
theorem analyzeFunction_eq_ok_iff {line : Int} {name : String} {params body : List (Option NodeId)}
    {locals : List String} {s : Scope}
    (hfn : E.graph.node? root = some ⟨line, .function name params body locals⟩) :
    (analyzeFunction E (some root)).result = .ok s ↔
      (leaving E root name line params body).fault = none ∧
        (leaving E root name line params body).scope = s := by
  rw [analyzeFunction_result hfn]
  change (leaving E root name line params body).fault.elim
    (Except.ok (leaving E root name line params body).scope) Except.error = Except.ok s ↔ _
  cases (leaving E root name line params body).fault <;> simp

/-- **Appended code keeps every finding.** Let statements be put behind the body of a
function. If it is analysed then, it is analysed without them, and the scope they leave has
grown out of the one without them; what is reported without them, as certain or as
possible, is reported with them, in the same order. -/
theorem findings_kept (h : E.graph.Appends g' root more) {t : Scope}
    (ht : (analyzeFunction { E with graph := g' } (some root)).result = .ok t) :
    ∃ s, (analyzeFunction E (some root)).result = .ok s ∧ s.Grows t ∧
      s.report.must.Sublist t.report.must ∧ s.report.may.Sublist t.report.may := by
  have hjudged' := Analysed.judged ⟨_, _, ht⟩
  obtain ⟨line, name, params, body, locals, locals', hfn, hfn'⟩ := h.function
  rw [analyzeFunction_eq_ok_iff (E := { E with graph := g' }) hfn', leaving_append h hfn] at ht
  obtain ⟨hfault, rfl⟩ := ht
  -- A fault met before what is appended would still be there behind it.
  have hdone : (leaving E root name line params body).fault = none := by
    by_contra hmet
    rw [visitAll_of_fault more (Option.isSome_iff_ne_none.mpr hmet)] at hfault
    exact hmet hfault
  have hs := (analyzeFunction_eq_ok_iff hfn).mpr ⟨hdone, rfl⟩
  have hopened : Extends (opening name line).scope (leaving E root name line params body).scope :=
    (function_steps hfn (opening name line)).extends (Scope.wellFormed_of_empty rfl)
  have hheld : more ⊆ params ++ (body ++ more) := fun _ hc =>
    List.mem_append_right _ (List.mem_append_right _ hc)
  have hgrows := ((held_steps (E := { E with graph := g' }) hfn' hheld
    (leaving E root name line params body)).extends hopened.wellFormed).grows
  refine ⟨_, hs, hgrows, ?_, hgrows.found_sublist .may⟩
  rw [(Analysed.judged ⟨E, _, hs⟩).must_report, hjudged'.must_report]
  exact hgrows.found_sublist .must

/-- A variable holds what a source returns; it is passed to a sink if a name that is never
written holds. -/
def doubting : Graph := ⟨#[
  ⟨1, .function "f" [] [some 1, some 5] []⟩,
  ⟨1, .assignment "=" (some 2) (some 3)⟩, ⟨1, .name "x"⟩,
  ⟨1, .call (some 4) [] false⟩, ⟨1, .name "retSource"⟩,
  ⟨2, .conditional .branch none (some 6) none none (some 7) none⟩, ⟨2, .name "c"⟩,
  ⟨3, .call (some 8) [some 2] false⟩, ⟨3, .name "sink"⟩]⟩

/-- The function with the variable passed to the sink behind the branch. -/
def doubtless : Graph :=
  ⟨doubting.nodes.set! 0 ⟨1, .function "f" [] [some 1, some 5, some 7] []⟩⟩

theorem doubtless_appends : doubting.Appends doubtless 0 [some 7] where
  function := ⟨1, "f", [], [some 1, some 5], [], [], rfl, rfl⟩
  outer id _ hid := by
    unfold doubtless Graph.node?
    rw [Array.set!_eq_setIfInBounds, Array.getElem?_setIfInBounds_ne hid.symm]

/-- What was possible is certain with the call behind it, and possible as before. -/
theorem findings_kept_doubting :
    (analyzeFunction { graph := doubting } (some 0)).result.map Scope.report = .ok ⟨[], ["x@1"]⟩ ∧
    (analyzeFunction { graph := doubtless } (some 0)).result.map Scope.report =
      .ok ⟨["x@1"], ["x@1"]⟩ ∧
    ∃ t, (analyzeFunction { graph := doubtless } (some 0)).result = .ok t ∧
      ∃ s, (analyzeFunction { graph := doubting } (some 0)).result = .ok s ∧ s.Grows t ∧
        s.report.must.Sublist t.report.must ∧ s.report.may.Sublist t.report.may := by
  have hreport : (analyzeFunction { graph := doubtless } (some 0)).result.map Scope.report =
      .ok ⟨["x@1"], ["x@1"]⟩ := by decide +kernel
  refine ⟨by decide +kernel, hreport, ?_⟩
  cases ht : (analyzeFunction { graph := doubtless } (some 0)).result with
  | error f =>
    rw [ht] at hreport
    cases hreport
  | ok t => exact ⟨t, rfl, findings_kept (E := { graph := doubting }) doubtless_appends ht⟩

end Walk

end TaintReach
