import TaintReach.Proofs.Scope.JoinLaws
import TaintReach.Proofs.Walk.Step

/-! Scopes that come out of an analysis.

An analysis that succeeds is a sequence of steps from an empty scope that has the
name of the function (`exists_steps`). So what holds of a variable when it is
registered, and lasts through every change a step makes to it, holds of all
variables of an analysed scope (`lasting_of_analyzeFunction`). Drawn from it here
is that the verdicts are the three that have a name (`Analysed.judged`); as steps
keep a scope well formed, an analysed scope can be joined, reported and collected
(`Analysed.regular`). A function without a cycle is always analysed
(`exists_analyzeFunction`), and those of a program are so one by one, each against its
own declarations (`analyzeAll_eq_ok`). -/
namespace TaintReach

/-- Every verdict in the scope is one that has a name. -/
def Scope.Judged (s : Scope) : Prop := ∀ v ∈ s.vars, v.taint ∈ [Taint.clean, .may, .must]

theorem Reachable.taint_mem (r : Reachable) : r.taint ∈ [Taint.clean, .may, .must] := by
  unfold Reachable.taint
  split
  · decide
  · split <;> decide

theorem Scope.forall_update {P : Variable → Prop} {s : Scope} (h : ∀ v ∈ s.vars, P v) (x : String)
    {f : Variable → Variable} (hf : ∀ v ∈ s.vars, P (f v)) : ∀ v ∈ (s.update x f).vars, P v := by
  intro v hv
  obtain ⟨w, hw, rfl⟩ := List.mem_map.mp hv
  split
  · exact hf w hw
  · exact h w hw

namespace Walk

/-- What holds of a variable from its registration on, whatever a walk does to it. -/
structure Lasting (declared : Option (String → Bool)) (P : Variable → Prop) : Prop where
  registered : ∀ home name line reachable,
    P { home, name, line, reachable, escaped := declared.any fun declares => !declares name }
  derived : ∀ (v : Variable) (ds : List VarRef), P v → P { v with dependents := ds }
  marked : ∀ v : Variable, P v → P { v with source := true }
  promoted : ∀ (v : Variable) (r : Reachable), v.source = true → P v → P { v with taint := r.taint }
  stamped : ∀ (v : Variable) (r : Reachable), P v → P { v with reachable := r }

section
variable {E : Setting} {root : NodeId} {s t : State} {P : Variable → Prop}
  (hP : Lasting E.declared P)
include hP

theorem Lasting.depend {s : Scope} (h : ∀ v ∈ s.vars, P v) (x y : String) :
    ∀ v ∈ (s.depend x y).vars, P v := by
  unfold Scope.depend
  split
  · exact h
  · refine Scope.forall_update h x fun v hv => ?_
    obtain ⟨ds, hds⟩ := v.addDependency_eq _
    rw [hds]
    exact hP.derived v ds (h v hv)

theorem Lasting.promote (h : ∀ v ∈ s.scope.vars, P v) {v : Variable} (hv : P v) (r : Reachable)
    (e : Variable → Event) : ∀ w ∈ (s.promote r v e).scope.vars, P w := by
  unfold State.promote Variable.promote?
  split
  · exact h
  · rename_i v' hv'
    refine Scope.forall_update h v.name fun _ _ => ?_
    split at hv'
    · rename_i hsource
      split at hv'
      · obtain rfl := Option.some.inj hv'
        exact hP.promoted v r hsource hv
      · cases hv'
    · cases hv'

theorem Step.lasting (hstep : Step E root s t) (h : ∀ v ∈ s.scope.vars, P v) :
    ∀ v ∈ t.scope.vars, P v := by
  cases hstep with
  | register ident line =>
    unfold State.lookup
    split
    · exact h
    · intro v hv
      rcases List.mem_append.mp hv with hv | hv
      · exact h v hv
      · obtain rfl := List.mem_singleton.mp hv
        exact hP.registered _ ident line _
  | depend x y => exact hP.depend h x y
  | mark line =>
    unfold State.markSource
    split
    · exact h
    · exact Scope.forall_update h _ fun v hv => hP.marked v (h v hv)
  | sink x line =>
    refine sink_induction (P := fun t => ∀ v ∈ t.scope.vars, P v) x line h fun t y v r e hv _ ht => ?_
    exact hP.promote ht (ht v (Scope.mem_of_lookup? hv)) r e
  | enter r =>
    intro v hv
    obtain ⟨w, hw, rfl⟩ := List.mem_map.mp hv
    exact hP.stamped w r (h w hw)
  | _ => exact h

theorem Steps.lasting (hsteps : Steps E root s t) (h : ∀ v ∈ s.scope.vars, P v) :
    ∀ v ∈ t.scope.vars, P v := by
  induction hsteps with
  | refl => exact h
  | tail _ hstep ih => exact hstep.lasting hP ih

end

/-! ### Analysed scopes -/

/-- The scope that the analysis of some function gives. -/
def Analysed (s : Scope) : Prop := ∃ E fn, (analyzeFunction E fn).result = .ok s

section
variable {E : Setting} {id : NodeId} {line : Int} {name : String}
  {params body : List (Option NodeId)}
  {locals : List String} (hfn : E.graph.node? id = some ⟨line, .function name params body locals⟩)
include hfn

/-- What a function holds is walked in steps. -/
theorem held_steps {cs : List (Option NodeId)} (hcs : cs ⊆ params ++ body) (s : State) :
    Steps E id s (visitAll (walk E [id]) cs s) := by
  refine (Steps.refl s).foldl cs fun s c hc => walk_steps (fun d hd => ?_) s
  have hbelow : E.graph.Below id d := Graph.holds_child hfn (hcs hc) d hd
  exact ⟨hbelow.to_reflTransGen, fun p hp => List.mem_singleton.mp hp ▸ hbelow⟩

/-- What the analysis of a function does is a sequence of steps. -/
theorem function_steps (s : State) :
    Steps E id s (visitAll (walk E [id]) body (visitAll (walk E [id]) params s)) :=
  (held_steps hfn (List.subset_append_left params body) s).trans
    (held_steps hfn (List.subset_append_right params body) _)

end

theorem exists_steps {E : Setting} {fn : Option NodeId} {s : Scope}
    (h : (analyzeFunction E fn).result = .ok s) :
    ∃ id name line e t, fn = some id ∧ t.scope = s ∧
      Steps E id (({ scope := { name := idText name line } } : State).tell e) t := by
  unfold analyzeFunction at h
  split at h
  · rename_i id line name params body locals hfn
    simp only at h
    split at h
    · cases h
    · obtain rfl := Except.ok.inj h
      exact ⟨id, name, line, .opened (idText name line), _, rfl, rfl, function_steps hfn _⟩
  · cases h

/-- A function without a cycle is analysed. -/
theorem exists_analyzeFunction {E : Setting} {id : NodeId} {line : Int} {name : String}
    {params body : List (Option NodeId)} {locals : List String}
    (hfn : E.graph.node? id = some ⟨line, .function name params body locals⟩)
    (hacyclic : ¬ E.graph.Cyclic id) : ∃ s, (analyzeFunction E (some id)).result = .ok s := by
  have hat : E.graph.at? (some id) = some ⟨line, .function name params body locals⟩ := hfn
  unfold analyzeFunction
  simp only [hat]
  rw [(function_steps hfn _).fault hacyclic]
  exact ⟨_, rfl⟩

theorem lasting_of_analyzeFunction {E : Setting} {fn : Option NodeId} {s : Scope}
    (h : (analyzeFunction E fn).result = .ok s) {P : Variable → Prop}
    (hP : Lasting E.declared P) : ∀ v ∈ s.vars, P v := by
  obtain ⟨id, name, line, e, t, _, rfl, hsteps⟩ := exists_steps h
  exact hsteps.lasting hP fun _ hv => by cases hv

theorem idText_ne (name : String) (line : Int) : idText name line ≠ "" := by
  intro h
  have hchars := congrArg String.toList h
  simp [idText] at hchars

namespace Analysed

variable {s : Scope}

theorem judged (h : Analysed s) : s.Judged := by
  obtain ⟨E, fn, h⟩ := h
  refine lasting_of_analyzeFunction h ⟨?_, fun _ _ h => h, fun _ h => h, ?_, fun _ _ h => h⟩
  · exact fun _ _ _ _ => List.mem_cons_self
  · exact fun _ r _ _ => r.taint_mem

/-- It has grown from the empty scope of its name. -/
theorem exists_extends (h : Analysed s) : ∃ name line, Extends { name := idText name line } s := by
  obtain ⟨E, fn, h⟩ := h
  obtain ⟨id, name, line, e, t, _, rfl, hsteps⟩ := exists_steps h
  exact ⟨name, line, hsteps.extends (Scope.wellFormed_of_empty rfl)⟩

theorem home (h : Analysed s) : s.home = 0 := by
  obtain ⟨name, line, hgrown⟩ := h.exists_extends
  exact hgrown.grows.home

theorem regular (h : Analysed s) : s.Regular where
  wellFormed := by
    obtain ⟨name, line, hgrown⟩ := h.exists_extends
    exact hgrown.wellFormed
  named := by
    obtain ⟨name, line, hgrown⟩ := h.exists_extends
    rw [hgrown.grows.name]
    exact idText_ne name line
  taint v hv := by
    have hrank : ∀ t ∈ [Taint.clean, .may, .must], 0 ≤ t.rank := by decide
    exact hrank _ (h.judged v hv)

end Analysed

/-- How a function of a program is analysed: against its own declarations. -/
def ownSetting (g : Graph) (endpoints : Endpoints) (fn : Option NodeId) : Setting :=
  { graph := g, endpoints, declared := some (declaredBy g fn).contains }

/-- The functions of a program are analysed one by one. -/
theorem analyzeAll_eq_ok {g : Graph} {endpoints : Endpoints} {fns : List (Option NodeId)}
    {scopes : List Scope} : (analyzeAll g endpoints fns).result = .ok scopes ↔
      List.Forall₂ (fun fn s => (analyzeFunction (ownSetting g endpoints fn) fn).result = .ok s)
        fns scopes := by
  induction fns generalizing scopes with
  | nil =>
    rw [List.forall₂_nil_left_iff]
    exact ⟨fun h => (Except.ok.inj h).symm, fun h => h ▸ rfl⟩
  | cons fn rest ih =>
    rw [List.forall₂_cons_left_iff, analyzeAll]
    simp only [← ih]
    cases hone : (analyzeFunction (ownSetting g endpoints fn) fn).result with
    | error f =>
      unfold ownSetting at hone
      simp [hone]
    | ok scope =>
      unfold ownSetting at hone
      cases (analyzeAll g endpoints rest).result with
      | error f => simp [hone, Except.map]
      | ok more => simp [hone, Except.map, eq_comm]

/-- The scopes of a program are analysed scopes. -/
theorem analysed_of_analyzeAll {g : Graph} {endpoints : Endpoints} {fns : List (Option NodeId)}
    {scopes : List Scope} (h : (analyzeAll g endpoints fns).result = .ok scopes) :
    ∀ s ∈ scopes, Analysed s := by
  have hall := analyzeAll_eq_ok.mp h
  clear h
  induction hall with
  | nil => exact fun _ hs => by cases hs
  | cons hs _ ih => exact List.forall_mem_cons.mpr ⟨⟨_, _, hs⟩, ih⟩

end Walk

end TaintReach
