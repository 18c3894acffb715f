import TaintReach.Proofs.Scope.Dependency
import TaintReach.Proofs.Scope.Indexed
import TaintReach.Proofs.Walk.Analysed

/-! Scopes side by side.

A desk holds any number of scopes, each under its number. They are started empty, changed
one at a time and joined, and a variable of one may come to derive from a variable of
another. However a desk comes about, its scopes are separate and keep their numbers
(`Desk.tidy_run`), so a reference leads to one variable of the whole desk, and of each scope
the dependency graph can be drawn (`Scope.Separate.drawn`). -/
namespace TaintReach

namespace Scope

/-- The graph shows the dependencies among the variables of the scope, and the search for
cycles finds those of the graph. -/
structure Drawn (s : Scope) (g : DependencyGraph) : Prop where
  /-- One node for each variable, numbered in the order of registration. -/
  nodes : g.nodes = s.vars.zipIdx.map Prod.swap
  edges : ∀ j i, (j, i) ∈ g.edges ↔
    ∃ v w, s.vars[i]? = some v ∧ s.vars[j]? = some w ∧ w.ref ∈ v.dependents
  acyclic : s.acyclic = true ↔ ∀ i, ¬ Relation.TransGen (fun j i => (j, i) ∈ g.edges) i i

theorem Separate.drawn {s : Scope} (h : s.Separate) :
    ∃ g, s.dependencyGraph? = some g ∧ s.Drawn g :=
  ⟨_, h.dependencyGraph?_eq, rfl, fun _ _ => h.mem_edges, h.acyclic_iff⟩

theorem Separate.change {s : Scope} (h : s.Separate) (c : Indexed.Change) :
    (c.plain s).Separate := by
  cases c with
  | register name line =>
    simp only [Indexed.Change.plain, findOrCreate]
    cases hx : s.lookup? name with
    | none => exact h.add (v := { home := s.home, name, line }) hx rfl
    | some v => exact h
  | depend name on =>
    simp only [Indexed.Change.plain, depend]
    cases s.lookup? on with
    | none => exact h
    | some o => exact h.dependOn name o
  | mark name f => exact h.update name (fun _ => rfl) fun _ => rfl
  | stamp r => exact h.stamp r

theorem home_change (s : Scope) (c : Indexed.Change) : (c.plain s).home = s.home := by
  cases c with
  | register name line =>
    simp only [Indexed.Change.plain, findOrCreate]
    split <;> rfl
  | depend name on =>
    simp only [Indexed.Change.plain, depend]
    split <;> rfl
  | mark name f => rfl
  | stamp r => rfl

end Scope

namespace Desk

open Indexed (Change ofScope)

/-- What is done at a desk. -/
inductive Act where
  | start (name : String)
  | change (scope : Nat) (c : Change)
  /-- A variable of one scope comes to derive from a variable of the same or another. -/
  | derive (scope : Nat) (name : String) (origin : Nat) (on : String)
  | join (a b : Option Nat)

/-- Carries out an act. A new scope gets the next number. -/
def perform (desk : List Indexed) : Act → List Indexed
  | .start name => desk ++ [Indexed.new name desk.length]
  | .change k c => desk.modify k (·.perform c)
  | .derive k name l on =>
    ((desk[l]?).bind (·.lookup? on)).elim desk fun o =>
      desk.modify k (·.dependOn name o.content)
  | .join a b => desk ++ [Indexed.join desk.length (a.bind (desk[·]?)) (b.bind (desk[·]?))]

/-- The desk after some acts. -/
def run (acts : List Act) : List Indexed := acts.foldl perform []

/-- The scope stands at its number and is the indexed form of a separate scope. -/
def Placed (k : Nat) (s : Indexed) : Prop := ∃ t : Scope, s = ofScope t ∧ t.Separate ∧ t.home = k

def Tidy (desk : List Indexed) : Prop := ∀ k s, desk[k]? = some s → Placed k s

theorem Tidy.concat {desk : List Indexed} (h : Tidy desk) {s : Indexed}
    (hs : Placed desk.length s) : Tidy (desk ++ [s]) := by
  intro k t ht
  rcases Nat.lt_trichotomy k desk.length with hk | rfl | hk
  · rw [List.getElem?_append_left hk] at ht
    exact h k t ht
  · rw [List.getElem?_concat_length] at ht
    exact Option.some.inj ht ▸ hs
  · rw [List.getElem?_eq_none (by simp; omega)] at ht
    cases ht

theorem Tidy.modify {desk : List Indexed} (h : Tidy desk) (k : Nat) {f : Indexed → Indexed}
    (hf : ∀ s, Placed k s → Placed k (f s)) : Tidy (desk.modify k f) := by
  intro j t ht
  rw [List.getElem?_modify] at ht
  obtain ⟨s, hs, rfl⟩ := Option.map_eq_some_iff.mp ht
  by_cases hjk : k = j
  · subst hjk
    simpa using hf s (h k s hs)
  · simpa [hjk] using h j s hs

theorem Tidy.perform {desk : List Indexed} (h : Tidy desk) (a : Act) : Tidy (perform desk a) := by
  cases a with
  | start name =>
    exact h.concat ⟨Scope.new name desk.length, rfl,
      (Scope.wellFormed_of_empty rfl).separate, rfl⟩
  | change k c =>
    refine h.modify k ?_
    rintro _ ⟨t, rfl, ht, rfl⟩
    exact ⟨c.plain t, Indexed.perform_ofScope ht.names c, ht.change c, t.home_change c⟩
  | derive k name l on =>
    simp only [Desk.perform]
    cases (desk[l]?).bind (·.lookup? on) with
    | none => exact h
    | some o =>
      refine h.modify k ?_
      rintro _ ⟨t, rfl, ht, rfl⟩
      exact ⟨_, Indexed.dependOn_ofScope ht.names name o.content, ht.dependOn name o.content, rfl⟩
  | join a b =>
    obtain ⟨name, heq⟩ := Indexed.join_eq_ofScope desk.length (a.bind (desk[·]?)) (b.bind (desk[·]?))
    exact h.concat ⟨_, heq, (Indexed.wellFormed_passes ..).separate, (Scope.passes_keep _ _).2⟩

theorem tidy_run (acts : List Act) : Tidy (run acts) := by
  have hfrom : ∀ (acts : List Act) {desk : List Indexed}, Tidy desk → Tidy (acts.foldl Desk.perform desk) := by
    intro acts
    induction acts with
    | nil => exact fun h => h
    | cons a acts ih => exact fun h => ih (h.perform a)
  exact hfrom acts (fun k s hs => by cases hs)

/-- A reference leads to one variable of the whole desk. -/
theorem Tidy.eq_of_ref {desk : List Indexed} (h : Tidy desk) {k l : Nat} {s t : Indexed}
    (hs : desk[k]? = some s) (ht : desk[l]? = some t) {v w : Variable} (hv : v ∈ s.plain.vars)
    (hw : w ∈ t.plain.vars) (href : v.ref = w.ref) : k = l ∧ v = w := by
  obtain ⟨a, rfl, ha, rfl⟩ := h k s hs
  obtain ⟨b, rfl, hb, rfl⟩ := h l t ht
  rw [Indexed.plain_ofScope] at hv hw
  have hhome : a.home = b.home := by
    rw [← ha.home v hv, ← hb.home w hw]
    exact congrArg VarRef.home href
  rw [hhome, ht] at hs
  have hab : b = a := by
    have := congrArg Indexed.plain (Option.some.inj hs)
    rwa [Indexed.plain_ofScope, Indexed.plain_ofScope] at this
  subst hab
  exact ⟨rfl, List.inj_on_of_nodup_map ha.names hv hw (congrArg VarRef.name href)⟩

/-- **The graph shows the dependencies, and the search finds its cycles.** Of every scope at
a desk, and of every scope that an analysis gives, the dependency graph can be made. It has
the variables as nodes, numbered in the order of registration, and an edge from `j` to `i`
exactly if the `i`-th variable derives from the `j`-th; what lies in another scope has no
part in it, as a reference leads to one variable of the desk. The scope counts as acyclic
exactly if this graph has no directed cycle. -/
theorem graphs_drawn :
    (∀ acts, ∀ s ∈ run acts, ∃ g, s.plain.dependencyGraph? = some g ∧ s.plain.Drawn g) ∧
    (∀ s, Walk.Analysed s → ∃ g, s.dependencyGraph? = some g ∧ s.Drawn g) ∧
    (∀ acts (k l : Nat) (s t : Indexed), (run acts)[k]? = some s → (run acts)[l]? = some t →
      ∀ v ∈ s.plain.vars, ∀ w ∈ t.plain.vars, v.ref = w.ref → k = l ∧ v = w) := by
  refine ⟨fun acts s hs => ?_, fun s hs => hs.regular.wellFormed.separate.drawn,
    fun acts k l s t hs ht v hv w hw => (tidy_run acts).eq_of_ref hs ht hv hw⟩
  obtain ⟨k, hk⟩ := List.mem_iff_getElem?.mp hs
  obtain ⟨t, rfl, ht, _⟩ := tidy_run acts k s hk
  rw [Indexed.plain_ofScope]
  exact ht.drawn

/-- Two scopes: in the first `y` and `z` come to derive from each other, in the second `w`
derives from variables of the first. -/
def entwined : List Act :=
  [.start "f", .start "g", .change 0 (.register "x" 1), .change 0 (.register "y" 2),
    .change 0 (.register "z" 3), .change 1 (.register "w" 4), .derive 0 "x" 0 "y",
    .derive 0 "y" 0 "z", .derive 0 "z" 0 "x", .derive 0 "x" 1 "w", .derive 1 "w" 0 "y"]

theorem graphs_drawn_entwined :
    ∃ s t, run entwined = [s, t] ∧
      s.plain.dependencyGraph?.map DependencyGraph.edges = some [(1, 0), (2, 1), (1, 2)] ∧
      s.plain.acyclic = false ∧
      t.plain.dependencyGraph?.map DependencyGraph.edges = some [] ∧ t.plain.acyclic = true := by
  obtain ⟨s, t, hrun, hs, ht⟩ : ∃ s t, run entwined = [s, t] ∧
      s.plain.dependencyGraph?.map DependencyGraph.edges = some [(1, 0), (2, 1), (1, 2)] ∧
      t.plain.dependencyGraph?.map DependencyGraph.edges = some [] :=
    ⟨_, _, rfl, by decide +kernel, by decide +kernel⟩
  obtain ⟨g, hg, hdrawn⟩ := graphs_drawn.1 entwined s (by simp [hrun])
  obtain ⟨g', hg', hdrawn'⟩ := graphs_drawn.1 entwined t (by simp [hrun])
  have hedges : g.edges = [(1, 0), (2, 1), (1, 2)] := by simpa [hg] using hs
  have hedges' : g'.edges = [] := by simpa [hg'] using ht
  refine ⟨s, t, hrun, hs, ?_, ht, ?_⟩
  · rw [← Bool.not_eq_true, hdrawn.acyclic, hedges]
    exact fun hnone => hnone 1 (.head (b := 2) (by decide) (.single (by decide)))
  · rw [hdrawn'.acyclic, hedges']
    intro i hi
    obtain ⟨j, _, hj⟩ := Relation.TransGen.tail'_iff.mp hi
    cases hj

end Desk

end TaintReach
