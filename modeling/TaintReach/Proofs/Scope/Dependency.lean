import Mathlib.Data.Fintype.EquivFin
import Mathlib.Data.List.Nodup
import Mathlib.Order.WellFounded
import TaintReach.Proofs.Scope.Join
import TaintReach.Scope.Dependency

/-! The dependency graph of a scope, and the search for its cycles.

A scope is separate when its variables are told apart by their references and none
derives from itself or from anything twice; what its variables derive from may lie
anywhere. Of such a scope the graph can be made: the nodes are its variables by number,
the edges are those of `Scope.edges` (`dependencyGraph?_eq`), which lead from `j` to `i`
exactly if the `i`-th variable derives from the `j`-th (`mem_edges`).

Taking away what is not held keeps the vertices of every cycle, and when it stops every
vertex left has another behind it, which a finite graph without a cycle has not. So
nothing is left exactly if there is no cycle (`peel_eq_nil_iff`). -/
namespace TaintReach

namespace DependencyGraph

variable {g : DependencyGraph} {v : Variable} {d : VarRef} {ds : List VarRef} {i j : Nat}

theorem derive?_cons_of_none (hd : g.number? d = none) :
    g.derive? { v with dependents := d :: ds } = g.derive? { v with dependents := ds } := by
  simp only [derive?, List.foldlM_cons, hd, Option.bind_eq_bind, Option.bind_some]
  rfl

theorem derive?_cons_of_some (hd : g.number? d = some j) (hv : g.number? v.ref = some i)
    (hne : j ≠ i) (hnew : (j, i) ∉ g.edges) :
    g.derive? { v with dependents := d :: ds } =
      { g with edges := g.edges ++ [(j, i)] }.derive? { v with dependents := ds } := by
  have hedge : g.setEdge? j i = some { g with edges := g.edges ++ [(j, i)] } := by
    rw [setEdge?, if_neg hne, if_neg hnew]
  have hv' : g.number? ({ v with dependents := d :: ds } : Variable).ref = some i := hv
  simp only [derive?, List.foldlM_cons, hd, hv', hedge, Option.bind_eq_bind, Option.bind_some]
  rfl

end DependencyGraph

namespace Scope

/-! ### Separate scopes -/

structure Separate (s : Scope) : Prop where
  names : s.names.Nodup
  home : ∀ v ∈ s.vars, v.home = s.home
  irreflexive : ∀ v ∈ s.vars, v.ref ∉ v.dependents
  distinct : ∀ v ∈ s.vars, v.dependents.Nodup

theorem WellFormed.separate {s : Scope} (h : s.WellFormed) : s.Separate :=
  ⟨h.names, h.home, h.irreflexive, h.distinct⟩

namespace Separate

variable {s : Scope} (h : s.Separate)
include h

theorem add {v : Variable} (hfresh : s.lookup? v.name = none) (hnone : v.dependents = []) :
    (s.add v).Separate := by
  have hmem : ∀ w ∈ (s.add v).vars, w ∈ s.vars ∨ w = { v with home := s.home } := by
    intro w hw
    simpa [Scope.add] using hw
  have hnot : v.name ∉ s.names := by
    intro hin
    obtain ⟨w, hw⟩ := mem_names_iff.mp hin
    rw [hfresh] at hw
    cases hw
  constructor
  · simp only [Scope.names, Scope.add, List.map_append, List.map_cons, List.map_nil]
    exact List.Nodup.append h.names (List.nodup_singleton _) (List.disjoint_singleton.mpr hnot)
  · intro w hw
    rcases hmem w hw with hw | rfl
    · exact h.home w hw
    · rfl
  · intro w hw
    rcases hmem w hw with hw | rfl
    · exact h.irreflexive w hw
    · simp [hnone]
  · intro w hw
    rcases hmem w hw with hw | rfl
    · exact h.distinct w hw
    · simp [hnone]

/-- A change of each variable that keeps its reference and leaves its dependents in order. -/
theorem map {f : Variable → Variable} (href : ∀ v, (f v).ref = v.ref)
    (hirr : ∀ v ∈ s.vars, v.ref ∉ (f v).dependents)
    (hdist : ∀ v ∈ s.vars, (f v).dependents.Nodup) :
    ({ s with vars := s.vars.map f } : Scope).Separate := by
  have hname : Variable.name ∘ f = Variable.name := by
    funext v
    exact congrArg VarRef.name (href v)
  constructor
  · simp only [Scope.names, List.map_map, hname]
    exact h.names
  · intro w hw
    obtain ⟨v, hv, rfl⟩ := List.mem_map.mp hw
    exact (congrArg VarRef.home (href v)).trans (h.home v hv)
  · intro w hw
    obtain ⟨v, hv, rfl⟩ := List.mem_map.mp hw
    rw [href v]
    exact hirr v hv
  · intro w hw
    obtain ⟨v, hv, rfl⟩ := List.mem_map.mp hw
    exact hdist v hv

theorem update {f : Variable → Variable} (n : String) (href : ∀ v, (f v).ref = v.ref)
    (hdep : ∀ v, (f v).dependents = v.dependents) : (s.update n f).Separate := by
  have hsame : ∀ v, (if v.name = n then f v else v).dependents = v.dependents := by
    intro v
    split
    · exact hdep v
    · rfl
  refine h.map (fun v => ?_) (fun v hv => ?_) fun v hv => ?_
  · split
    · exact href v
    · rfl
  · rw [hsame]
    exact h.irreflexive v hv
  · rw [hsame]
    exact h.distinct v hv

/-- A variable may come to derive from any other, of whatever scope. -/
theorem dependOn (n : String) (o : Variable) : (s.update n (·.addDependency o)).Separate := by
  refine h.map (fun v => ?_) (fun v hv => ?_) fun v hv => ?_
  · split
    · exact (v.grows_addDependency o).ref
    · rfl
  · split
    · intro hself
      rcases Variable.mem_addDependency.mp hself with hold | ⟨_, hne, _⟩
      · exact h.irreflexive v hv hold
      · exact hne rfl
    · exact h.irreflexive v hv
  · split
    · exact Variable.nodup_addDependency o (h.distinct v hv)
    · exact h.distinct v hv

theorem stamp (r : Reachable) : (s.stamp r).Separate :=
  h.map (fun _ => rfl) h.irreflexive h.distinct

/-- A reference leads to one place at most. -/
theorem findIdx?_ref {d : VarRef} {j : Nat} :
    s.vars.findIdx? (·.ref = d) = some j ↔ ∃ w, s.vars[j]? = some w ∧ w.ref = d := by
  constructor
  · intro hj
    obtain ⟨hlt, href, _⟩ := List.findIdx?_eq_some_iff_getElem.mp hj
    exact ⟨s.vars[j], List.getElem?_eq_getElem hlt, by simpa using href⟩
  · rintro ⟨w, hw, rfl⟩
    obtain ⟨hlt, rfl⟩ := List.getElem?_eq_some_iff.mp hw
    refine List.findIdx?_eq_some_iff_getElem.mpr ⟨hlt, by simp, fun k hk => ?_⟩
    -- an earlier variable of the same reference would have the same name
    intro hsame
    have hname : (s.names)[k]? = (s.names)[j]? := by
      rw [Scope.names, List.getElem?_map, List.getElem?_map, List.getElem?_eq_getElem hlt,
        List.getElem?_eq_getElem (Nat.lt_trans hk hlt)]
      exact congrArg (fun r : VarRef => some r.name) (of_decide_eq_true hsame)
    have hbound : k < s.names.length := by
      rw [Scope.names, List.length_map]
      exact Nat.lt_trans hk hlt
    exact Nat.ne_of_lt hk ((List.getElem?_inj hbound h.names).mp hname)

/-! ### Edges -/

theorem mem_predecessors {v : Variable} {j : Nat} :
    j ∈ s.predecessors v ↔ ∃ w, s.vars[j]? = some w ∧ w.ref ∈ v.dependents := by
  unfold predecessors
  rw [List.mem_filterMap]
  constructor
  · rintro ⟨d, hd, hj⟩
    obtain ⟨w, hw, rfl⟩ := h.findIdx?_ref.mp hj
    exact ⟨w, hw, hd⟩
  · rintro ⟨w, hw, hd⟩
    exact ⟨w.ref, hd, h.findIdx?_ref.mpr ⟨w, hw, rfl⟩⟩

/-- **Edges are dependencies.** -/
theorem mem_edges {j i : Nat} : (j, i) ∈ s.edges ↔
    ∃ v w, s.vars[i]? = some v ∧ s.vars[j]? = some w ∧ w.ref ∈ v.dependents := by
  unfold edges
  simp only [List.mem_flatMap, List.mem_map, Prod.exists, List.mk_mem_zipIdx_iff_getElem?,
    Prod.mk.injEq]
  constructor
  · rintro ⟨v, k, hv, l, hl, rfl, rfl⟩
    obtain ⟨w, hw, hd⟩ := h.mem_predecessors.mp hl
    exact ⟨v, w, hv, hw, hd⟩
  · rintro ⟨v, w, hv, hw, hd⟩
    exact ⟨v, i, hv, j, h.mem_predecessors.mpr ⟨w, hw, hd⟩, rfl, rfl⟩

/-! ### The graph -/

omit h in
/-- Nodes get the numbers from `n` on, which are not taken. -/
theorem addNodes {n : Nat} {g : DependencyGraph} (vs : List Variable)
    (hfree : ∀ p ∈ g.nodes, p.1 < n) :
    (vs.zipIdx n).foldlM (fun (g : DependencyGraph) (v, i) => g.addNode? i v) g =
      some { g with nodes := g.nodes ++ (vs.zipIdx n).map Prod.swap } := by
  induction vs generalizing n g with
  | nil => simp
  | cons v vs ih =>
    have hadd : g.addNode? n v = some { g with nodes := g.nodes ++ [(n, v)] } := by
      refine if_neg ?_
      simp only [List.any_eq_true, decide_eq_true_eq, not_exists, not_and]
      exact fun p hp => Nat.ne_of_lt (hfree p hp)
    rw [List.zipIdx_cons, List.foldlM_cons]
    simp only [hadd, Option.bind_eq_bind, Option.bind_some]
    rw [ih]
    · simp
    · intro p hp
      rcases List.mem_append.mp hp with hp | hp
      · exact Nat.lt_succ_of_lt (hfree p hp)
      · rw [List.mem_singleton.mp hp]
        exact Nat.lt_succ_self n

omit h in
/-- The number of a node is the place of its variable. -/
theorem number?_eq {g : DependencyGraph} (hnodes : g.nodes = s.vars.zipIdx.map Prod.swap)
    (d : VarRef) : g.number? d = s.vars.findIdx? (·.ref = d) := by
  unfold DependencyGraph.number?
  rw [hnodes, List.findIdx?_eq_fst_find?_zipIdx, List.find?_map, Option.map_map]
  rfl

/-- The dependents of a variable make the edges to it, since none is the variable itself
and none is told twice. -/
theorem derive?_dependents {g : DependencyGraph} (hnodes : g.nodes = s.vars.zipIdx.map Prod.swap)
    {v : Variable} {i : Nat} (hv : s.vars[i]? = some v) {ds : List VarRef} (hself : v.ref ∉ ds)
    (hdist : ds.Nodup) (hnew : ∀ j, (j, i) ∈ g.edges → ∀ w, s.vars[j]? = some w → w.ref ∉ ds) :
    g.derive? { v with dependents := ds } = some { g with
      edges := g.edges ++ (s.predecessors { v with dependents := ds }).map (·, i) } := by
  have hi : g.number? v.ref = some i := by
    rw [number?_eq hnodes]
    exact h.findIdx?_ref.mpr ⟨v, hv, rfl⟩
  induction ds generalizing g with
  | nil => simp [DependencyGraph.derive?, predecessors]
  | cons d ds ih =>
    obtain ⟨hne, hself'⟩ := List.ne_and_not_mem_of_not_mem_cons hself
    obtain ⟨hd, hdist'⟩ := List.nodup_cons.mp hdist
    have hrest := fun j hj w hw => List.not_mem_of_not_mem_cons (hnew j hj w hw)
    cases hj : g.number? d with
    | none =>
      rw [DependencyGraph.derive?_cons_of_none hj, ih hnodes hself' hdist' hrest hi]
      rw [number?_eq hnodes] at hj
      simp [predecessors, hj]
    | some j =>
      obtain ⟨w, hw, rfl⟩ := h.findIdx?_ref.mp (number?_eq hnodes d ▸ hj)
      have hji : j ≠ i := by
        rintro rfl
        exact hne (congrArg Variable.ref (Option.some.inj (hv.symm.trans hw)))
      have hfirst : (j, i) ∉ g.edges := fun hin => hnew j hin w hw List.mem_cons_self
      rw [DependencyGraph.derive?_cons_of_some hj hi hji hfirst,
        ih (g := { g with edges := g.edges ++ [(j, i)] }) hnodes hself' hdist' ?_ hi]
      · rw [number?_eq hnodes] at hj
        simp [predecessors, hj]
      · -- the edge that was set comes from a dependent that does not come again
        intro k hk u hu
        rcases List.mem_append.mp hk with hk | hk
        · exact hrest k hk u hu
        · cases List.mem_singleton.mp hk
          rw [Option.some.inj (hu.symm.trans hw)]
          exact hd

theorem derive?_eq {g : DependencyGraph} (hnodes : g.nodes = s.vars.zipIdx.map Prod.swap)
    {v : Variable} {i : Nat} (hv : s.vars[i]? = some v) (hnew : ∀ e ∈ g.edges, e.2 < i) :
    g.derive? v = some { g with edges := g.edges ++ (s.predecessors v).map (·, i) } := by
  have hmem := List.mem_of_getElem? hv
  exact h.derive?_dependents hnodes hv (h.irreflexive v hmem) (h.distinct v hmem)
    fun j hj => absurd (hnew _ hj) (Nat.lt_irrefl i)

/-- **The graph of a separate scope can be made.** -/
theorem dependencyGraph?_eq :
    s.dependencyGraph? = some { nodes := s.vars.zipIdx.map Prod.swap, edges := s.edges } := by
  -- from the `n`-th variable on, over edges that lead to earlier ones
  have hderive : ∀ (vs : List Variable) (n : Nat) (g : DependencyGraph),
      g.nodes = s.vars.zipIdx.map Prod.swap → s.vars.drop n = vs → (∀ e ∈ g.edges, e.2 < n) →
      vs.foldlM DependencyGraph.derive? g = some { g with
        edges := g.edges ++ (vs.zipIdx n).flatMap fun p => (s.predecessors p.1).map (·, p.2) } := by
    intro vs
    induction vs with
    | nil => intros; simp
    | cons v vs ih =>
      intro n g hnodes hdrop hnew
      have hv : s.vars[n]? = some v := by
        rw [← List.head?_drop, hdrop]
        rfl
      have hdrop' : s.vars.drop (n + 1) = vs := by
        rw [← List.drop_drop, hdrop]
        rfl
      rw [List.foldlM_cons, h.derive?_eq hnodes hv hnew]
      simp only [Option.bind_eq_bind, Option.bind_some]
      refine (ih (n + 1) { g with edges := g.edges ++ (s.predecessors v).map (·, n) } hnodes hdrop'
        ?_).trans ?_
      swap
      · simp
      · intro e he
        rcases List.mem_append.mp he with he | he
        · exact Nat.lt_succ_of_lt (hnew e he)
        · obtain ⟨j, _, rfl⟩ := List.mem_map.mp he
          exact Nat.lt_succ_self n
  unfold dependencyGraph?
  rw [addNodes s.vars (by simp), Option.bind_some, hderive s.vars 0 _ (by simp) rfl (by simp)]
  rfl

end Separate

/-! ### Cycles -/

section
variable {edges : List (Nat × Nat)}

/-- An edge leads from `j` to `i`. -/
def Leads (edges : List (Nat × Nat)) (j i : Nat) : Prop := (j, i) ∈ edges

theorem mem_held {rest : List Nat} {i : Nat} :
    i ∈ held edges rest ↔ i ∈ rest ∧ ∃ j ∈ rest, Leads edges j i := by
  unfold held Leads
  rw [List.mem_filter]
  refine and_congr_right fun _ => ?_
  simp only [List.any_eq_true, Bool.and_eq_true, decide_eq_true_eq, List.contains_iff_mem,
    Prod.exists]
  constructor
  · rintro ⟨j, _, he, rfl, hj⟩
    exact ⟨j, hj, he⟩
  · rintro ⟨j, hj, he⟩
    exact ⟨j, i, he, rfl, hj⟩

/-- What is taken away lies on no cycle. -/
theorem mem_peel_of_cycle {rest : List Nat}
    (hall : ∀ i, Relation.TransGen (Leads edges) i i → i ∈ rest) :
    ∀ i, Relation.TransGen (Leads edges) i i → i ∈ peel edges rest := by
  fun_induction peel edges rest with
  | case1 rest _ ih =>
    refine ih fun i hi => mem_held.mpr ⟨hall i hi, ?_⟩
    -- the vertex before `i` on its cycle lies on that cycle too
    obtain ⟨j, hij, hji⟩ := Relation.TransGen.tail'_iff.mp hi
    exact ⟨j, hall j (Relation.TransGen.head' hji hij), hji⟩
  | case2 rest _ => exact hall

/-- Whatever is left is held by something that is left. -/
theorem exists_leads_of_mem_peel {rest : List Nat} {i : Nat} (hi : i ∈ peel edges rest) :
    ∃ j ∈ peel edges rest, Leads edges j i := by
  fun_induction peel edges rest with
  | case1 rest _ ih => exact ih hi
  | case2 rest hfix =>
    have hsame : held edges rest = rest :=
      List.filter_sublist.eq_of_length_le (Nat.le_of_not_lt hfix)
    rw [← hsame] at hi
    exact (mem_held.mp hi).2

/-- **The search finds cycles.** Nothing is left exactly if there is none. -/
theorem peel_eq_nil_iff {n : Nat} (hbound : ∀ j i, Leads edges j i → i < n) :
    peel edges (List.range n) = [] ↔ ∀ i, ¬ Relation.TransGen (Leads edges) i i := by
  constructor
  · intro hnil i hi
    have hrange : ∀ k, Relation.TransGen (Leads edges) k k → k ∈ List.range n := by
      intro k hk
      obtain ⟨j, _, hjk⟩ := Relation.TransGen.tail'_iff.mp hk
      exact List.mem_range.mpr (hbound j k hjk)
    have hleft := mem_peel_of_cycle hrange i hi
    rw [hnil] at hleft
    cases hleft
  · intro hacyclic
    let Left := { i // i ∈ peel edges (List.range n) }
    let before (a b : Left) : Prop := Relation.TransGen (Leads edges) a.1 b.1
    have : IsTrans Left before := ⟨fun _ _ _ hab hbc => Relation.TransGen.trans hab hbc⟩
    have : Std.Irrefl before := ⟨fun a => hacyclic a.1⟩
    have hwf : WellFounded before := Finite.wellFounded_of_trans_of_irrefl before
    -- a first vertex among those left would have another before it
    by_contra hne
    obtain ⟨i, hi⟩ := List.exists_mem_of_ne_nil _ hne
    obtain ⟨m, -, hmin⟩ := hwf.has_min Set.univ ⟨⟨i, hi⟩, trivial⟩
    obtain ⟨j, hj, hjm⟩ := exists_leads_of_mem_peel m.2
    exact hmin ⟨j, hj⟩ trivial (.single hjm)

end

theorem Separate.acyclic_iff {s : Scope} (h : s.Separate) :
    s.acyclic = true ↔ ∀ i, ¬ Relation.TransGen (Leads s.edges) i i := by
  unfold acyclic
  rw [List.isEmpty_iff]
  refine peel_eq_nil_iff fun j i hji => ?_
  obtain ⟨v, w, hv, _⟩ := h.mem_edges.mp hji
  exact (List.getElem?_eq_some_iff.mp hv).1

end Scope

end TaintReach
