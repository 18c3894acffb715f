import Mathlib.Data.List.Nodup
import TaintReach.Scope

/-! The representation of a scope, and what its operations do to it.

A scope is well formed when names are unique and every dependent is a registered
variable of the same scope, told once and never the variable itself. All
operations keep that. They also only add: `Grows` says that a scope keeps its
variables in their order, each with its name, line and mark of escape, and that
marks, verdicts and dependents never get fewer.

Two relations read a scope by name. `Derives s x z` says that `z` is among the
dependents of `x`, and `Carries s x z` that the source `z` is `x` itself or
among its dependents, which is what a sink looks for. -/
namespace TaintReach

namespace Variable

/-! ### Dependents -/

theorem mem_addDependent {v : Variable} {d e : VarRef} :
    e ∈ (v.addDependent d).dependents ↔ e ∈ v.dependents ∨ (e = d ∧ e ≠ v.ref) := by
  unfold addDependent
  split
  · rename_i h
    constructor
    · exact Or.inl
    · rintro (h' | ⟨rfl, hne⟩)
      · exact h'
      · exact h.resolve_left hne
  · rename_i h
    have hne : d ≠ v.ref := fun hd => h (Or.inl hd)
    simp only [List.mem_append, List.mem_singleton]
    constructor
    · rintro (h' | rfl)
      · exact Or.inl h'
      · exact Or.inr ⟨rfl, hne⟩
    · rintro (h' | ⟨rfl, _⟩)
      · exact Or.inl h'
      · exact Or.inr rfl

theorem addDependent_eq (v : Variable) (d : VarRef) :
    ∃ ds, v.addDependent d = { v with dependents := ds } := by
  unfold addDependent
  split
  · exact ⟨v.dependents, rfl⟩
  · exact ⟨_, rfl⟩

/-- Deriving from another variable changes the dependents and nothing else. -/
theorem addDependency_eq (v o : Variable) :
    ∃ ds, v.addDependency o = { v with dependents := ds } := by
  have hfold : ∀ es : List VarRef, ∃ ds, es.foldl addDependent v = { v with dependents := ds } := by
    intro es
    induction es generalizing v with
    | nil => exact ⟨v.dependents, rfl⟩
    | cons e es ih =>
      obtain ⟨ds, hds⟩ := v.addDependent_eq e
      rw [List.foldl_cons, hds]
      exact ih { v with dependents := ds }
  unfold addDependency
  split
  · exact ⟨v.dependents, rfl⟩
  · split
    · exact addDependent_eq v o.ref
    · obtain ⟨ds, hds⟩ := hfold o.dependents
      simp only [hds]
      split
      · exact addDependent_eq _ o.ref
      · exact ⟨ds, rfl⟩

/-- What may happen to a variable once it is registered. -/
structure Grows (v w : Variable) : Prop where
  ref : w.ref = v.ref
  escaped : w.escaped = v.escaped
  source : v.source = true → w.source = true
  taint : v.taint.rank ≤ w.taint.rank
  dependents : v.dependents <+: w.dependents

namespace Grows

theorem refl (v : Variable) : Grows v v :=
  ⟨rfl, rfl, fun h => h, Int.le_refl _, List.prefix_refl _⟩

theorem trans {u v w : Variable} (h : Grows u v) (k : Grows v w) : Grows u w :=
  ⟨k.ref.trans h.ref, k.escaped.trans h.escaped, fun hs => k.source (h.source hs),
    Int.le_trans h.taint k.taint,
    h.dependents.trans k.dependents⟩

theorem name {v w : Variable} (h : Grows v w) : w.name = v.name :=
  congrArg VarRef.name h.ref

end Grows

theorem grows_addDependent (v : Variable) (d : VarRef) : Grows v (v.addDependent d) := by
  unfold addDependent
  split
  · exact .refl v
  · exact ⟨rfl, rfl, fun h => h, Int.le_refl _, List.prefix_append ..⟩

theorem grows_foldl_addDependent (v : Variable) (ds : List VarRef) :
    Grows v (ds.foldl addDependent v) := by
  induction ds generalizing v with
  | nil => exact .refl v
  | cons d ds ih => exact (grows_addDependent v d).trans (ih _)

theorem mem_foldl_addDependent {v : Variable} {ds : List VarRef} {e : VarRef} :
    e ∈ (ds.foldl addDependent v).dependents ↔ e ∈ v.dependents ∨ (e ∈ ds ∧ e ≠ v.ref) := by
  induction ds generalizing v with
  | nil => simp
  | cons d ds ih =>
    rw [List.foldl_cons, ih, mem_addDependent, (grows_addDependent v d).ref, List.mem_cons]
    tauto

theorem grows_addDependency (v o : Variable) : Grows v (v.addDependency o) := by
  unfold addDependency
  split
  · exact .refl v
  · split
    · exact grows_addDependent v o.ref
    · have habsorb := grows_foldl_addDependent v o.dependents
      simp only
      split
      · exact habsorb.trans (grows_addDependent _ _)
      · exact habsorb

/-- Deriving from `o` takes over what `o` derives from, and `o` itself when it is a
source or has nothing behind it. -/
theorem mem_addDependency {v o : Variable} {e : VarRef} :
    e ∈ (v.addDependency o).dependents ↔ e ∈ v.dependents ∨
      (o.ref ≠ v.ref ∧ e ≠ v.ref ∧
        (e ∈ o.dependents ∨ (e = o.ref ∧ (o.source = true ∨ o.dependents = [])))) := by
  have hgrow := grows_foldl_addDependent v o.dependents
  unfold addDependency
  split
  · simp [*]
  · rename_i hne
    split
    · rename_i hnil
      rw [mem_addDependent, hnil]
      simp [hne, and_comm]
    · rename_i hsome
      simp only
      split
      · rename_i hs
        rw [mem_addDependent, mem_foldl_addDependent, hgrow.ref]
        simp only [hs, true_or, and_true]
        tauto
      · rename_i hs
        rw [mem_foldl_addDependent]
        simp only [hs, hsome, ne_eq, hne, not_false_eq_true, true_and]
        tauto

theorem nodup_addDependent {v : Variable} (d : VarRef) (h : v.dependents.Nodup) :
    (v.addDependent d).dependents.Nodup := by
  unfold addDependent
  split
  · exact h
  · rename_i hd
    exact List.nodup_append.mpr ⟨h, List.nodup_singleton d, by
      intro a ha b hb hab
      rw [List.mem_singleton] at hb
      exact hd (Or.inr (hb ▸ hab ▸ ha))⟩

theorem nodup_foldl_addDependent {v : Variable} (ds : List VarRef) (h : v.dependents.Nodup) :
    (ds.foldl addDependent v).dependents.Nodup := by
  induction ds generalizing v with
  | nil => exact h
  | cons d ds ih => exact ih (nodup_addDependent d h)

theorem nodup_addDependency {v : Variable} (o : Variable) (h : v.dependents.Nodup) :
    (v.addDependency o).dependents.Nodup := by
  unfold addDependency
  split
  · exact h
  · split
    · exact nodup_addDependent _ h
    · have habsorb := nodup_foldl_addDependent o.dependents h
      simp only
      split
      · exact nodup_addDependent _ habsorb
      · exact habsorb

end Variable

namespace Scope

/-! ### Looking up and changing variables -/

theorem name_of_lookup? {s : Scope} {x : String} {v : Variable} (h : s.lookup? x = some v) :
    v.name = x := by
  have := List.find?_some h
  simpa using this

theorem mem_of_lookup? {s : Scope} {x : String} {v : Variable} (h : s.lookup? x = some v) :
    v ∈ s.vars :=
  List.mem_of_find?_eq_some h

theorem exists_lookup? {s : Scope} {v : Variable} (h : v ∈ s.vars) :
    ∃ w, s.lookup? v.name = some w := by
  cases hw : s.lookup? v.name with
  | some w => exact ⟨w, rfl⟩
  | none => exact absurd (List.find?_eq_none.mp hw v h) (by simp)

theorem lookup?_add (s : Scope) (v : Variable) (x : String) :
    (s.add v).lookup? x =
      (s.lookup? x).or (if v.name = x then some { v with home := s.home } else none) := by
  simp only [lookup?, add, List.find?_append, List.find?_singleton, decide_eq_true_eq]

theorem lookup?_update {s : Scope} {f : Variable → Variable} (n x : String)
    (hf : ∀ v, (f v).name = v.name) :
    (s.update n f).lookup? x = if x = n then (s.lookup? x).map f else s.lookup? x := by
  have hname : (fun v => decide ((if v.name = n then f v else v).name = x)) =
      (fun v : Variable => decide (v.name = x)) := by
    funext v
    split <;> simp [hf]
  have hmap : (s.update n f).lookup? x =
      (s.lookup? x).map fun v => if v.name = n then f v else v := by
    simp only [lookup?, update, List.find?_map, Function.comp_def, hname]
  rw [hmap]
  cases hx : s.lookup? x with
  | none => simp
  | some v =>
    rw [Option.map_some, Option.map_some, name_of_lookup? hx]
    split <;> rfl

theorem lookup?_depend {s : Scope} {x y : String} {o : Variable} (ho : s.lookup? y = some o)
    (a : String) : (s.depend x y).lookup? a =
      if a = x then (s.lookup? a).map (·.addDependency o) else s.lookup? a := by
  unfold depend
  rw [ho]
  exact lookup?_update x a fun v => (Variable.grows_addDependency v o).name

/-! ### Growth -/

/-- A later scope keeps the variables of an earlier one in their places, each grown. -/
structure Grows (s t : Scope) : Prop where
  home : t.home = s.home
  name : t.name = s.name
  vars : ∀ (i : Nat) (v : Variable), s.vars[i]? = some v →
    ∃ w, t.vars[i]? = some w ∧ Variable.Grows v w

namespace Grows

theorem refl (s : Scope) : Grows s s :=
  ⟨rfl, rfl, fun _ v h => ⟨v, h, .refl v⟩⟩

theorem trans {s t u : Scope} (h : Grows s t) (k : Grows t u) : Grows s u := by
  refine ⟨k.home.trans h.home, k.name.trans h.name, fun i v hv => ?_⟩
  obtain ⟨w, hw, hvw⟩ := h.vars i v hv
  obtain ⟨z, hz, hwz⟩ := k.vars i w hw
  exact ⟨z, hz, hvw.trans hwz⟩

/-- A variable is found again under its name. -/
theorem lookup? {s t : Scope} (h : Grows s t) {x : String} {v : Variable}
    (hv : s.lookup? x = some v) : ∃ w, t.lookup? x = some w ∧ Variable.Grows v w := by
  obtain ⟨hx, i, hi, rfl, hbefore⟩ := List.find?_eq_some_iff_getElem.mp hv
  obtain ⟨w, hw, hgrow⟩ := h.vars i _ (List.getElem?_eq_getElem hi)
  obtain ⟨hi', rfl⟩ := List.getElem?_eq_some_iff.mp hw
  refine ⟨_, List.find?_eq_some_iff_getElem.mpr ⟨by simpa [hgrow.name] using hx, i, hi', rfl, ?_⟩,
    hgrow⟩
  -- no earlier variable has the name, since each kept its own
  intro j hj
  obtain ⟨u, hu, hgrowj⟩ := h.vars j _ (List.getElem?_eq_getElem (Nat.lt_trans hj hi))
  obtain ⟨_, rfl⟩ := List.getElem?_eq_some_iff.mp hu
  simpa [hgrowj.name] using hbefore j hj

end Grows

theorem grows_add (s : Scope) (v : Variable) : Grows s (s.add v) := by
  refine ⟨rfl, rfl, fun i u hu => ⟨u, ?_, .refl u⟩⟩
  obtain ⟨hi, _⟩ := List.getElem?_eq_some_iff.mp hu
  rw [add, List.getElem?_append_left hi]
  exact hu

/-- Changing variables one by one grows a scope if each change does. -/
theorem grows_map {s : Scope} {f : Variable → Variable}
    (hf : ∀ v ∈ s.vars, Variable.Grows v (f v)) : Grows s { s with vars := s.vars.map f } := by
  refine ⟨rfl, rfl, fun i v hv => ⟨f v, ?_, hf v (List.mem_of_getElem? hv)⟩⟩
  rw [List.getElem?_map, hv]
  rfl

theorem grows_update {s : Scope} {f : Variable → Variable} (n : String)
    (hf : ∀ v ∈ s.vars, v.name = n → Variable.Grows v (f v)) : Grows s (s.update n f) := by
  refine grows_map fun v hv => ?_
  split
  · exact hf v hv ‹_›
  · exact .refl v

theorem grows_stamp (s : Scope) (r : Reachable) : Grows s (s.stamp r) :=
  grows_map fun _ _ => ⟨rfl, rfl, fun h => h, Int.le_refl _, List.prefix_refl _⟩

theorem grows_depend (s : Scope) (x y : String) : Grows s (s.depend x y) := by
  unfold depend
  split
  · exact .refl s
  · exact grows_update x fun v _ _ => Variable.grows_addDependency v _

/-! ### Well-formed scopes -/

structure WellFormed (s : Scope) : Prop where
  /-- A name is registered once. -/
  names : (s.vars.map Variable.name).Nodup
  home : ∀ v ∈ s.vars, v.home = s.home
  /-- Dependents are variables of the scope. -/
  registered : ∀ v ∈ s.vars, ∀ d ∈ v.dependents, ∃ w ∈ s.vars, w.ref = d
  irreflexive : ∀ v ∈ s.vars, v.ref ∉ v.dependents
  distinct : ∀ v ∈ s.vars, v.dependents.Nodup

theorem wellFormed_of_empty {s : Scope} (h : s.vars = []) : s.WellFormed := by
  constructor <;> simp [h]

namespace WellFormed

variable {s : Scope}

theorem eq_of_name (h : s.WellFormed) {v w : Variable} (hv : v ∈ s.vars) (hw : w ∈ s.vars)
    (hname : v.name = w.name) : v = w :=
  List.inj_on_of_nodup_map h.names hv hw hname

theorem lookup?_name (h : s.WellFormed) {v : Variable} (hv : v ∈ s.vars) :
    s.lookup? v.name = some v := by
  obtain ⟨w, hw⟩ := exists_lookup? hv
  rw [hw, h.eq_of_name (mem_of_lookup? hw) hv (name_of_lookup? hw)]

/-- A dependent is found by its name. -/
theorem lookup?_dependent (h : s.WellFormed) {v : Variable} (hv : v ∈ s.vars) {d : VarRef}
    (hd : d ∈ v.dependents) : ∃ w, s.lookup? d.name = some w ∧ w.ref = d := by
  obtain ⟨w, hw, rfl⟩ := h.registered v hv d hd
  exact ⟨w, h.lookup?_name hw, rfl⟩

/-- Inside one scope, references agree when names do. -/
theorem ref_eq_iff (h : s.WellFormed) {v w : Variable} (hv : v ∈ s.vars) (hw : w ∈ s.vars) :
    v.ref = w.ref ↔ v.name = w.name :=
  ⟨congrArg VarRef.name, fun hname => congrArg Variable.ref (h.eq_of_name hv hw hname)⟩

theorem add (h : s.WellFormed) {v : Variable} (hfresh : s.lookup? v.name = none)
    (hnone : v.dependents = []) : (s.add v).WellFormed := by
  have hmem : ∀ w, w ∈ (s.add v).vars ↔ w ∈ s.vars ∨ w = { v with home := s.home } := by
    intro w
    simp [Scope.add]
  constructor
  · have hnot : v.name ∉ s.vars.map Variable.name := by
      rintro hin
      obtain ⟨w, hw, hname⟩ := List.mem_map.mp hin
      obtain ⟨u, hu⟩ := exists_lookup? hw
      rw [hname, hfresh] at hu
      cases hu
    simp only [Scope.add, List.map_append, List.map_cons, List.map_nil]
    exact List.nodup_append.mpr ⟨h.names, List.nodup_singleton _, by
      intro a ha b hb hab
      rw [List.mem_singleton] at hb
      exact hnot (hb ▸ hab ▸ ha)⟩
  · intro w hw
    rcases (hmem w).mp hw with hw | rfl
    · exact h.home w hw
    · rfl
  · intro w hw d hd
    rcases (hmem w).mp hw with hw | rfl
    · obtain ⟨u, hu, hud⟩ := h.registered w hw d hd
      exact ⟨u, (hmem u).mpr (Or.inl hu), hud⟩
    · simp [hnone] at hd
  · intro w hw
    rcases (hmem w).mp hw with hw | rfl
    · exact h.irreflexive w hw
    · simp [hnone]
  · intro w hw
    rcases (hmem w).mp hw with hw | rfl
    · exact h.distinct w hw
    · simp [hnone]

/-- A change of each variable that keeps its reference and leaves its dependents in
order keeps a scope well formed. -/
theorem map (h : s.WellFormed) {f : Variable → Variable} (href : ∀ v, (f v).ref = v.ref)
    (hreg : ∀ v ∈ s.vars, ∀ d ∈ (f v).dependents, ∃ w ∈ s.vars, w.ref = d)
    (hirr : ∀ v ∈ s.vars, v.ref ∉ (f v).dependents)
    (hdist : ∀ v ∈ s.vars, (f v).dependents.Nodup) :
    ({ s with vars := s.vars.map f } : Scope).WellFormed := by
  have hname : Variable.name ∘ f = Variable.name := by
    funext v
    exact congrArg VarRef.name (href v)
  constructor
  · rw [List.map_map, hname]
    exact h.names
  · intro w hw
    obtain ⟨v, hv, rfl⟩ := List.mem_map.mp hw
    exact (congrArg VarRef.home (href v)).trans (h.home v hv)
  · intro w hw d hd
    obtain ⟨v, hv, rfl⟩ := List.mem_map.mp hw
    obtain ⟨u, hu, rfl⟩ := hreg v hv d hd
    exact ⟨f u, List.mem_map_of_mem hu, href u⟩
  · intro w hw
    obtain ⟨v, hv, rfl⟩ := List.mem_map.mp hw
    rw [href v]
    exact hirr v hv
  · intro w hw
    obtain ⟨v, hv, rfl⟩ := List.mem_map.mp hw
    exact hdist v hv

/-- A change that leaves references and dependents alone. -/
theorem update (h : s.WellFormed) {f : Variable → Variable} (n : String)
    (href : ∀ v, (f v).ref = v.ref) (hdep : ∀ v, (f v).dependents = v.dependents) :
    (s.update n f).WellFormed := by
  refine h.map ?_ ?_ ?_ ?_
  · intro v
    split <;> simp [href]
  · intro v hv d hd
    refine h.registered v hv d ?_
    split at hd
    · rwa [hdep] at hd
    · exact hd
  · intro v hv
    split
    · rw [hdep]
      exact h.irreflexive v hv
    · exact h.irreflexive v hv
  · intro v hv
    split
    · rw [hdep]
      exact h.distinct v hv
    · exact h.distinct v hv

theorem stamp (h : s.WellFormed) (r : Reachable) : (s.stamp r).WellFormed :=
  h.map (fun _ => rfl) h.registered h.irreflexive h.distinct

theorem depend (h : s.WellFormed) (x y : String) : (s.depend x y).WellFormed := by
  unfold Scope.depend
  split
  · exact h
  · rename_i o ho
    have hmem := mem_of_lookup? ho
    refine h.map ?_ ?_ ?_ ?_
    · intro v
      split
      · exact (Variable.grows_addDependency v o).ref
      · rfl
    · intro v hv d hd
      split at hd
      · rcases Variable.mem_addDependency.mp hd with hd | ⟨_, _, hd | ⟨rfl, _⟩⟩
        · exact h.registered v hv d hd
        · exact h.registered o hmem d hd
        · exact ⟨o, hmem, rfl⟩
      · exact h.registered v hv d hd
    · intro v hv hd
      split at hd
      · rcases Variable.mem_addDependency.mp hd with hd | ⟨_, hne, _⟩
        · exact h.irreflexive v hv hd
        · exact hne rfl
      · exact h.irreflexive v hv hd
    · intro v hv
      split
      · exact Variable.nodup_addDependency o (h.distinct v hv)
      · exact h.distinct v hv

end WellFormed

/-! ### What a variable derives from -/

/-- `z` is registered as a source. -/
def Marked (s : Scope) (z : String) : Prop :=
  ∃ w, s.lookup? z = some w ∧ w.source = true

/-- `z` is among the dependents of `x`. -/
def Derives (s : Scope) (x z : String) : Prop :=
  ∃ v w, s.lookup? x = some v ∧ s.lookup? z = some w ∧ w.ref ∈ v.dependents

/-- A sink that meets `x` finds the source `z`. -/
def Carries (s : Scope) (x z : String) : Prop :=
  s.Marked z ∧ (z = x ∨ s.Derives x z)

theorem Marked.mono {s t : Scope} (h : Grows s t) {z : String} (hz : s.Marked z) :
    t.Marked z := by
  obtain ⟨w, hw, hs⟩ := hz
  obtain ⟨w', hw', hgrow⟩ := h.lookup? hw
  exact ⟨w', hw', hgrow.source hs⟩

theorem Derives.mono {s t : Scope} (h : Grows s t) {x z : String} (hxz : s.Derives x z) :
    t.Derives x z := by
  obtain ⟨v, w, hv, hw, hmem⟩ := hxz
  obtain ⟨v', hv', hgrowv⟩ := h.lookup? hv
  obtain ⟨w', hw', hgroww⟩ := h.lookup? hw
  exact ⟨v', w', hv', hw', hgroww.ref ▸ hgrowv.dependents.subset hmem⟩

theorem Carries.mono {s t : Scope} (h : Grows s t) {x z : String} (hxz : s.Carries x z) :
    t.Carries x z :=
  ⟨hxz.1.mono h, hxz.2.imp_right (Derives.mono h)⟩

theorem WellFormed.derives_iff {s : Scope} (h : s.WellFormed) {x z : String} :
    s.Derives x z ↔ ∃ v, s.lookup? x = some v ∧ ∃ d ∈ v.dependents, d.name = z := by
  constructor
  · rintro ⟨v, w, hv, hw, hmem⟩
    exact ⟨v, hv, w.ref, hmem, name_of_lookup? hw⟩
  · rintro ⟨v, hv, d, hd, rfl⟩
    obtain ⟨w, hw, rfl⟩ := h.lookup?_dependent (mem_of_lookup? hv) hd
    exact ⟨v, w, hv, hw, hd⟩

theorem Derives.ne {s : Scope} (h : s.WellFormed) {x z : String} (hxz : s.Derives x z) :
    z ≠ x := by
  rintro rfl
  obtain ⟨v, w, hv, hw, hmem⟩ := hxz
  obtain rfl := Option.some.inj (hv.symm.trans hw)
  exact h.irreflexive v (mem_of_lookup? hv) hmem

/-- What a new dependency adds, exactly. -/
theorem derives_depend_iff {s : Scope} (h : s.WellFormed) {x y : String} {v o : Variable}
    (hv : s.lookup? x = some v) (ho : s.lookup? y = some o) {a z : String} :
    (s.depend x y).Derives a z ↔ s.Derives a z ∨
      (a = x ∧ y ≠ x ∧ z ≠ x ∧
        (s.Derives y z ∨ (z = y ∧ (o.source = true ∨ o.dependents = [])))) := by
  have hname : ∀ {b c : Variable} {n m : String}, s.lookup? n = some b → s.lookup? m = some c →
      (b.ref = c.ref ↔ n = m) := by
    intro b c n m hb hc
    rw [h.ref_eq_iff (mem_of_lookup? hb) (mem_of_lookup? hc), name_of_lookup? hb,
      name_of_lookup? hc]
  -- references are unchanged, so only the dependents of `x` matter
  have hfind : ∀ n w', (s.depend x y).lookup? n = some w' →
      ∃ w, s.lookup? n = some w ∧ w'.ref = w.ref := by
    intro n w' hw'
    rw [lookup?_depend ho] at hw'
    split at hw'
    · obtain ⟨w, hw, rfl⟩ := Option.map_eq_some_iff.mp hw'
      exact ⟨w, hw, (Variable.grows_addDependency w o).ref⟩
    · exact ⟨w', hw', rfl⟩
  constructor
  · rintro ⟨u, w', hu, hw', hmem⟩
    obtain ⟨w, hw, href⟩ := hfind z w' hw'
    rw [href] at hmem
    rw [lookup?_depend ho] at hu
    split at hu
    · rename_i hax
      subst hax
      rw [hv] at hu
      obtain rfl := Option.some.inj hu
      rcases Variable.mem_addDependency.mp hmem with hold | ⟨hne, hself, hnew⟩
      · exact Or.inl ⟨v, w, hv, hw, hold⟩
      · refine Or.inr ⟨rfl, fun hyx => hne ((hname ho hv).mpr hyx),
          fun hzx => hself ((hname hw hv).mpr hzx), ?_⟩
        rcases hnew with habs | ⟨heq, hkeep⟩
        · exact Or.inl ⟨o, w, ho, hw, habs⟩
        · exact Or.inr ⟨(hname hw ho).mp heq, hkeep⟩
    · exact Or.inl ⟨u, w, hu, hw, hmem⟩
  · rintro (hold | ⟨rfl, hyx, hzx, hnew⟩)
    · exact hold.mono (grows_depend s x y)
    · -- the variable behind `z` is not `x`, so it is found as it was
      have hz : ∃ w, s.lookup? z = some w ∧
          (w.ref ∈ o.dependents ∨ (w.ref = o.ref ∧ (o.source = true ∨ o.dependents = []))) := by
        rcases hnew with ⟨o', w, ho', hw, hmem⟩ | ⟨rfl, hkeep⟩
        · obtain rfl := Option.some.inj (ho.symm.trans ho')
          exact ⟨w, hw, Or.inl hmem⟩
        · exact ⟨o, ho, Or.inr ⟨rfl, hkeep⟩⟩
      obtain ⟨w, hw, hmem⟩ := hz
      refine ⟨v.addDependency o, w, ?_, ?_, Variable.mem_addDependency.mpr (Or.inr ⟨?_, ?_, hmem⟩)⟩
      · rw [lookup?_depend ho, if_pos rfl, hv]
        rfl
      · rw [lookup?_depend ho, if_neg hzx, hw]
      · exact fun hne => hyx ((hname ho hv).mp hne)
      · exact fun hself => hzx ((hname hw hv).mp hself)

/-- A source that `y` carries is carried on to what derives from `y`. -/
theorem Carries.depend {s : Scope} (h : s.WellFormed) {x y z : String} {v o : Variable}
    (hv : s.lookup? x = some v) (ho : s.lookup? y = some o) (hyz : s.Carries y z) :
    (s.depend x y).Carries x z := by
  refine ⟨hyz.1.mono (grows_depend s x y), ?_⟩
  by_cases hzx : z = x
  · exact Or.inl hzx
  refine Or.inr ((derives_depend_iff h hv ho).mpr ?_)
  by_cases hyx : y = x
  · subst hyx
    exact Or.inl (hyz.2.resolve_left hzx)
  refine Or.inr ⟨rfl, hyx, hzx, ?_⟩
  rcases hyz.2 with rfl | hder
  · obtain ⟨w, hw, hs⟩ := hyz.1
    obtain rfl := Option.some.inj (ho.symm.trans hw)
    exact Or.inr ⟨rfl, Or.inl hs⟩
  · exact Or.inl hder

end Scope

end TaintReach
