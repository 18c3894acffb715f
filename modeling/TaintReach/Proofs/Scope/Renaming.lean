import Mathlib.Logic.Equiv.Defs
import TaintReach.Proofs.Scope.Basic

/-! Scopes under other names and lines.

A `Renaming` gives every identifier another one, no two the same, and every line some
line. What it makes of a scope has the same variables in the same order. Lines may fall
together, and with them two references could; but the variables of a well-formed scope are
told apart by their names alone, so all operations on scopes can be done before a renaming
or after it. -/
namespace TaintReach

/-- A variable and its dependents are known. -/
structure Variable.Known (known : VarRef → Prop) (v : Variable) : Prop where
  ref : known v.ref
  dependents : ∀ d ∈ v.dependents, known d

namespace Variable.Known

variable {known : VarRef → Prop} {v : Variable}

theorem addDependent (h : v.Known known) {d : VarRef} (hd : known d) :
    (v.addDependent d).Known known := by
  refine ⟨(grows_addDependent v d).ref ▸ h.ref, fun e he => ?_⟩
  rcases mem_addDependent.mp he with he | ⟨rfl, _⟩
  · exact h.dependents e he
  · exact hd

theorem foldl_addDependent (h : v.Known known) {ds : List VarRef} (hds : ∀ d ∈ ds, known d) :
    (ds.foldl Variable.addDependent v).Known known := by
  refine ⟨(grows_foldl_addDependent v ds).ref ▸ h.ref, fun e he => ?_⟩
  rcases mem_foldl_addDependent.mp he with he | ⟨he, _⟩
  · exact h.dependents e he
  · exact hds e he

end Variable.Known

/-- Other names and lines for a program. -/
structure Renaming where
  ident : Equiv.Perm String
  /-- The names of properties, which name no variables. -/
  property : String → String
  line : Int → Int

namespace Renaming

variable (R : Renaming)

def ref (r : VarRef) : VarRef := { r with name := R.ident r.name, line := R.line r.line }

def var (v : Variable) : Variable :=
  { v with name := R.ident v.name, line := R.line v.line, dependents := v.dependents.map R.ref }

/-- A scope goes by a name that tells the line of its function, so it is given anew. -/
def scope (name : String) (s : Scope) : Scope := { s with name, vars := s.vars.map R.var }

/-! ### Dependents -/

/-- The renaming keeps references apart that are known. -/
def Separates (known : VarRef → Prop) : Prop :=
  ∀ a b, known a → known b → R.ref a = R.ref b → a = b

variable {R}

/-- No two variables of a well-formed scope have the same name, so it does not matter if lines
fall together. -/
theorem separates_wellFormed {s : Scope} (h : s.WellFormed) :
    R.Separates fun r => ∃ v ∈ s.vars, v.ref = r := by
  rintro _ _ ⟨v, hv, rfl⟩ ⟨w, hw, rfl⟩ heq
  exact (h.ref_eq_iff hv hw).mpr (R.ident.injective (congrArg VarRef.name heq))

variable {known : VarRef → Prop} {v o : Variable}

/-- Whether a dependent is taken up is found out by comparing references, and among those that
are known the renaming changes no comparison. -/
theorem var_addDependent (hR : R.Separates known) (hv : v.Known known) {d : VarRef}
    (hd : known d) : R.var (v.addDependent d) = (R.var v).addDependent (R.ref d) := by
  have hself : R.ref d = (R.var v).ref ↔ d = v.ref :=
    ⟨hR d v.ref hd hv.ref, fun h => congrArg R.ref h⟩
  have hmem : R.ref d ∈ (R.var v).dependents ↔ d ∈ v.dependents := by
    refine ⟨fun h => ?_, List.mem_map_of_mem⟩
    obtain ⟨e, he, heq⟩ := List.mem_map.mp h
    exact hR e d (hv.dependents e he) hd heq ▸ he
  unfold Variable.addDependent
  simp only [hself, hmem]
  split
  · rfl
  · simp [var]

theorem var_foldl_addDependent (hR : R.Separates known) (hv : v.Known known) {ds : List VarRef}
    (hds : ∀ d ∈ ds, known d) :
    R.var (ds.foldl Variable.addDependent v) =
      (ds.map R.ref).foldl Variable.addDependent (R.var v) := by
  induction ds generalizing v with
  | nil => rfl
  | cons d ds ih =>
    obtain ⟨hd, hds⟩ := List.forall_mem_cons.mp hds
    rw [List.foldl_cons, List.map_cons, List.foldl_cons, ← var_addDependent hR hv hd]
    exact ih (hv.addDependent hd) hds

/-- All three ways of taking up a dependency: by reference, by what depends on it, or both. -/
theorem var_addDependency (hR : R.Separates known) (hv : v.Known known) (ho : o.Known known) :
    R.var (v.addDependency o) = (R.var v).addDependency (R.var o) := by
  have hself : (R.var o).ref = (R.var v).ref ↔ o.ref = v.ref :=
    ⟨hR o.ref v.ref ho.ref hv.ref, fun h => congrArg R.ref h⟩
  have hnil : (R.var o).dependents = [] ↔ o.dependents = [] := List.map_eq_nil_iff
  have habsorb := var_foldl_addDependent hR hv ho.dependents
  unfold Variable.addDependency
  simp only [hself, hnil]
  split
  · rfl
  split
  · exact var_addDependent hR hv ho.ref
  · have hsource : (R.var o).source = o.source := rfl
    rw [hsource]
    split
    · rw [var_addDependent hR (hv.foldl_addDependent ho.dependents) ho.ref, habsorb]
      rfl
    · exact habsorb

/-! ### Operations on scopes -/

variable {s : Scope}

theorem lookup?_scope (name x : String) :
    (R.scope name s).lookup? (R.ident x) = (s.lookup? x).map R.var := by
  unfold Scope.lookup? scope
  rw [List.find?_map]
  congr 2
  funext v
  simp [var]

theorem scope_add (name : String) (v : Variable) :
    R.scope name (s.add v) = (R.scope name s).add (R.var v) := by
  simp [scope, Scope.add, var]

theorem scope_stamp (name : String) (r : Reachable) :
    R.scope name (s.stamp r) = (R.scope name s).stamp r := by
  simp [scope, Scope.stamp, var, Function.comp_def]

/-- The two updates need to match only on the variable that is updated. -/
theorem scope_update {f f' : Variable → Variable} (name x : String)
    (hf : ∀ v ∈ s.vars, v.name = x → R.var (f v) = f' (R.var v)) :
    R.scope name (s.update x f) = (R.scope name s).update (R.ident x) f' := by
  have hvars : (s.vars.map fun v => if v.name = x then f v else v).map R.var =
      (s.vars.map R.var).map fun v => if v.name = R.ident x then f' v else v := by
    rw [List.map_map, List.map_map]
    refine List.map_congr_left fun v hv => ?_
    have hname : (R.var v).name = R.ident x ↔ v.name = x := R.ident.apply_eq_iff_eq
    simp only [Function.comp_apply, hname]
    split
    · exact hf v hv ‹_›
    · rfl
  simp only [scope, Scope.update, hvars]

/-- Everything that is compared on the way is registered in the scope. -/
theorem scope_depend (h : s.WellFormed) (name x y : String) :
    R.scope name (s.depend x y) = (R.scope name s).depend (R.ident x) (R.ident y) := by
  unfold Scope.depend
  rw [lookup?_scope]
  cases ho : s.lookup? y with
  | none => rfl
  | some o =>
    have hknown : ∀ v ∈ s.vars, v.Known fun r => ∃ w ∈ s.vars, w.ref = r :=
      fun v hv => ⟨⟨v, hv, rfl⟩, h.registered v hv⟩
    exact scope_update name x fun v hv _ =>
      var_addDependency (separates_wellFormed h) (hknown v hv) (hknown o (Scope.mem_of_lookup? ho))

end Renaming

end TaintReach
