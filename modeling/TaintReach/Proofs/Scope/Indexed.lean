import TaintReach.Proofs.Index
import TaintReach.Proofs.Scope.Join
import TaintReach.Scope.Indexed

/-! The indexed form of a scope.

`Indexed.ofScope` gives a scope the index and the sets that its lists call for. An
operation on the indexed form of a scope whose names differ leads to the indexed form
of what the plain operation leads to (`modify_ofScope`, `ofScope_add`, and from them
the rest), so the index and the sets never part from the lists. A join starts from an
empty scope and looks at nothing but the variables of its operands, so it is an indexed
form whatever they are (`join_eq_ofScope`). -/
namespace TaintReach

namespace Slot

theorem ofVariable_addDependent (v : Variable) (d : VarRef) :
    (ofVariable v).addDependent d = ofVariable (v.addDependent d) := by
  unfold addDependent Variable.addDependent
  by_cases h : d = v.ref ∨ d ∈ v.dependents
  · simp [ofVariable, h]
  · simp [ofVariable, h]

theorem ofVariable_foldl_addDependent (v : Variable) (ds : List VarRef) :
    ds.foldl addDependent (ofVariable v) = ofVariable (ds.foldl Variable.addDependent v) := by
  induction ds generalizing v with
  | nil => rfl
  | cons d ds ih => rw [List.foldl_cons, ofVariable_addDependent, ih, List.foldl_cons]

/-- The set of a slot holds the dependents of its variable, so both take up the same ones. -/
theorem ofVariable_addDependency (v o : Variable) :
    (ofVariable v).addDependency o = ofVariable (v.addDependency o) := by
  have href : (ofVariable v).content.ref = v.ref := rfl
  unfold addDependency Variable.addDependency
  simp only [href, ofVariable_foldl_addDependent, ofVariable_addDependent, apply_ite ofVariable]

end Slot

namespace Indexed

/-- The lists of a scope are kept in its indexed form; index and sets are only added to them. -/
theorem plain_ofScope (s : Scope) : (ofScope s).plain = s := by
  have hvars : (s.vars.map Slot.ofVariable).map Slot.content = s.vars := by
    rw [List.map_map]
    exact List.map_id _
  simp only [plain, ofScope, hvars]

/-! ### Looking up -/

section
variable {s : Scope} (h : s.names.Nodup)
include h

/-- The index tells of a name where its variable stands, and of no other. -/
theorem place?_ofScope {x : String} {i : Nat} :
    (ofScope s).place? x = some i ↔ ∃ v, s.vars[i]? = some v ∧ v.name = x := by
  rw [show (ofScope s).place? x = (indexOf s.names).lookup x from rfl, lookup_index h,
    Scope.names, List.getElem?_map, Option.map_eq_some_iff]

omit h in
theorem place?_ofScope_eq_none {x : String} : (ofScope s).place? x = none ↔ s.lookup? x = none := by
  rw [show (ofScope s).place? x = (indexOf s.names).lookup x from rfl, lookup_index_eq_none,
    Scope.mem_names_iff, Option.eq_none_iff_forall_ne_some]
  exact not_exists

/-- Where names differ, the variable at a place is the one that its name finds. -/
theorem lookup?_of_getElem? {v : Variable} {i : Nat} (hv : s.vars[i]? = some v) :
    s.lookup? v.name = some v := by
  have hmem := List.mem_of_getElem? hv
  obtain ⟨w, hw⟩ := Scope.exists_lookup? hmem
  have heq := List.inj_on_of_nodup_map h (Scope.mem_of_lookup? hw) hmem (Scope.name_of_lookup? hw)
  rw [hw, heq]

theorem lookup?_ofScope (x : String) : (ofScope s).lookup? x = (s.lookup? x).map Slot.ofVariable := by
  unfold lookup?
  cases hx : (ofScope s).place? x with
  | none => rw [place?_ofScope_eq_none.mp hx]; rfl
  | some i =>
    obtain ⟨v, hv, rfl⟩ := (place?_ofScope h).mp hx
    rw [lookup?_of_getElem? h hv, Option.bind_some]
    simp only [ofScope, List.getElem?_map, hv]

/-! ### Changes -/

/-- A change of one variable reaches the variable that has the name, and no other. -/
theorem modify_ofScope (x : String) {f : Slot → Slot} {g : Variable → Variable}
    (hfg : ∀ v, f (.ofVariable v) = .ofVariable (g v)) (hname : ∀ v, (g v).name = v.name) :
    (ofScope s).modify x f = ofScope (s.update x g) := by
  have hslots : ((ofScope s).modify x f).slots = (s.update x g).vars.map Slot.ofVariable := by
    refine List.ext_getElem? fun j => ?_
    unfold modify
    cases hx : (ofScope s).place? x with
    | none =>
      have hnone := List.find?_eq_none.mp (place?_ofScope_eq_none.mp hx)
      simp only [ofScope, Scope.update, List.getElem?_map, Option.map_map]
      cases hv : s.vars[j]? with
      | none => rfl
      | some v =>
        have hne : v.name ≠ x := by simpa using hnone v (List.mem_of_getElem? hv)
        simp [hne]
    | some i =>
      obtain ⟨w, hw, rfl⟩ := (place?_ofScope h).mp hx
      simp only [ofScope, Scope.update, List.getElem?_modify, List.getElem?_map, Option.map_map]
      cases hv : s.vars[j]? with
      | none => simp
      | some v =>
        have hiff : v.name = w.name ↔ i = j := by
          constructor
          · intro heq
            have hpos := (place?_ofScope h).mpr ⟨v, hv, heq⟩
            exact Option.some.inj (hx.symm.trans hpos)
          · rintro rfl
            rw [Option.some.inj (hv.symm.trans hw)]
        by_cases hij : i = j
        · simp [hij, hiff.mpr hij, hfg]
        · simp [hij, mt hiff.mp hij]
  have hindex : ((ofScope s).modify x f).index = indexOf (s.update x g).names := by
    rw [Scope.names_update x hname]
    unfold modify
    split <;> rfl
  have hrest : ((ofScope s).modify x f).home = s.home ∧ ((ofScope s).modify x f).name = s.name := by
    unfold modify
    split <;> exact ⟨rfl, rfl⟩
  generalize (ofScope s).modify x f = t at hslots hindex hrest
  obtain ⟨home, name, slots, index⟩ := t
  obtain ⟨rfl, rfl⟩ := hrest
  cases hslots
  cases hindex
  rfl

theorem mark_ofScope (x : String) (f : Marks → Marks) :
    (ofScope s).mark x f = ofScope (s.update x fun v => v.withMarks (f v.marks)) :=
  modify_ofScope h x (fun _ => rfl) fun _ => rfl

theorem dependOn_ofScope (x : String) (o : Variable) :
    (ofScope s).dependOn x o = ofScope (s.update x (·.addDependency o)) :=
  modify_ofScope h x (fun v => Slot.ofVariable_addDependency v o)
    fun v => (v.grows_addDependency o).name

theorem depend_ofScope (x y : String) : (ofScope s).depend x y = ofScope (s.depend x y) := by
  unfold depend Scope.depend
  rw [lookup?_ofScope h]
  cases s.lookup? y with
  | none => rfl
  | some o => exact dependOn_ofScope h x o

omit h in
/-- A new variable goes to the end, which is the place that the index gives it. -/
theorem ofScope_add (v : Variable) : (ofScope s).add v = ofScope (s.add { v with dependents := [] }) := by
  have hnames : (s.add { v with dependents := [] }).names = s.names ++ [v.name] := by
    simp [Scope.names, Scope.add]
  have hindex : indexOf (s.add { v with dependents := [] }).names =
      (v.name, s.vars.length) :: indexOf s.names := by
    rw [hnames, index_concat, Scope.names, List.length_map]
  have hslots : (s.add { v with dependents := [] }).vars.map Slot.ofVariable =
      s.vars.map Slot.ofVariable ++ [{ content := { v with home := s.home, dependents := [] } }] := by
    simp [Scope.add, Slot.ofVariable]
  show (ofScope s).add v =
    { home := s.home, name := s.name
      slots := (s.add { v with dependents := [] }).vars.map Slot.ofVariable
      index := indexOf (s.add { v with dependents := [] }).names }
  rw [hindex, hslots]
  simp only [add, ofScope, List.length_map]
  rfl

omit h in
theorem findOrCreate_ofScope (x : String) (line : Int) :
    (ofScope s).findOrCreate x line =
      (ofScope (s.findOrCreate x line).1, (s.findOrCreate x line).2) := by
  unfold findOrCreate Scope.findOrCreate
  cases hx : s.lookup? x with
  | none =>
    rw [place?_ofScope_eq_none.mpr hx]
    exact congrArg (·, true) (ofScope_add _)
  | some v =>
    cases hp : (ofScope s).place? x with
    | none => rw [place?_ofScope_eq_none.mp hp] at hx; cases hx
    | some i => rfl

omit h in
theorem stamp_ofScope (r : Reachable) : (ofScope s).stamp r = ofScope (s.stamp r) := by
  have hnames : (s.stamp r).names = s.names := by
    simp [Scope.names, Scope.stamp]
  show (ofScope s).stamp r =
    { home := s.home, name := s.name, slots := (s.stamp r).vars.map Slot.ofVariable
      index := indexOf (s.stamp r).names }
  rw [hnames]
  simp only [stamp, ofScope, Scope.stamp, List.map_map]
  rfl

/-! ### Joins -/

/-- The first of two variables with one name is added, the second only marks it. -/
theorem absorb_ofScope (v : Variable) : (ofScope s).absorb v = ofScope (s.absorb v) := by
  unfold absorb Scope.absorb
  cases hx : s.lookup? v.name with
  | none =>
    rw [place?_ofScope_eq_none.mpr hx]
    exact ofScope_add _
  | some w =>
    cases hp : (ofScope s).place? v.name with
    | none => rw [place?_ofScope_eq_none.mp hp] at hx; cases hx
    | some i => exact mark_ofScope h v.name _

end

section
variable {out : Scope} (h : out.WellFormed)
include h

/-- Each dependent that is carried over changes one variable, so the names stay apart throughout. -/
theorem remap_ofScope (v : Variable) : (ofScope out).remap v = ofScope (out.remap v) := by
  unfold remap Scope.remap
  induction v.dependents generalizing out with
  | nil => rfl
  | cons d ds ih =>
    have hcarry := h.carry v.name d
    unfold Scope.carry at hcarry
    rw [List.foldl_cons, List.foldl_cons, lookup?_ofScope h.names]
    cases hd : out.lookup? d.name with
    | none => exact ih h
    | some dep =>
      rw [hd] at hcarry
      have hstep : (ofScope out).modify v.name (·.addDependent dep.ref) =
          ofScope (out.update v.name (·.addDependent dep.ref)) :=
        modify_ofScope h.names v.name (fun w => Slot.ofVariable_addDependent w dep.ref)
          fun w => (w.grows_addDependent dep.ref).name
      exact (congrArg (List.foldl _ · ds) hstep).trans (ih hcarry)

theorem foldl_absorb_ofScope (vs : List Variable) :
    vs.foldl absorb (ofScope out) = ofScope (vs.foldl Scope.absorb out) := by
  induction vs generalizing out with
  | nil => rfl
  | cons v vs ih => rw [List.foldl_cons, absorb_ofScope h.names, ih (h.absorb v), List.foldl_cons]

theorem foldl_remap_ofScope (vs : List Variable) :
    vs.foldl remap (ofScope out) = ofScope (vs.foldl Scope.remap out) := by
  induction vs generalizing out with
  | nil => rfl
  | cons v vs ih => rw [List.foldl_cons, remap_ofScope h, ih (h.remap v), List.foldl_cons]

end

/-- Joining variables from left to right into an empty scope, by two passes. -/
def passes (name : String) (home : Nat) (vs : List Variable) : Scope :=
  vs.foldl Scope.remap (vs.foldl Scope.absorb (Scope.new name home))

theorem wellFormed_passes (name : String) (home : Nat) (vs : List Variable) :
    (passes name home vs).WellFormed :=
  ((Scope.wellFormed_of_empty rfl).foldl_absorb vs).foldl_remap vs

/-- The variables of all operands of a join. -/
def operands (a b : Option Indexed) : List Variable :=
  (a.toList ++ b.toList).flatMap fun s => s.slots.map Slot.content

/-- Both passes of a join start from an indexed form, the first from that of the empty scope. -/
theorem merge_eq_ofScope (name : String) (home : Nat) (scopes : List Indexed) :
    merge name home scopes =
      ofScope (passes name home (scopes.flatMap fun s => s.slots.map Slot.content)) := by
  have hempty : (Scope.new name home).WellFormed := Scope.wellFormed_of_empty rfl
  unfold merge passes
  rw [← foldl_remap_ofScope (hempty.foldl_absorb _), ← foldl_absorb_ofScope hempty]
  rfl

/-- **A join is an indexed form**, whatever its operands are. -/
theorem join_eq_ofScope (home : Nat) (a b : Option Indexed) :
    ∃ name, join home a b = ofScope (passes name home (operands a b)) := by
  rcases a with _ | a <;> rcases b with _ | b
  · exact ⟨unnamedScope, rfl⟩
  · exact ⟨b.name, merge_eq_ofScope _ home [b]⟩
  · exact ⟨a.name, merge_eq_ofScope _ home [a]⟩
  · exact ⟨_, merge_eq_ofScope _ home [a, b]⟩

/-! ### Histories -/

/-- One change to a scope. -/
inductive Change where
  | register (name : String) (line : Int)
  | depend (name on : String)
  | mark (name : String) (f : Marks → Marks)
  | stamp (r : Reachable)

/-- Carries out a change. -/
def perform (s : Indexed) : Change → Indexed
  | .register name line => (s.findOrCreate name line).1
  | .depend name on => s.depend name on
  | .mark name f => s.mark name f
  | .stamp r => s.stamp r

namespace Change

/-- The change to a scope without index. -/
def plain (s : Scope) : Change → Scope
  | .register name line => (s.findOrCreate name line).1
  | .depend name on => s.depend name on
  | .mark name f => s.update name fun v => v.withMarks (f v.marks)
  | .stamp r => s.stamp r

/-- The line at which the change asks for a variable of this name. -/
def registers (x : String) : Change → Option Int
  | .register name line => if name = x then some line else none
  | _ => none

end Change

variable {s : Scope}

theorem perform_ofScope (h : s.names.Nodup) (c : Change) :
    (ofScope s).perform c = ofScope (c.plain s) := by
  cases c with
  | register name line => exact congrArg Prod.fst (findOrCreate_ofScope name line)
  | depend name on => exact depend_ofScope h name on
  | mark name f => exact mark_ofScope h name f
  | stamp r => exact stamp_ofScope r

/-- No change brings in a name twice or a dependent that is not registered. -/
theorem wellFormed_change (h : s.WellFormed) (c : Change) : (c.plain s).WellFormed := by
  cases c with
  | register name line =>
    simp only [Change.plain, Scope.findOrCreate]
    cases hx : s.lookup? name with
    | none => exact h.add (v := { home := s.home, name, line }) hx rfl
    | some v => exact h
  | depend name on => exact h.depend name on
  | mark name f => exact h.update name (fun _ => rfl) fun _ => rfl
  | stamp r => exact h.stamp r

theorem wellFormed_run (h : s.WellFormed) (changes : List Change) :
    (changes.foldl Change.plain s).WellFormed := by
  induction changes generalizing s with
  | nil => exact h
  | cons c cs ih => exact ih (wellFormed_change h c)

/-- **Index and sets follow the lists** through any history of changes. -/
theorem run_ofScope (h : s.WellFormed) (changes : List Change) :
    changes.foldl perform (ofScope s) = ofScope (changes.foldl Change.plain s) := by
  induction changes generalizing s with
  | nil => rfl
  | cons c cs ih =>
    rw [List.foldl_cons, perform_ofScope h.names, ih (wellFormed_change h c), List.foldl_cons]

end Indexed

end TaintReach
