import TaintReach.Proofs.Scope.Basic
import TaintReach.Scope.Join

/-! What a join knows, name by name.

A join is made in two passes over numbered references. `View` forgets the
numbers: it keeps the names of a scope in their order and, for each name, the
facts about its variable, with dependents told by name. On views a join is one
operation, `View.combine`, in which lists are united by appending what is new
(`appendNew`), and `view_join` says that this is what the two passes compute. The
laws of joins are then laws of `View.combine`, and scopes are told apart by their
views alone (`eq_of_view`). -/
namespace TaintReach

/-! ### Appending what is new -/

section
variable {α : Type} [DecidableEq α]

/-- `xs`, then what is new in `ys`. -/
def appendNew (xs ys : List α) : List α := xs ++ ys.filter (· ∉ xs)

theorem mem_appendNew {xs ys : List α} {a : α} : a ∈ appendNew xs ys ↔ a ∈ xs ∨ a ∈ ys := by
  by_cases h : a ∈ xs <;> simp [appendNew, h]

theorem nil_appendNew (ys : List α) : appendNew [] ys = ys := by
  simp [appendNew]

theorem appendNew_nil (xs : List α) : appendNew xs [] = xs := by
  simp [appendNew]

theorem appendNew_assoc (xs ys zs : List α) :
    appendNew (appendNew xs ys) zs = appendNew xs (appendNew ys zs) := by
  have hnew : zs.filter (· ∉ appendNew xs ys) = (zs.filter (· ∉ ys)).filter (· ∉ xs) := by
    rw [List.filter_filter]
    congr 1
    funext a
    simp [mem_appendNew]
  calc appendNew (appendNew xs ys) zs
      = appendNew xs ys ++ zs.filter (· ∉ appendNew xs ys) := rfl
    _ = appendNew xs (appendNew ys zs) := by
      rw [hnew]
      simp only [appendNew, List.append_assoc, List.filter_append]

theorem appendNew_of_subset {xs ys : List α} (h : ys ⊆ xs) : appendNew xs ys = xs := by
  have hnone : ys.filter (· ∉ xs) = [] := by
    rw [List.filter_eq_nil_iff]
    intro a ha
    simpa using h ha
  rw [appendNew, hnone, List.append_nil]

theorem appendNew_of_mem {xs : List α} {a : α} (h : a ∈ xs) : appendNew xs [a] = xs :=
  appendNew_of_subset fun _ hb => List.mem_singleton.mp hb ▸ h

theorem appendNew_of_not_mem {xs : List α} {a : α} (h : a ∉ xs) :
    appendNew xs [a] = xs ++ [a] := by
  simp [appendNew, h]

theorem appendNew_self (xs : List α) : appendNew xs xs = xs :=
  appendNew_of_subset (List.Subset.refl xs)

/-- Appending a first item and then the others appends them all, if it is none of them. -/
theorem appendNew_cons {xs ys : List α} {y : α} (hy : y ∉ ys) :
    appendNew (appendNew xs [y]) ys = appendNew xs (y :: ys) := by
  have hfirst : appendNew [y] ys = y :: ys := by
    have hall : ys.filter (· ∉ [y]) = ys := by
      rw [List.filter_eq_self]
      intro a ha
      have : a ≠ y := fun hay => hy (hay ▸ ha)
      simpa using this
    rw [appendNew, hall, List.singleton_append]
  rw [appendNew_assoc, hfirst]

end

/-! ### Verdicts and classes -/

namespace Taint

theorem max_self (a : Taint) : a.max a = a := by
  simp [max]

theorem max_comm (a b : Taint) : a.max b = b.max a := by
  obtain ⟨a⟩ := a
  obtain ⟨b⟩ := b
  simp only [max]
  split <;> split <;> first | rfl | (congr 1; omega)

theorem max_assoc (a b c : Taint) : (a.max b).max c = a.max (b.max c) := by
  obtain ⟨a⟩ := a
  obtain ⟨b⟩ := b
  obtain ⟨c⟩ := c
  simp only [max]
  grind

/-- No verdict is lower than `clean`. -/
theorem clean_max {a : Taint} (h : 0 ≤ a.rank) : clean.max a = a := by
  obtain ⟨a⟩ := a
  change (if (0 : Int) < a then (⟨a⟩ : Taint) else ⟨0⟩) = ⟨a⟩
  split
  · rfl
  · congr 1
    exact Int.le_antisymm h (by omega)

end Taint

namespace Reachable

theorem meet_self (a : Reachable) : a.meet a = a := by
  simp [meet]

theorem meet_comm (a b : Reachable) : a.meet b = b.meet a := by
  obtain ⟨a⟩ := a
  obtain ⟨b⟩ := b
  simp only [meet]
  split <;> split <;> first | rfl | (congr 1; omega)

theorem meet_assoc (a b c : Reachable) : (a.meet b).meet c = a.meet (b.meet c) := by
  obtain ⟨a⟩ := a
  obtain ⟨b⟩ := b
  obtain ⟨c⟩ := c
  simp only [meet]
  grind

end Reachable

/-! ### Facts about a variable -/

/-- What is known of a variable apart from where it is kept. -/
structure Facts where
  name : String
  line : Int
  source : Bool
  taint : Taint
  reachable : Reachable
  escaped : Bool
  /-- The names of the dependents, in order of insertion. -/
  dependents : List String
deriving DecidableEq, Repr

namespace Facts

/-- What two variables of one name come to; the first gives the line. -/
def combine (a b : Facts) : Facts :=
  { a with
    source := a.source || b.source
    taint := a.taint.max b.taint
    reachable := a.reachable.meet b.reachable
    escaped := a.escaped || b.escaped
    dependents := appendNew a.dependents b.dependents }

theorem combine_assoc (a b c : Facts) : (a.combine b).combine c = a.combine (b.combine c) := by
  simp only [combine, Bool.or_assoc, Taint.max_assoc, Reachable.meet_assoc, appendNew_assoc]

theorem combine_self (a : Facts) : a.combine a = a := by
  simp only [combine, Bool.or_self, Taint.max_self, Reachable.meet_self, appendNew_self]

theorem combine_left_regular (a b : Facts) : (a.combine b).combine a = a.combine b := by
  have hback : ∀ p q : Bool, (p || q || p) = (p || q) := by decide
  have htaint : (a.taint.max b.taint).max a.taint = a.taint.max b.taint := by
    rw [Taint.max_comm, ← Taint.max_assoc, Taint.max_self]
  have hreach : (a.reachable.meet b.reachable).meet a.reachable = a.reachable.meet b.reachable := by
    rw [Reachable.meet_comm, ← Reachable.meet_assoc, Reachable.meet_self]
  have hdeps : appendNew (appendNew a.dependents b.dependents) a.dependents =
      appendNew a.dependents b.dependents :=
    appendNew_of_subset fun _ h => mem_appendNew.mpr (Or.inl h)
  simp only [combine, hback, htaint, hreach, hdeps]

/-- The facts with further dependents appended. -/
def derive (ds : List String) (f : Facts) : Facts :=
  { f with dependents := appendNew f.dependents ds }

theorem derive_nil : derive [] = id := by
  funext f
  simp only [derive, appendNew_nil, id_eq]

theorem derive_cons {d : String} {ds : List String} (hd : d ∉ ds) :
    derive ds ∘ derive [d] = derive (d :: ds) := by
  funext f
  simp only [Function.comp_apply, derive, appendNew_cons hd]

/-- Two accounts that differ in the line and the order of dependents at most. -/
structure Same (a b : Facts) : Prop where
  name : a.name = b.name
  source : a.source = b.source
  taint : a.taint = b.taint
  reachable : a.reachable = b.reachable
  escaped : a.escaped = b.escaped
  dependents : ∀ n, n ∈ a.dependents ↔ n ∈ b.dependents

theorem Same.refl (a : Facts) : Same a a := ⟨rfl, rfl, rfl, rfl, rfl, fun _ => Iff.rfl⟩

theorem combine_comm {a b : Facts} (h : a.name = b.name) : Same (a.combine b) (b.combine a) where
  name := h
  source := Bool.or_comm ..
  taint := Taint.max_comm ..
  reachable := Reachable.meet_comm ..
  escaped := Bool.or_comm ..
  dependents n := by
    simp only [combine, mem_appendNew]
    exact or_comm

end Facts

/-- The facts about a variable. -/
def Variable.facts (v : Variable) : Facts :=
  ⟨v.name, v.line, v.source, v.taint, v.reachable, v.escaped, v.dependents.map VarRef.name⟩

/-- The facts about a variable without its dependents. -/
def Variable.bareFacts (v : Variable) : Facts := { v.facts with dependents := [] }

/-! ### Views -/

namespace Scope

/-- What a scope is called, its names in order, and the facts about each. -/
structure View where
  name : String
  names : List String
  facts : String → Option Facts

namespace View

/-- The first view gives the name, unless it has none, and the order. -/
def combine (u v : View) : View where
  name := if u.name = unnamedScope then v.name else u.name
  names := appendNew u.names v.names
  facts x := (u.facts x).merge Facts.combine (v.facts x)

def empty : View := ⟨unnamedScope, [], fun _ => none⟩

theorem combine_assoc (u v w : View) : (u.combine v).combine w = u.combine (v.combine w) := by
  have hfacts : ∀ x, ((u.facts x).merge Facts.combine (v.facts x)).merge Facts.combine (w.facts x) =
      (u.facts x).merge Facts.combine ((v.facts x).merge Facts.combine (w.facts x)) := by
    intro x
    cases u.facts x <;> cases v.facts x <;> cases w.facts x <;>
      simp [Option.merge, Facts.combine_assoc]
  simp only [combine, appendNew_assoc, hfacts]
  congr 1
  by_cases hu : u.name = unnamedScope <;> simp [hu]

theorem combine_empty (u : View) : u.combine empty = u := by
  obtain ⟨name, names, facts⟩ := u
  simp only [combine, empty, appendNew_nil, Option.merge_none_right, mk.injEq, and_self, and_true]
  split
  · exact Eq.symm ‹_›
  · rfl

theorem empty_combine (u : View) : empty.combine u = u := by
  simp only [combine, empty, nil_appendNew, Option.merge_none_left, if_true]

theorem combine_self (u : View) : u.combine u = u := by
  have hfacts : ∀ x, (u.facts x).merge Facts.combine (u.facts x) = u.facts x := by
    intro x
    cases u.facts x <;> simp [Option.merge, Facts.combine_self]
  simp only [combine, appendNew_self, hfacts, ite_self]

/-- Combining again with what came first adds nothing. -/
theorem combine_left_regular (u v : View) : (u.combine v).combine u = u.combine v := by
  have hfacts : ∀ x, ((u.facts x).merge Facts.combine (v.facts x)).merge Facts.combine (u.facts x) =
      (u.facts x).merge Facts.combine (v.facts x) := by
    intro x
    cases u.facts x <;> cases v.facts x <;>
      simp [Option.merge, Facts.combine_self, Facts.combine_left_regular]
  have hnames : appendNew (appendNew u.names v.names) u.names = appendNew u.names v.names :=
    appendNew_of_subset fun _ h => mem_appendNew.mpr (Or.inl h)
  simp only [combine, hfacts, hnames]
  congr 1
  by_cases hu : u.name = unnamedScope <;> simp [hu, eq_comm]

/-- The verdict on a name is that of one of the two. -/
theorem taint_of_combine {u v : View} {x : String} {f : Facts}
    (h : (u.combine v).facts x = some f) :
    ∃ g, (u.facts x = some g ∨ v.facts x = some g) ∧ f.taint = g.taint := by
  simp only [combine] at h
  rcases hu : u.facts x with _ | a <;> rcases hv : v.facts x with _ | b <;> rw [hu, hv] at h
  · cases h
  · obtain rfl := Option.some.inj h
    exact ⟨b, Or.inr rfl, rfl⟩
  · obtain rfl := Option.some.inj h
    exact ⟨a, Or.inl rfl, rfl⟩
  · obtain rfl := Option.some.inj h
    simp only [Facts.combine, Taint.max]
    split
    · exact ⟨b, Or.inr rfl, rfl⟩
    · exact ⟨a, Or.inl rfl, rfl⟩

end View

def names (s : Scope) : List String := s.vars.map Variable.name

def view (s : Scope) : View := ⟨s.name, s.names, fun x => (s.lookup? x).map Variable.facts⟩

theorem mem_names_iff {s : Scope} {x : String} : x ∈ s.names ↔ ∃ v, s.lookup? x = some v := by
  constructor
  · intro hx
    obtain ⟨v, hv, rfl⟩ := List.mem_map.mp hx
    exact exists_lookup? hv
  · rintro ⟨v, hv⟩
    exact List.mem_map.mpr ⟨v, mem_of_lookup? hv, name_of_lookup? hv⟩

/-- Changes that keep names keep the list of them. -/
theorem names_update {s : Scope} {f : Variable → Variable} (n : String)
    (hf : ∀ v, (f v).name = v.name) : (s.update n f).names = s.names := by
  unfold names update
  rw [List.map_map]
  refine List.map_congr_left fun v _ => ?_
  simp only [Function.comp_apply]
  split
  · exact hf v
  · rfl

/-! ### The first pass: everything but dependents -/

theorem WellFormed.absorb {out : Scope} (h : out.WellFormed) (v : Variable) :
    (out.absorb v).WellFormed := by
  unfold Scope.absorb
  split
  · exact h.add ‹_› rfl
  · exact h.update v.name (fun _ => rfl) fun _ => rfl

theorem names_absorb (out : Scope) (v : Variable) :
    (out.absorb v).names = appendNew out.names [v.name] := by
  unfold absorb
  split
  · rename_i hnone
    have hnew : v.name ∉ out.names := by
      rw [mem_names_iff, hnone]
      simp
    rw [appendNew_of_not_mem hnew]
    exact List.map_append
  · rename_i w hsome
    rw [names_update, appendNew_of_mem (mem_names_iff.mpr ⟨w, hsome⟩)]
    exact fun _ => rfl

theorem facts_absorb {out : Scope} {v : Variable} (hv : 0 ≤ v.taint.rank) (x : String) :
    (out.absorb v).view.facts x = if v.name = x
      then (out.view.facts x).merge Facts.combine (some v.bareFacts) else out.view.facts x := by
  unfold absorb
  simp only [view]
  split
  · rename_i hnone
    rw [lookup?_add]
    split
    · rename_i hx
      subst hx
      rw [hnone, Taint.clean_max hv]
      rfl
    · rw [Option.or_none]
  · rename_i w hsome
    rw [lookup?_update]
    · by_cases hx : v.name = x
      · subst hx
        rw [if_pos rfl, if_pos rfl, hsome]
        simp [Option.merge, Variable.facts, Variable.bareFacts, Facts.combine, appendNew_nil]
      · rw [if_neg (Ne.symm hx), if_neg hx]
    · exact fun _ => rfl

/-- The first variable of a name in a list. -/
def pick (vs : List Variable) (x : String) : Option Variable := vs.find? (·.name = x)

theorem pick_cons (v : Variable) (vs : List Variable) (x : String) :
    pick (v :: vs) x = if v.name = x then some v else pick vs x := by
  by_cases h : v.name = x <;> simp [pick, h]

theorem pick_eq_none {vs : List Variable} {x : String} (h : x ∉ vs.map Variable.name) :
    pick vs x = none := by
  rw [pick, List.find?_eq_none]
  intro v hv
  simpa using fun hname => h (List.mem_map.mpr ⟨v, hv, hname⟩)

section
variable {out : Scope} {vs : List Variable}

theorem WellFormed.foldl_absorb (h : out.WellFormed) (vs : List Variable) :
    (vs.foldl Scope.absorb out).WellFormed := by
  induction vs generalizing out with
  | nil => exact h
  | cons v vs ih => exact ih (h.absorb v)

theorem names_foldl_absorb (hvs : (vs.map Variable.name).Nodup) :
    (vs.foldl absorb out).names = appendNew out.names (vs.map Variable.name) := by
  induction vs generalizing out with
  | nil => exact (appendNew_nil _).symm
  | cons v vs ih =>
    obtain ⟨hv, hvs⟩ := List.nodup_cons.mp hvs
    rw [List.foldl_cons, ih hvs, names_absorb, appendNew_cons hv, List.map_cons]

theorem facts_foldl_absorb (hvs : (vs.map Variable.name).Nodup)
    (htaint : ∀ v ∈ vs, 0 ≤ v.taint.rank) (x : String) :
    (vs.foldl absorb out).view.facts x =
      (out.view.facts x).merge Facts.combine ((pick vs x).map Variable.bareFacts) := by
  induction vs generalizing out with
  | nil => exact Option.merge_none_right.symm
  | cons v vs ih =>
    obtain ⟨hv, hvs⟩ := List.nodup_cons.mp hvs
    rw [List.foldl_cons, ih hvs fun w hw => htaint w (List.mem_cons_of_mem v hw),
      facts_absorb (htaint v List.mem_cons_self), pick_cons]
    by_cases hx : v.name = x
    · subst hx
      rw [if_pos rfl, if_pos rfl, pick_eq_none hv]
      exact Option.merge_none_right
    · rw [if_neg hx, if_neg hx]

end

/-! ### The second pass: dependents, by name -/

/-- Carries one dependent over to the variable called `n`. -/
def carry (n : String) (out : Scope) (d : VarRef) : Scope :=
  (out.lookup? d.name).elim out fun dep => out.update n (·.addDependent dep.ref)

theorem remap_eq_foldl (out : Scope) (v : Variable) :
    out.remap v = v.dependents.foldl (carry v.name) out := by
  unfold remap carry
  congr 1
  funext acc d
  cases acc.lookup? d.name <;> rfl

theorem names_carry (n : String) (out : Scope) (d : VarRef) : (carry n out d).names = out.names := by
  unfold carry
  cases out.lookup? d.name with
  | none => rfl
  | some dep => exact names_update n fun v => (Variable.grows_addDependent v dep.ref).name

theorem WellFormed.carry {out : Scope} (h : out.WellFormed) (n : String) (d : VarRef) :
    (Scope.carry n out d).WellFormed := by
  unfold Scope.carry
  cases hdep : out.lookup? d.name with
  | none => exact h
  | some dep =>
    refine h.map ?_ ?_ ?_ ?_
    · intro v
      split
      · exact (Variable.grows_addDependent v dep.ref).ref
      · rfl
    · intro v hv e he
      split at he
      · rcases Variable.mem_addDependent.mp he with he | ⟨rfl, _⟩
        · exact h.registered v hv e he
        · exact ⟨dep, mem_of_lookup? hdep, rfl⟩
      · exact h.registered v hv e he
    · intro v hv he
      split at he
      · rcases Variable.mem_addDependent.mp he with he | ⟨_, hne⟩
        · exact h.irreflexive v hv he
        · exact hne rfl
      · exact h.irreflexive v hv he
    · intro v hv
      split
      · exact Variable.nodup_addDependent _ (h.distinct v hv)
      · exact h.distinct v hv

/-- Inside one scope, dependents agree when their names do. -/
theorem WellFormed.mem_dependents_iff {s : Scope} (h : s.WellFormed) {v w : Variable}
    (hv : v ∈ s.vars) (hw : w ∈ s.vars) :
    w.name ∈ v.dependents.map VarRef.name ↔ w.ref ∈ v.dependents := by
  constructor
  · intro hname
    obtain ⟨d, hd, heq⟩ := List.mem_map.mp hname
    obtain ⟨u, hu, rfl⟩ := h.registered v hv d hd
    rwa [h.eq_of_name hu hw heq] at hd
  · exact fun hmem => List.mem_map.mpr ⟨w.ref, hmem, rfl⟩

theorem facts_carry {out : Scope} (h : out.WellFormed) {n : String} {d : VarRef}
    (hd : d.name ∈ out.names) (hne : d.name ≠ n) (x : String) :
    (carry n out d).view.facts x = if n = x
      then (out.view.facts x).map (Facts.derive [d.name]) else out.view.facts x := by
  obtain ⟨dep, hdep⟩ := mem_names_iff.mp hd
  have hname := name_of_lookup? hdep
  have hone : ∀ v ∈ out.vars, v.name = n → (v.addDependent dep.ref).facts =
      v.facts.derive [d.name] := by
    intro v hv hvn
    have hself : dep.ref ≠ v.ref := fun heq =>
      hne (hname.symm.trans ((congrArg VarRef.name heq).trans hvn))
    have hmem := h.mem_dependents_iff hv (mem_of_lookup? hdep)
    rw [hname] at hmem
    unfold Variable.addDependent
    split
    · rename_i hold
      exact congrArg _ (appendNew_of_mem (hmem.mpr (hold.resolve_left hself))).symm
    · rename_i hold
      have hout : d.name ∉ v.facts.dependents := fun hin => hold (Or.inr (hmem.mp hin))
      rw [Facts.derive, appendNew_of_not_mem hout]
      simp only [Variable.facts, List.map_append, List.map_singleton, ← hname]
      rfl
  simp only [view, carry, hdep, Option.elim_some]
  rw [lookup?_update n x fun v => (Variable.grows_addDependent v dep.ref).name]
  by_cases hx : n = x
  · subst hx
    rw [if_pos rfl, if_pos rfl, Option.map_map, Option.map_map]
    cases hv : out.lookup? n with
    | none => rfl
    | some v =>
      exact congrArg some (hone v (mem_of_lookup? hv) (name_of_lookup? hv))
  · rw [if_neg (Ne.symm hx), if_neg hx]

/-- Dependents that can all be carried over to a scope that knows `names`. -/
structure Carriable (names : List String) (v : Variable) : Prop where
  distinct : (v.dependents.map VarRef.name).Nodup
  known : ∀ d ∈ v.dependents, d.name ∈ names
  other : ∀ d ∈ v.dependents, d.name ≠ v.name

theorem WellFormed.carriable {s : Scope} (h : s.WellFormed) {v : Variable} (hv : v ∈ s.vars) :
    Carriable s.names v where
  distinct := by
    refine List.Nodup.map_on (fun d hd e he hname => ?_) (h.distinct v hv)
    obtain ⟨u, hu, rfl⟩ := h.registered v hv d hd
    obtain ⟨w, hw, rfl⟩ := h.registered v hv e he
    exact (h.ref_eq_iff hu hw).mpr hname
  known d hd := by
    obtain ⟨w, hw, rfl⟩ := h.registered v hv d hd
    exact List.mem_map_of_mem hw
  other d hd hname := by
    obtain ⟨w, hw, rfl⟩ := h.registered v hv d hd
    exact h.irreflexive v hv ((h.ref_eq_iff hw hv).mpr hname ▸ hd)

/-- The names of the dependents of a variable, if there is one. -/
def namesBehind : Option Variable → List String
  | none => []
  | some v => v.dependents.map VarRef.name

section
variable {out : Scope}

theorem WellFormed.remap (h : out.WellFormed) (v : Variable) : (out.remap v).WellFormed := by
  rw [remap_eq_foldl]
  induction v.dependents generalizing out with
  | nil => exact h
  | cons d ds ih => exact ih (h.carry v.name d)

theorem names_remap (out : Scope) (v : Variable) : (out.remap v).names = out.names := by
  rw [remap_eq_foldl]
  induction v.dependents generalizing out with
  | nil => rfl
  | cons d ds ih => exact (ih _).trans (names_carry v.name out d)

theorem facts_remap (h : out.WellFormed) {v : Variable} (hv : Carriable out.names v) (x : String) :
    (out.remap v).view.facts x = if v.name = x
      then (out.view.facts x).map (Facts.derive (v.dependents.map VarRef.name))
      else out.view.facts x := by
  rw [remap_eq_foldl]
  obtain ⟨hdistinct, hknown, hother⟩ := hv
  revert hdistinct hknown hother
  induction v.dependents generalizing out with
  | nil =>
    intros
    simp only [List.foldl_nil, List.map_nil, Facts.derive_nil, Option.map_id, id_eq, ite_self]
  | cons d ds ih =>
    intro hdistinct hknown hother
    obtain ⟨hd, hds⟩ := List.nodup_cons.mp hdistinct
    have hstep := facts_carry h (hknown d List.mem_cons_self) (hother d List.mem_cons_self) x
    rw [List.foldl_cons, ih (h.carry v.name d) hds ?_ fun e he => hother e (List.mem_cons_of_mem d he),
      hstep]
    · split
      · rw [Option.map_map, Facts.derive_cons hd, List.map_cons]
      · rfl
    · intro e he
      rw [names_carry]
      exact hknown e (List.mem_cons_of_mem d he)

theorem WellFormed.foldl_remap (h : out.WellFormed) (vs : List Variable) :
    (vs.foldl Scope.remap out).WellFormed := by
  induction vs generalizing out with
  | nil => exact h
  | cons v vs ih => exact ih (h.remap v)

theorem names_foldl_remap (out : Scope) (vs : List Variable) :
    (vs.foldl remap out).names = out.names := by
  induction vs generalizing out with
  | nil => rfl
  | cons v vs ih => exact (ih _).trans (names_remap out v)

theorem facts_foldl_remap (h : out.WellFormed) {vs : List Variable}
    (hnodup : (vs.map Variable.name).Nodup) (hvs : ∀ v ∈ vs, Carriable out.names v) (x : String) :
    (vs.foldl remap out).view.facts x =
      (out.view.facts x).map (Facts.derive (namesBehind (pick vs x))) := by
  induction vs generalizing out with
  | nil => exact (congrFun (Facts.derive_nil ▸ Option.map_id) _).symm
  | cons v vs ih =>
    obtain ⟨hv, hnodup⟩ := List.nodup_cons.mp hnodup
    rw [List.foldl_cons, ih (h.remap v) hnodup fun w hw => ?_,
      facts_remap h (hvs v List.mem_cons_self), pick_cons]
    · by_cases hx : v.name = x
      · subst hx
        rw [if_pos rfl, if_pos rfl, pick_eq_none hv, namesBehind, Facts.derive_nil, Option.map_id]
        rfl
      · rw [if_neg hx, if_neg hx]
    · rw [names_remap]
      exact hvs w (List.mem_cons_of_mem v hw)

end

/-! ### Joins -/

/-- Whatever is merged, the result is well formed. -/
theorem wellFormed_merge (name : String) (operands : List Scope) :
    (merge name operands).WellFormed :=
  ((wellFormed_of_empty rfl).foldl_absorb _).foldl_remap _

/-- What joins rely on: a well-formed scope that has a name, with verdicts from
`clean` up. -/
structure Regular (s : Scope) : Prop where
  wellFormed : s.WellFormed
  named : s.name ≠ ""
  taint : ∀ v ∈ s.vars, 0 ≤ v.taint.rank

/-- The scope that an absent operand stands for. -/
def unnamed : Scope := new unnamedScope 0

theorem regular_unnamed : unnamed.Regular :=
  ⟨wellFormed_of_empty rfl, by decide, fun _ hv => by cases hv⟩

theorem new_name_ne (name : String) (home : Nat) : (new name home).name ≠ "" := by
  simp only [new]
  split
  · decide
  · assumption

/-- A join is the merge of both operands, absent ones read as `unnamed`. -/
theorem join_eq_merge (a b : Option Scope) :
    join a b = merge (if (a.getD unnamed).name = unnamedScope then (b.getD unnamed).name
      else (a.getD unnamed).name) [a.getD unnamed, b.getD unnamed] := by
  cases a <;> cases b <;> simp only [Option.getD_none, Option.getD_some]
  · rfl
  · rfl
  · rename_i a
    have hname : (if a.name = unnamedScope then unnamed.name else a.name) = a.name := by
      split
      · exact Eq.symm ‹_›
      · rfl
    rw [hname]
    simp [join, merge, unnamed, new]
  · rfl

theorem foldl_keeps {β : Type} {f : Scope → β → Scope}
    (hf : ∀ s v, (f s v).name = s.name ∧ (f s v).home = s.home) (vs : List β) (s : Scope) :
    (vs.foldl f s).name = s.name ∧ (vs.foldl f s).home = s.home := by
  induction vs generalizing s with
  | nil => exact ⟨rfl, rfl⟩
  | cons v vs ih =>
    obtain ⟨hname, hhome⟩ := ih (f s v)
    exact ⟨hname.trans (hf s v).1, hhome.trans (hf s v).2⟩

theorem passes_keep (vs : List Variable) (s : Scope) :
    (vs.foldl remap (vs.foldl absorb s)).name = s.name ∧
      (vs.foldl remap (vs.foldl absorb s)).home = s.home := by
  have habsorb : ∀ (s : Scope) v, (s.absorb v).name = s.name ∧ (s.absorb v).home = s.home := by
    intro s v
    unfold absorb
    split <;> exact ⟨rfl, rfl⟩
  have hremap : ∀ (s : Scope) v, (s.remap v).name = s.name ∧ (s.remap v).home = s.home := by
    intro s v
    rw [remap_eq_foldl]
    refine foldl_keeps (fun s d => ?_) v.dependents s
    unfold carry
    cases s.lookup? d.name <;> exact ⟨rfl, rfl⟩
  obtain ⟨hname, hhome⟩ := foldl_keeps hremap vs (vs.foldl absorb s)
  obtain ⟨hname', hhome'⟩ := foldl_keeps habsorb vs s
  exact ⟨hname.trans hname', hhome.trans hhome'⟩

theorem merge_keeps (name : String) (operands : List Scope) :
    (merge name operands).name = (new name 0).name ∧ (merge name operands).home = 0 :=
  passes_keep (operands.flatMap vars) (new name 0)

/-- What the two passes come to for one name. -/
theorem facts_passes (u v : Option Variable) :
    ((((u.map Variable.bareFacts).merge Facts.combine (v.map Variable.bareFacts)).map
      (Facts.derive (namesBehind u))).map (Facts.derive (namesBehind v))) =
      (u.map Variable.facts).merge Facts.combine (v.map Variable.facts) := by
  cases u <;> cases v <;>
    simp [Option.merge, Variable.facts, Variable.bareFacts, namesBehind, Facts.derive,
      Facts.combine, nil_appendNew, appendNew_nil]

theorem view_merge {a b : Scope} (ha : a.Regular) (hb : b.Regular) {name : String}
    (hname : name ≠ "") : (merge name [a, b]).view =
      ⟨name, appendNew a.names b.names,
        fun x => (a.view.facts x).merge Facts.combine (b.view.facts x)⟩ := by
  have hvars : merge name [a, b] = b.vars.foldl remap (a.vars.foldl remap
      (b.vars.foldl absorb (a.vars.foldl absorb (new name 0)))) := by
    simp [merge, List.foldl_append]
  have hkeep : (merge name [a, b]).name = name := (merge_keeps name [a, b]).1.trans (if_neg hname)
  -- after the first pass, all names are known and only dependents are missing
  have hwf : (b.vars.foldl absorb (a.vars.foldl absorb (new name 0))).WellFormed :=
    ((wellFormed_of_empty rfl).foldl_absorb _).foldl_absorb _
  have hnames : (b.vars.foldl absorb (a.vars.foldl absorb (new name 0))).names =
      appendNew a.names b.names := by
    rw [names_foldl_absorb hb.wellFormed.names, names_foldl_absorb ha.wellFormed.names]
    exact congrArg (appendNew · _) (nil_appendNew _)
  have hfacts : ∀ x, (b.vars.foldl absorb (a.vars.foldl absorb (new name 0))).view.facts x =
      ((a.lookup? x).map Variable.bareFacts).merge Facts.combine
        ((b.lookup? x).map Variable.bareFacts) := by
    intro x
    rw [facts_foldl_absorb hb.wellFormed.names hb.taint,
      facts_foldl_absorb ha.wellFormed.names ha.taint]
    exact congrArg (Option.merge Facts.combine · _) Option.merge_none_left
  generalize b.vars.foldl absorb (a.vars.foldl absorb (new name 0)) = out at hvars hwf hnames hfacts
  have hcarry : ∀ s : Scope, s.Regular → s.names ⊆ appendNew a.names b.names →
      ∀ v ∈ s.vars, Carriable out.names v := by
    intro s hs hsub v hv
    obtain ⟨hdistinct, hknown, hother⟩ := hs.wellFormed.carriable hv
    exact ⟨hdistinct, fun d hd => hnames ▸ hsub (hknown d hd), hother⟩
  have hleft := hcarry a ha fun _ h => mem_appendNew.mpr (Or.inl h)
  have hright := hcarry b hb fun _ h => mem_appendNew.mpr (Or.inr h)
  rw [← names_foldl_remap out a.vars] at hright
  rw [view, hkeep, hvars, names_foldl_remap, names_foldl_remap, hnames]
  congr 1
  funext x
  have hpasses := facts_foldl_remap (hwf.foldl_remap a.vars) hb.wellFormed.names hright x
  rw [facts_foldl_remap hwf ha.wellFormed.names hleft, hfacts] at hpasses
  exact hpasses.trans (facts_passes (a.lookup? x) (b.lookup? x))

/-- **A join combines what its operands know**, name by name. -/
theorem view_join {a b : Option Scope} (ha : (a.getD unnamed).Regular)
    (hb : (b.getD unnamed).Regular) :
    (join a b).view = (a.getD unnamed).view.combine (b.getD unnamed).view := by
  rw [join_eq_merge, view_merge ha hb]
  · rfl
  · split
    · exact hb.named
    · exact ha.named

theorem Regular.taint_of_view {s : Scope} (h : s.Regular) {x : String} {f : Facts}
    (hf : s.view.facts x = some f) : 0 ≤ f.taint.rank := by
  obtain ⟨v, hv, rfl⟩ := Option.map_eq_some_iff.mp hf
  exact h.taint v (mem_of_lookup? hv)

theorem wellFormed_join (a b : Option Scope) : (join a b).WellFormed := by
  rw [join_eq_merge]
  exact wellFormed_merge _ _

theorem Regular.join {a b : Option Scope} (ha : (a.getD unnamed).Regular)
    (hb : (b.getD unnamed).Regular) : (Scope.join a b).Regular where
  wellFormed := wellFormed_join a b
  named := by
    rw [join_eq_merge, (merge_keeps _ _).1]
    exact new_name_ne _ _
  taint v hv := by
    have hfacts : (Scope.join a b).view.facts v.name = some v.facts := by
      simp only [view, (wellFormed_join a b).lookup?_name hv, Option.map_some]
    rw [view_join ha hb] at hfacts
    obtain ⟨g, hg, htaint⟩ := View.taint_of_combine hfacts
    have hrank : 0 ≤ g.taint.rank := hg.elim ha.taint_of_view hb.taint_of_view
    rwa [← htaint] at hrank

/-! ### Scopes from views -/

/-- The variable at `home` that these facts are about; references are looked up. -/
def View.variable (home : Nat) (u : View) (f : Facts) : Variable :=
  { home, name := f.name, line := f.line, source := f.source, taint := f.taint
    reachable := f.reachable, escaped := f.escaped
    dependents := f.dependents.filterMap fun n =>
      (u.facts n).map fun g => ⟨home, g.name, g.line⟩ }

section
variable {s t : Scope}

theorem WellFormed.filterMap_names (h : s.WellFormed) {β : Type} (f : Facts → β) :
    s.names.filterMap (fun x => (s.view.facts x).map f) = s.vars.map fun v => f v.facts := by
  unfold Scope.names
  rw [List.filterMap_map, ← List.filterMap_eq_map]
  refine List.filterMap_congr fun v hv => ?_
  simp only [Function.comp_apply, view, h.lookup?_name hv, Option.map_some]

theorem WellFormed.variable_facts (h : s.WellFormed) {v : Variable} (hv : v ∈ s.vars) :
    s.view.variable s.home v.facts = v := by
  have hdeps : v.facts.dependents.filterMap (fun n =>
      (s.view.facts n).map fun f => (⟨s.home, f.name, f.line⟩ : VarRef)) = v.dependents := by
    rw [Variable.facts, List.filterMap_map]
    refine (List.filterMap_congr fun d hd => ?_).trans List.filterMap_some
    obtain ⟨w, hw, rfl⟩ := h.registered v hv d hd
    simp only [Function.comp_apply, view, Variable.ref, h.lookup?_name hw, Option.map_some,
      Variable.facts, h.home w hw]
  rw [View.variable, hdeps, ← h.home v hv]
  rfl

theorem WellFormed.vars_eq (h : s.WellFormed) :
    s.vars = s.names.filterMap fun x => (s.view.facts x).map (s.view.variable s.home) := by
  rw [h.filterMap_names]
  exact (List.map_id _).symm.trans (List.map_congr_left fun v hv => (h.variable_facts hv).symm)

/-- Scopes at one home are told apart by their views. -/
theorem WellFormed.eq_of_view (hs : s.WellFormed) (ht : t.WellFormed) (hhome : s.home = t.home)
    (h : s.view = t.view) : s = t := by
  have hname : s.name = t.name := congrArg View.name h
  have hnames : s.names = t.names := congrArg View.names h
  have hvars : s.vars = t.vars := by
    rw [hs.vars_eq, ht.vars_eq, h, hhome, hnames]
  obtain ⟨home, name, vars⟩ := s
  cases hhome
  cases hname
  cases hvars
  rfl

end

end Scope

end TaintReach
