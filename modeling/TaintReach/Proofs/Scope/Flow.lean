import Mathlib.Data.List.Induction
import TaintReach.Proofs.Scope.Basic

/-! What the flat sets of dependents say about the calls that made them.

A history registers variables, marks some as sources and makes one derive from
another. `Flows` says what such a history means: a chain of its calls, in the
order they were made, leads from one variable to the next. The sets are flat
and forget what they absorbed, and cycles are allowed, yet
`dependents_are_flows` shows that they are exact for sources: every dependent
flows to the variable that has it, and every source that flows to a variable by
a chain that starts after it was marked is among its dependents. -/
namespace TaintReach.Scope

/-! ### Histories -/

/-- One change to the variables of a scope. -/
inductive Change where
  | register (name : String) (line : Int)
  | mark (name : String)
  | depend (name on : String)
deriving DecidableEq, Repr

/-- Carries out a change. Only registered variables are marked or made to derive. -/
def Change.perform? (s : Scope) : Change → Option Scope
  | .register name line => some (s.findOrCreate name line).1
  | .mark name =>
    (s.lookup? name).map fun _ => s.update name fun v => { v with source := true }
  | .depend name on =>
    (s.lookup? name).bind fun _ => (s.lookup? on).map fun _ => s.depend name on

/-- Carries out changes in their order. -/
def run? (s : Scope) (changes : List Change) : Option Scope := changes.foldlM Change.perform? s

theorem run?_cons_eq_some {s t : Scope} {c : Change} {cs : List Change} :
    run? s (c :: cs) = some t ↔ ∃ u, c.perform? s = some u ∧ run? u cs = some t := by
  simp [run?, List.foldlM_cons, Option.bind_eq_some_iff]

theorem run?_append_eq_some {s t : Scope} {as bs : List Change} :
    run? s (as ++ bs) = some t ↔ ∃ u, run? s as = some u ∧ run? u bs = some t := by
  simp [run?, List.foldlM_append, Option.bind_eq_some_iff]

/-! ### One change -/

theorem Change.depend_perform?_eq_some {s t : Scope} {x y : String}
    (h : (Change.depend x y).perform? s = some t) :
    ∃ v o, s.lookup? x = some v ∧ s.lookup? y = some o ∧ t = s.depend x y := by
  simp only [perform?, Option.bind_eq_some_iff, Option.map_eq_some_iff] at h
  obtain ⟨v, hv, o, ho, rfl⟩ := h
  exact ⟨v, o, hv, ho, rfl⟩

theorem grows_perform? {s t : Scope} {c : Change} (h : c.perform? s = some t) : Grows s t := by
  cases c with
  | register name line =>
    obtain rfl := Option.some.inj h
    unfold findOrCreate
    split
    · exact .refl s
    · exact grows_add s _
  | mark name =>
    obtain ⟨_, _, rfl⟩ := Option.map_eq_some_iff.mp h
    exact grows_update name fun v _ _ =>
      ⟨rfl, rfl, fun _ => rfl, Int.le_refl _, List.prefix_refl _⟩
  | depend x y =>
    obtain ⟨_, _, _, _, rfl⟩ := Change.depend_perform?_eq_some h
    exact grows_depend s x y

theorem WellFormed.perform? {s t : Scope} (hs : s.WellFormed) {c : Change}
    (h : c.perform? s = some t) : t.WellFormed := by
  cases c with
  | register name line =>
    obtain rfl := Option.some.inj h
    unfold findOrCreate
    split
    · exact hs
    · exact hs.add ‹_› rfl
  | mark name =>
    obtain ⟨_, _, rfl⟩ := Option.map_eq_some_iff.mp h
    exact hs.update name (fun _ => rfl) fun _ => rfl
  | depend x y =>
    obtain ⟨_, _, _, _, rfl⟩ := Change.depend_perform?_eq_some h
    exact hs.depend x y

/-- Where a dependent comes from: it was there, or a call brought it. -/
theorem derives_of_perform? {s t : Scope} (hs : s.WellFormed) {c : Change}
    (h : c.perform? s = some t) {x z : String} (hxz : t.Derives x z) :
    s.Derives x z ∨ ∃ y, c = .depend x y ∧ (z = y ∨ s.Derives y z) := by
  cases c with
  | register name line =>
    left
    obtain ⟨v, hv, d, hd, hz⟩ := (hs.perform? h).derives_iff.mp hxz
    obtain rfl := Option.some.inj h
    refine hs.derives_iff.mpr ⟨v, ?_, d, hd, hz⟩
    unfold findOrCreate at hv
    split at hv
    · exact hv
    · rw [lookup?_add] at hv
      cases hx : s.lookup? x with
      | some u => simpa [hx] using hv
      | none =>
        -- a variable that is new has no dependents
        rw [hx] at hv
        simp only [Option.none_or] at hv
        split at hv
        · obtain rfl := Option.some.inj hv
          cases hd
        · cases hv
  | mark name =>
    left
    obtain ⟨v, hv, d, hd, hz⟩ := (hs.perform? h).derives_iff.mp hxz
    obtain ⟨_, _, rfl⟩ := Option.map_eq_some_iff.mp h
    have hname : ∀ v : Variable, ({ v with source := true } : Variable).name = v.name :=
      fun _ => rfl
    rw [lookup?_update name x hname] at hv
    refine hs.derives_iff.mpr ?_
    split at hv
    · obtain ⟨u, hu, rfl⟩ := Option.map_eq_some_iff.mp hv
      exact ⟨u, hu, d, hd, hz⟩
    · exact ⟨v, hv, d, hd, hz⟩
  | depend a y =>
    obtain ⟨v, o, hv, ho, rfl⟩ := Change.depend_perform?_eq_some h
    rcases (derives_depend_iff hs hv ho).mp hxz with hold | ⟨rfl, _, _, hnew⟩
    · exact Or.inl hold
    · exact Or.inr ⟨y, rfl, (hnew.imp_right And.left).symm⟩

/-! ### Chains of calls -/

/-- The calls by which the first variable flows through the others, in order. -/
def links : String → List String → List Change
  | _, [] => []
  | z, v :: vs => .depend v z :: links v vs

/-- Some of the calls, in the order they were made, form a chain from `z` to `y`. -/
def Flows (changes : List Change) (z y : String) : Prop :=
  ∃ vs, vs.getLast? = some y ∧ (links z vs).Sublist changes

/-- Such a chain whose first call was made when `z` was a source already. -/
def FlowsMarked (s : Scope) (changes : List Change) (z y : String) : Prop :=
  ∃ before v after t vs, changes = before ++ .depend v z :: after ∧
    run? s before = some t ∧ t.Marked z ∧
    (v :: vs).getLast? = some y ∧ (links v vs).Sublist after

theorem links_append (z : String) (vs : List String) (y : String) :
    links z (vs ++ [y]) = links z vs ++ [.depend y (vs.getLast?.getD z)] := by
  induction vs generalizing z with
  | nil => rfl
  | cons v vs ih =>
    rw [List.cons_append, links, ih, links, List.cons_append, List.getLast?_cons]
    rfl

theorem Flows.append {as : List Change} {z y : String} (h : Flows as z y) (bs : List Change) :
    Flows (as ++ bs) z y := by
  obtain ⟨vs, hlast, hsub⟩ := h
  exact ⟨vs, hlast, hsub.trans (List.sublist_append_left as bs)⟩

theorem flows_depend (as : List Change) (y z : String) : Flows (as ++ [.depend y z]) z y :=
  ⟨[y], rfl, List.sublist_append_right as _⟩

theorem Flows.depend {as : List Change} {z y : String} (h : Flows as z y) (x : String) :
    Flows (as ++ [.depend x y]) z x := by
  obtain ⟨vs, hlast, hsub⟩ := h
  refine ⟨vs ++ [x], by simp, ?_⟩
  rw [links_append, hlast]
  exact hsub.append (List.Sublist.refl _)

/-! ### Whole histories -/

theorem WellFormed.run? {s t : Scope} (hs : s.WellFormed) {cs : List Change}
    (h : run? s cs = some t) : t.WellFormed := by
  induction cs generalizing s with
  | nil =>
    obtain rfl := Option.some.inj h
    exact hs
  | cons c cs ih =>
    obtain ⟨u, hu, hrest⟩ := run?_cons_eq_some.mp h
    exact ih (hs.perform? hu) hrest

/-- Every dependent flows to the variable that has it. -/
theorem flows_of_derives {s t : Scope} (hs : s.WellFormed) (hnone : ∀ x z, ¬ s.Derives x z)
    {cs : List Change} (h : run? s cs = some t) {x z : String} (hxz : t.Derives x z) :
    Flows cs z x := by
  induction cs using List.reverseRecOn generalizing t x z with
  | nil =>
    obtain rfl := Option.some.inj h
    exact absurd hxz (hnone x z)
  | append_singleton cs c ih =>
    obtain ⟨u, hu, hlast⟩ := run?_append_eq_some.mp h
    obtain ⟨t', ht', hnil⟩ := run?_cons_eq_some.mp hlast
    obtain rfl := Option.some.inj hnil
    rcases derives_of_perform? (hs.run? hu) ht' hxz with hold | ⟨y, rfl, rfl | hyz⟩
    · exact (ih hu hold).append _
    · exact flows_depend cs x z
    · exact (ih hu hyz).depend x

/-- A carried source stays carried along every later chain of calls. -/
theorem carries_of_links {s t : Scope} (hs : s.WellFormed) {v z : String} {vs : List String}
    {cs : List Change} (h : run? s cs = some t) (hlinks : (links v vs).Sublist cs)
    (hvz : s.Carries v z) : t.Carries ((v :: vs).getLast?.getD v) z := by
  induction cs generalizing s v vs with
  | nil =>
    obtain rfl := Option.some.inj h
    cases vs with
    | nil => exact hvz
    | cons w vs => cases hlinks
  | cons c cs ih =>
    obtain ⟨u, hu, hrest⟩ := run?_cons_eq_some.mp h
    cases vs with
    | nil =>
      have hnil : (links v []).Sublist cs := List.nil_sublist cs
      exact ih (hs.perform? hu) hrest hnil (hvz.mono (grows_perform? hu))
    | cons w vs =>
      cases hlinks with
      | cons _ hsub => exact ih (hs.perform? hu) hrest hsub (hvz.mono (grows_perform? hu))
      | cons_cons _ hsub =>
        obtain ⟨_, _, hw, hv, rfl⟩ := Change.depend_perform?_eq_some hu
        have := ih (hs.perform? hu) hrest hsub (hvz.depend hs hw hv)
        simpa [List.getLast?_cons] using this

/-- **Dependents are exact for sources.** After any history that starts from an empty
scope, what is among the dependents of a variable flows to it and is another
variable, and every other variable that flows to it by a chain that starts when it
was marked already is among its dependents. -/
theorem dependents_are_flows (name : String) (home : Nat) (cs : List Change) (s : Scope)
    (h : run? (new name home) cs = some s) :
    (∀ y ∈ s.vars, ∀ d ∈ y.dependents,
      ∃ z ∈ s.vars, z.ref = d ∧ z.name ≠ y.name ∧ Flows cs z.name y.name) ∧
    (∀ y ∈ s.vars, ∀ z ∈ s.vars, z.name ≠ y.name →
      FlowsMarked (new name home) cs z.name y.name → z.ref ∈ y.dependents) := by
  have hnew : (new name home).WellFormed := wellFormed_of_empty rfl
  have hs := hnew.run? h
  have hnone : ∀ x z, ¬ (new name home).Derives x z := by
    rintro x z ⟨v, _, hv, _⟩
    cases hv
  constructor
  · intro y hy d hd
    obtain ⟨z, hz, rfl⟩ := hs.registered y hy d hd
    have hder : s.Derives y.name z.name := ⟨y, z, hs.lookup?_name hy, hs.lookup?_name hz, hd⟩
    exact ⟨z, hz, rfl, hder.ne hs, flows_of_derives hnew hnone h hder⟩
  · rintro y hy z hz hne ⟨before, v, after, t, vs, rfl, ht, hmark, hlast, hlinks⟩
    obtain ⟨t', ht', hrest⟩ := run?_append_eq_some.mp h
    obtain rfl := Option.some.inj (ht.symm.trans ht')
    obtain ⟨u, hu, hafter⟩ := run?_cons_eq_some.mp hrest
    obtain ⟨_, _, hv, hz', rfl⟩ := Change.depend_perform?_eq_some hu
    have htwf := hnew.run? ht
    -- the first call hands the source on, and the chain carries it to `y`
    have hfirst : (t.depend v z.name).Carries v z.name :=
      Carries.depend htwf hv hz' ⟨hmark, Or.inl rfl⟩
    have hcarried := carries_of_links (htwf.perform? hu) hafter hlinks hfirst
    rw [hlast] at hcarried
    obtain ⟨y', z', hy', hz'', hmem⟩ := hcarried.2.resolve_left hne
    obtain rfl := Option.some.inj ((hs.lookup?_name hy).symm.trans hy')
    obtain rfl := Option.some.inj ((hs.lookup?_name hz).symm.trans hz'')
    exact hmem

/-- A source that passes through `a` to `y` and from there back to itself. -/
theorem dependents_are_flows_cycle :
    ∃ s, run? (new "f@1" 0) [.register "z" 1, .mark "z", .register "a" 2, .register "y" 3,
        .depend "a" "z", .depend "y" "a", .depend "z" "y", .depend "y" "z"] = some s ∧
      ∀ y ∈ s.vars, y.name = "y" → ∀ z ∈ s.vars, z.name = "z" → z.ref ∈ y.dependents := by
  obtain ⟨s, hs⟩ : ∃ s, run? (new "f@1" 0) [.register "z" 1, .mark "z", .register "a" 2,
      .register "y" 3, .depend "a" "z", .depend "y" "a", .depend "z" "y", .depend "y" "z"] =
      some s := ⟨_, rfl⟩
  refine ⟨s, hs, fun y hy hyname z hz hzname => ?_⟩
  refine (dependents_are_flows _ _ _ s hs).2 y hy z hz (by rw [hyname, hzname]; decide) ?_
  rw [hyname, hzname]
  exact ⟨[.register "z" 1, .mark "z", .register "a" 2, .register "y" 3], "a", _, _, ["y"], rfl, rfl,
    ⟨_, rfl, rfl⟩, rfl, List.singleton_sublist.mpr List.mem_cons_self⟩

end TaintReach.Scope
