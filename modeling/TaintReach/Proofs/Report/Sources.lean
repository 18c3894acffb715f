import TaintReach.Proofs.Report.Collect

/-! Reports name sources, each once, in order of registration.

A sink raises the verdict on sources only, and a join takes verdicts and marks from
both sides, so in every scope that an analysis or a join gives a variable with a
verdict is a source (`Produced.sourced`). The names of such a scope are distinct,
and so are its ids, whatever characters the names are made of. A report on it
therefore names sources, each once, in the order of registration, and those that
must reach a sink are among those that may (`Produced.fits`). What is collected
holds no other reports (`collect_reports_sources`). -/
namespace TaintReach

/-- A variable with a verdict is a source. -/
def Variable.Sourced (v : Variable) : Prop := Taint.clean.rank < v.taint.rank → v.source = true

namespace Scope

/-- All variables with a verdict are sources. -/
def Sourced (s : Scope) : Prop := ∀ v ∈ s.vars, v.Sourced

/-! ### Joins -/

/-- What holds of the scopes that are joined holds of the operands, absent ones too. -/
theorem operand {P : Scope → Prop} (h : P unnamed) {c : Option Scope} (hc : ∀ s ∈ c, P s) :
    P (c.getD unnamed) := by
  cases c with
  | none => exact h
  | some s => exact hc s rfl

variable {out : Scope}

theorem Sourced.absorb (h : out.Sourced) {v : Variable} (hv : v.Sourced) :
    (out.absorb v).Sourced := by
  unfold Scope.absorb
  split
  · intro w hw
    rcases List.mem_append.mp hw with hw | hw
    · exact h w hw
    · obtain rfl := List.mem_singleton.mp hw
      intro htaint
      apply hv
      simp only [Taint.max] at htaint
      split at htaint
      · exact htaint
      · exact absurd htaint (Int.lt_irrefl _)
  · refine forall_update h v.name fun cur hcur htaint => ?_
    have hcur := h cur hcur
    simp only [Taint.max] at htaint
    simp only [Bool.or_eq_true]
    -- the higher verdict is that of one of the two, and this one is a source
    split at htaint
    · exact Or.inr (hv htaint)
    · exact Or.inl (hcur htaint)

theorem Sourced.carry (h : out.Sourced) (n : String) (d : VarRef) :
    (Scope.carry n out d).Sourced := by
  unfold Scope.carry
  cases out.lookup? d.name with
  | none => exact h
  | some dep =>
    refine forall_update h n fun v hv => ?_
    obtain ⟨ds, hds⟩ := v.addDependent_eq dep.ref
    rw [hds]
    exact h v hv

theorem sourced_merge (name : String) {operands : List Scope} (h : ∀ s ∈ operands, s.Sourced) :
    (merge name operands).Sourced := by
  have hvars : ∀ v ∈ operands.flatMap vars, v.Sourced := by
    intro v hv
    obtain ⟨s, hs, hv⟩ := List.mem_flatMap.mp hv
    exact h s hs v hv
  have habsorbed : ((operands.flatMap vars).foldl absorb (new name 0)).Sourced :=
    List.foldlRecOn _ _ (fun _ hv => by cases hv) fun _ ih v hv => ih.absorb (hvars v hv)
  refine List.foldlRecOn _ _ habsorbed fun _ ih v _ => ?_
  rw [remap_eq_foldl]
  exact List.foldlRecOn _ _ ih fun _ ih d _ => ih.carry v.name d

theorem sourced_join {a b : Option Scope} (ha : ∀ s ∈ a, s.Sourced) (hb : ∀ s ∈ b, s.Sourced) :
    (join a b).Sourced := by
  have hunnamed : unnamed.Sourced := fun _ hv => by cases hv
  rw [join_eq_merge]
  apply sourced_merge
  simp only [List.mem_cons, List.not_mem_nil, or_false, forall_eq_or_imp, forall_eq]
  exact ⟨operand hunnamed ha, operand hunnamed hb⟩

end Scope

/-! ### What analyses and joins give -/

open Walk (analyzeFunction analyzeProgram Endpoints Setting Analysed)

/-- The scopes that come out of analyses and of joins. -/
inductive Produced : Scope → Prop
  | function {E : Setting} {fn : Option NodeId} {s : Scope}
    (h : (analyzeFunction E fn).result = .ok s) : Produced s
  | program {g : Graph} {endpoints : Endpoints} {functions : Option (List (Option NodeId))}
    {scopes : List Scope} {s : Scope}
    (h : (analyzeProgram g endpoints functions).result = .ok scopes) (hs : s ∈ scopes) : Produced s
  | join {a b : Option Scope} (ha : ∀ s ∈ a, Produced s) (hb : ∀ s ∈ b, Produced s) :
    Produced (Scope.join a b)

theorem sourced_of_analysed {s : Scope} (h : Analysed s) : s.Sourced := by
  obtain ⟨E, fn, h⟩ := h
  refine Walk.lasting_of_analyzeFunction h ⟨?_, fun _ _ hv => hv, ?_, ?_, fun _ _ hv => hv⟩
  · exact fun _ _ _ _ htaint => absurd htaint (Int.lt_irrefl _)
  · exact fun _ _ _ => rfl
  · exact fun _ _ hsource _ _ => hsource

theorem analysed_of_analyzeProgram {g : Graph} {endpoints : Endpoints}
    {functions : Option (List (Option NodeId))} {scopes : List Scope}
    (h : (analyzeProgram g endpoints functions).result = .ok scopes) : ∀ s ∈ scopes, Analysed s := by
  cases functions with
  | none => cases h
  | some fns => exact Walk.analysed_of_analyzeAll h

namespace Produced

variable {s : Scope}

/-- **A variable with a verdict is a source.** -/
theorem sourced (h : Produced s) : s.Sourced := by
  induction h with
  | function h => exact sourced_of_analysed ⟨_, _, h⟩
  | program h hs => exact sourced_of_analysed (analysed_of_analyzeProgram h _ hs)
  | join _ _ iha ihb => exact Scope.sourced_join iha ihb

theorem regular (h : Produced s) : s.Regular := by
  induction h with
  | function h => exact Analysed.regular ⟨_, _, h⟩
  | program h hs => exact (analysed_of_analyzeProgram h _ hs).regular
  | join _ _ iha ihb =>
    exact .join (Scope.operand Scope.regular_unnamed iha) (Scope.operand Scope.regular_unnamed ihb)

theorem joinAll {scopes : List Scope} (h : ∀ s ∈ scopes, Produced s)
    (hs : Scope.joinAll scopes = some s) : Produced s := by
  have hall := Scope.joinAll_induction
    (P := fun scopes acc => scopes ≠ [] → (∀ s ∈ scopes, Produced s) → Produced acc)
    (fun hempty => absurd rfl hempty) (fun s _ h => h s List.mem_cons_self) ?_ scopes
  · rw [hs] at hall
    refine hall (fun hempty => ?_) h
    rw [hempty] at hs
    cases hs
  · intro scopes acc s hacc ih _ h
    have hne : scopes ≠ [] := fun hempty => by
      rw [hempty] at hacc
      cases hacc
    refine .join (a := some acc) (b := some s) (fun t ht => ?_) fun t ht => ?_
    · obtain rfl := Option.some.inj ht
      exact ih hne fun t ht => h t (List.mem_append_left _ ht)
    · obtain rfl := Option.some.inj ht
      exact h _ (List.mem_append_right _ List.mem_cons_self)

end Produced

/-! ### Reports -/

/-- A report names sources of the scope, each once and in the order of registration;
what must reach a sink also may. -/
structure Report.Fits (r : Report) (s : Scope) : Prop where
  must_sublist : r.must.Sublist r.may
  must_nodup : r.must.Nodup
  may_nodup : r.may.Nodup
  /-- The ids of the scope are distinct, so they have one order. -/
  ids_nodup : (s.vars.map Variable.id).Nodup
  may_sublist : r.may.Sublist (s.vars.map Variable.id)
  sources : ∀ id ∈ r.may, ∃ v ∈ s.vars, v.id = id ∧ v.source = true

/-- The id of a variable tells its name, so distinct names have distinct ids. -/
theorem Scope.WellFormed.ids_nodup {s : Scope} (h : s.WellFormed) :
    (s.vars.map Variable.id).Nodup := by
  apply List.Nodup.of_map idName
  have hnames : (s.vars.map Variable.id).map idName = s.vars.map Variable.name := by
    rw [List.map_map]
    exact List.map_congr_left fun v _ => idName_idText v.name v.line
  rw [hnames]
  exact h.names

theorem Produced.fits {s : Scope} (h : Produced s) : s.report.Fits s := by
  have hids := h.regular.wellFormed.ids_nodup
  have hmust : s.report.must.Sublist s.report.may := by
    refine List.Sublist.map _ (List.monotone_filter_right _ fun v hv => ?_)
    rw [of_decide_eq_true hv]
    decide
  have hmay : s.report.may.Sublist (s.vars.map Variable.id) :=
    List.Sublist.map _ List.filter_sublist
  have hnodup := hids.sublist hmay
  refine ⟨hmust, hnodup.sublist hmust, hnodup, hids, hmay, fun id hid => ?_⟩
  obtain ⟨v, hv, rfl⟩ := List.mem_map.mp hid
  obtain ⟨hv, htaint⟩ := List.mem_filter.mp hv
  refine ⟨v, hv, rfl, h.sourced v hv ?_⟩
  have hrank : Taint.may.rank ≤ v.taint.rank := of_decide_eq_true htaint
  exact Int.lt_of_lt_of_le (by decide) hrank

namespace Document

/-- **What is collected reports sources.** However scopes that come out of analyses and
joins are collected, each entry is the report on the joined scope of its name. It
names sources of that scope, each once, in the order of registration, and those that
must reach a sink are among those that may. In every such scope, a variable with a
verdict is a source. -/
theorem collect_reports_sources (calls : List (List Scope))
    (h : ∀ s ∈ calls.flatten, Produced s) :
    (∀ k r, (k, r) ∈ (calls.foldl collect {}).results.entries →
      ∃ s, (calls.foldl collect {}).scopes.lookup k = some s ∧ Produced s ∧ s.report = r ∧
        r.Fits s) ∧
    ∀ s, Produced s → s.Sourced := by
  refine ⟨fun k r hentry => ?_, fun s hs => hs.sourced⟩
  rw [foldl_collect, collect_eq_summary fun s hs => (h s hs).regular.named] at hentry ⊢
  obtain ⟨k', hk, heq⟩ := List.mem_map.mp hentry
  obtain ⟨rfl, rfl⟩ := Prod.mk.inj heq
  obtain ⟨t, ht, hname⟩ := mem_keysOf.mp hk
  rw [lookup_summary]
  cases hjoin : Scope.joinAll (calls.flatten.filter (·.name = k')) with
  | none =>
    have hempty := Scope.joinAll_eq_none_iff.mp hjoin
    exact absurd (List.mem_filter.mpr ⟨ht, decide_eq_true hname⟩) (hempty ▸ List.not_mem_nil)
  | some s =>
    have hs : Produced s := .joinAll (fun t ht => h t (List.mem_of_mem_filter ht)) hjoin
    have hjoined : Scope.joined calls.flatten k' = s := by rw [Scope.joined, hjoin, Option.getD_some]
    rw [hjoined]
    exact ⟨s, rfl, hs, rfl, hs.fits⟩

/-- Two functions of one name, of which the second has a source that reaches a sink. -/
theorem collect_reports_sources_collision :
    ("f@1", ⟨["s@1"], ["s@1"]⟩) ∈ ([[Sample.idle], [Sample.sunk]].foldl collect {}).results.entries ∧
    ∃ s, ([[Sample.idle], [Sample.sunk]].foldl collect {}).scopes.lookup "f@1" = some s ∧
      Report.Fits ⟨["s@1"], ["s@1"]⟩ s := by
  have hentry : ("f@1", ⟨["s@1"], ["s@1"]⟩) ∈
      ([[Sample.idle], [Sample.sunk]].foldl collect {}).results.entries := by decide +kernel
  have hproduced : ∀ s ∈ [[Sample.idle], [Sample.sunk]].flatten, Produced s := by
    intro s hs
    obtain ⟨E, fn, h⟩ := Sample.analysed_both s hs
    exact .function h
  obtain ⟨s, hlookup, _, _, hfits⟩ :=
    (collect_reports_sources [[Sample.idle], [Sample.sunk]] hproduced).1 _ _ hentry
  exact ⟨hentry, s, hlookup, hfits⟩

end Document

end TaintReach
