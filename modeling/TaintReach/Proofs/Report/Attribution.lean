import TaintReach.Proofs.Report.Collect

/-! Where a finding goes when scopes of one name are collected.

Scopes of one name are joined by the names of their variables, and the first scope
that has a variable gives its line. So no finding is lost, and none is made up,
but it is told under the line of the first scope that has the variable
(`collect_keeps_findings`), which need not be the line where it was found
(`finding_told_elsewhere`). Where the scopes agree on the line of a variable, the
ids are kept as they are. -/
namespace TaintReach.Document

open Walk (Analysed)

/-- The line of `x` in the first scope called `k` that has it. -/
def firstLine (scopes : List Scope) (k x : String) : Option Int :=
  (scopes.filter (·.name = k)).findSome? fun s => (s.lookup? x).map Variable.line

/-- The findings in one list of the reports on `scopes` are those in this list of the
entries, each under the first line of its variable. -/
structure Keeps (d : Document) (scopes : List Scope) (list : Report → List String) : Prop where
  /-- What is found in a scope is in the entry of its name. -/
  kept : ∀ s ∈ scopes, ∀ x line, idText x line ∈ list s.report →
    ∃ r first, d.results.get? s.name = some r ∧ firstLine scopes s.name x = some first ∧
      idText x first ∈ list r
  /-- What is in an entry was found in a scope of its name. -/
  found : ∀ k r, d.results.get? k = some r → ∀ id ∈ list r,
    ∃ x first, id = idText x first ∧ firstLine scopes k x = some first ∧
      ∃ s ∈ scopes, s.name = k ∧ ∃ line, idText x line ∈ list s.report

theorem firstLine_eq (scopes : List Scope) (k x : String) : firstLine scopes k x =
    (scopes.filter (·.name = k)).findSome? fun s => (s.view.facts x).map Facts.line := by
  unfold firstLine Scope.view
  simp only [Option.map_map]
  rfl

theorem exists_firstLine {scopes : List Scope} {s : Scope} (hs : s ∈ scopes) {t : Taint}
    {x : String} (hx : s.view.Reaches t x) : ∃ first, firstLine scopes s.name x = some first := by
  obtain ⟨f, hf, _⟩ := hx
  refine Option.isSome_iff_exists.mp ?_
  rw [firstLine_eq, List.findSome?_isSome_iff]
  exact ⟨s, List.mem_filter.mpr ⟨hs, decide_eq_true rfl⟩, by rw [hf]; rfl⟩

/-- Where the scopes of a name agree on the line of `x`, its first line is that line. -/
theorem firstLine_of_agree {scopes : List Scope} {s : Scope} (hs : s ∈ scopes) {x : String}
    {v : Variable} (hv : s.lookup? x = some v)
    (hagree : ∀ t ∈ scopes, t.name = s.name → ∀ w, t.lookup? x = some w → w.line = v.line) :
    firstLine scopes s.name x = some v.line := by
  unfold firstLine
  cases hfirst : (scopes.filter (·.name = s.name)).findSome? fun t =>
      (t.lookup? x).map Variable.line with
  | none =>
    have hnone := List.findSome?_eq_none_iff.mp hfirst s
      (List.mem_filter.mpr ⟨hs, decide_eq_true rfl⟩)
    rw [hv] at hnone
    cases hnone
  | some first =>
    obtain ⟨t, ht, hline⟩ := List.exists_of_findSome?_eq_some hfirst
    obtain ⟨ht, hname⟩ := List.mem_filter.mp ht
    obtain ⟨w, hw, rfl⟩ := Option.map_eq_some_iff.mp hline
    rw [hagree t ht (of_decide_eq_true hname) w hw]

/-- The findings in a join are those in its scopes, under the first lines. -/
theorem mem_found_joined {scopes : List Scope} (h : ∀ s ∈ scopes, s.Regular) {k id : String}
    {t : Taint} : id ∈ (Scope.joined scopes k).found t ↔
      ∃ x first, id = idText x first ∧ firstLine scopes k x = some first ∧
        ∃ s ∈ scopes, s.name = k ∧ s.view.Reaches t x := by
  have hregular : ∀ s ∈ scopes.filter (·.name = k), s.Regular :=
    fun s hs => h s (List.mem_of_mem_filter hs)
  have hline : ∀ x, ((Scope.joined scopes k).view.facts x).map Facts.line =
      firstLine scopes k x := fun x => by
    rw [firstLine_eq]
    exact Scope.line_joinAll hregular x
  have hreach : ∀ x, (Scope.joined scopes k).view.Reaches t x ↔
      ∃ s ∈ scopes, s.name = k ∧ s.view.Reaches t x := fun x => by
    refine (Scope.reaches_joinAll hregular).trans ?_
    simp only [List.mem_filter, decide_eq_true_eq, and_assoc]
  have hwf : (Scope.joined scopes k).WellFormed := (Scope.view_joinAll hregular).1.wellFormed
  rw [hwf.mem_found_iff]
  constructor
  · rintro ⟨x, f, hf, ht, rfl⟩
    refine ⟨x, f.line, rfl, ?_, (hreach x).mp ⟨f, hf, ht⟩⟩
    rw [← hline, hf]
    rfl
  · rintro ⟨x, first, rfl, hfirst, hs⟩
    obtain ⟨f, hf, ht⟩ := (hreach x).mpr hs
    rw [← hline, hf] at hfirst
    exact ⟨x, f, hf, ht, by rw [← Option.some.inj hfirst]⟩

/-- The entry of a name is the report on the join of its scopes. -/
theorem get?_collect {scopes : List Scope} (h : ∀ s ∈ scopes, s.Regular) {k : String}
    {r : Report} : (({} : Document).collect scopes).results.get? k = some r ↔
      k ∈ keysOf scopes ∧ (Scope.joined scopes k).report = r := by
  rw [collect_eq_summary fun s hs => (h s hs).named, summary, Results.get?, lookup_map_pair]
  split <;> simp [*]

theorem keeps_found {scopes : List Scope} (h : ∀ s ∈ scopes, Analysed s) {t : Taint}
    {list : Report → List String} (hlist : ∀ s : Scope, s.Judged → list s.report = s.found t) :
    (({} : Document).collect scopes).Keeps scopes list := by
  have hregular : ∀ s ∈ scopes, s.Regular := fun s hs => (h s hs).regular
  have hjoined : ∀ k, list (Scope.joined scopes k).report = (Scope.joined scopes k).found t :=
    fun k => hlist _ (Scope.judged_joinAll (fun s hs => hregular s (List.mem_of_mem_filter hs))
      fun s hs => (h s (List.mem_of_mem_filter hs)).judged)
  refine ⟨fun s hs x line hid => ?_, fun k r hr id hid => ?_⟩
  · rw [hlist s (h s hs).judged] at hid
    have hreach : s.view.Reaches t x := by
      have hname := (hregular s hs).wellFormed.mem_found_names.mp (List.mem_map_of_mem hid)
      rwa [idName_idText] at hname
    obtain ⟨first, hfirst⟩ := exists_firstLine hs hreach
    refine ⟨_, first, (get?_collect hregular).mpr ⟨mem_keysOf.mpr ⟨s, hs, rfl⟩, rfl⟩, hfirst, ?_⟩
    rw [hjoined]
    exact (mem_found_joined hregular).mpr ⟨x, first, rfl, hfirst, s, hs, rfl, hreach⟩
  · obtain ⟨_, rfl⟩ := (get?_collect hregular).mp hr
    rw [hjoined] at hid
    obtain ⟨x, first, rfl, hfirst, s, hs, hname, f, hf, ht⟩ := (mem_found_joined hregular).mp hid
    refine ⟨x, first, rfl, hfirst, s, hs, hname, f.line, ?_⟩
    rw [hlist s (h s hs).judged]
    exact (hregular s hs).wellFormed.mem_found_iff.mpr ⟨x, f, hf, ht, rfl⟩

/-- **No finding is lost, and none is made up.** What must, or may, be reached in a
scope is told in the entry of its name, under the line of the first scope of that name
that has the variable; and an entry tells of nothing else. Where the scopes agree on
the line of a variable, this is its line in each of them. -/
theorem collect_keeps_findings (scopes : List Scope) (h : ∀ s ∈ scopes, Analysed s) :
    (({} : Document).collect scopes).Keeps scopes Report.must ∧
    (({} : Document).collect scopes).Keeps scopes Report.may ∧
    ∀ s ∈ scopes, ∀ x v, s.lookup? x = some v →
      (∀ t ∈ scopes, t.name = s.name → ∀ w, t.lookup? x = some w → w.line = v.line) →
      firstLine scopes s.name x = some v.line :=
  ⟨keeps_found h fun _ hs => hs.must_report, keeps_found h fun s _ => s.may_report,
    fun _ hs _ _ hv hagree => firstLine_of_agree hs hv hagree⟩

/-- `s` is found on line 2, and told on line 1. -/
theorem collect_keeps_findings_collision :
    "s@2" ∈ Sample.sunk.report.must ∧
    ∃ r first, (({} : Document).collect [Sample.idle, Sample.sunk]).results.get? "f@1" = some r ∧
      firstLine [Sample.idle, Sample.sunk] "f@1" "s" = some first ∧ idText "s" first ∈ r.must := by
  have hfound : idText "s" 2 ∈ Sample.sunk.report.must := by decide +kernel
  obtain ⟨hmust, _, _⟩ := collect_keeps_findings [Sample.idle, Sample.sunk] Sample.analysed_both
  exact ⟨by decide +kernel, hmust.kept Sample.sunk (by simp) "s" 2 hfound⟩

/-- The id that was found is in no list of the entry, and the id that is told was found
nowhere. -/
theorem finding_told_elsewhere :
    Analysed Sample.idle ∧ Analysed Sample.sunk ∧
    (({} : Document).collect [Sample.idle, Sample.sunk]).results.get? Sample.sunk.name =
      some ⟨["s@1"], ["s@1"]⟩ ∧
    "s@2" ∈ Sample.sunk.report.must ∧
    "s@1" ∉ Sample.idle.report.may ++ Sample.sunk.report.may := by
  refine ⟨Sample.analysed_idle, Sample.analysed_sunk, ?_, ?_, ?_⟩ <;> decide +kernel

end TaintReach.Document
