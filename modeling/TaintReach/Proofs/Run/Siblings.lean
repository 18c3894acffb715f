import TaintReach.Proofs.Disk.Writing
import TaintReach.Proofs.Run.Sequential

/-! The reports that a run writes beside its inputs.

All inputs are read before anything is written, so what an input gives does not hang on
the reports of others. The reports are then written in the order of the inputs, each to
the file beside its input. Where all of them can be written, every file of the disk holds
the last report that goes to it, or what it held before (`combine_reported`). The report
of an input is kept unless a later one goes to the same file
(`reports_beside_inputs`), which is so for paths that differ in their extensions only
(`Path.sibling_eq_iff`). -/
namespace TaintReach

/-! ### Paths -/

theorem Path.splitExtension_append (path : String) :
    (splitExtension path).1 ++ extension path = path := by
  unfold extension splitExtension
  simp only
  split
  · rw [← String.ofList_append, List.take_append_drop, String.ofList_toList]
  · exact String.append_empty

/-- Two paths have their reports under the same path exactly if they are the same up to
their extensions. -/
theorem Path.sibling_eq_iff {p q : String} :
    sibling p = sibling q ↔ ∃ stem, p = stem ++ extension p ∧ q = stem ++ extension q := by
  constructor
  · intro h
    have hstem : (splitExtension p).1 = (splitExtension q).1 := (String.append_left_inj _).mp h
    exact ⟨_, (splitExtension_append p).symm, hstem ▸ (splitExtension_append q).symm⟩
  · rintro ⟨stem, hp, hq⟩
    have hp' : (splitExtension p).1 = stem :=
      (String.append_left_inj _).mp ((splitExtension_append p).trans hp)
    have hq' : (splitExtension q).1 = stem :=
      (String.append_left_inj _).mp ((splitExtension_append q).trans hq)
    rw [sibling, sibling, hp', hq']

namespace Run

/-! ### Writing reports -/

/-- The report that an input writes to the file at a place of the disk, if it does. -/
def reportTo (d : Disk) (place : List String) (i : Input)
    (result : Except Input.Problem (List Scope)) : Option String :=
  if i.path ≠ "" ∧ d.place? (Path.sibling i.path) = some place then
    result.toOption.map ownReport
  else none

theorem reportTo_of_error (d : Disk) (place : List String) (i : Input) (p : Input.Problem) :
    reportTo d place i (.error p) = none :=
  ite_self _

theorem reportTo_of_no_path {i : Input} (hpath : i.path = "") (d : Disk) (place : List String)
    (result : Except Input.Problem (List Scope)) : reportTo d place i result = none :=
  if_neg fun h => h.1 hpath

theorem reportTo_of_ok {d : Disk} {i : Input} {place : List String} (hpath : i.path ≠ "")
    (hplace : d.place? (Path.sibling i.path) = some place) (q : List String)
    (scopes : List Scope) :
    reportTo d q i (.ok scopes) = if q = place then some (ownReport scopes) else none := by
  unfold reportTo
  by_cases hq : q = place
  · rw [if_pos hq, if_pos ⟨hpath, hq ▸ hplace⟩]
    rfl
  · rw [if_neg hq, if_neg fun h => hq (Option.some.inj (h.2.symm.trans hplace))]

/-- The reports of inputs were written to a disk, one after the other: each file holds the
last one that goes to it, or what it held before. -/
structure Reported (d : Disk) (as : List (Input × Analysis)) (d' : Disk) : Prop where
  place? : ∀ path, d'.place? path = d.place? path
  content? : ∀ q, d'.content? q =
    (as.filterMap fun e => reportTo d q e.1 e.2.result).getLast?.or (d.content? q)
  placed : ∀ e ∈ as, e.1.path ≠ "" → ∀ scopes, e.2.result = .ok scopes →
    ∃ place, d.place? (Path.sibling e.1.path) = some place

theorem getLast?_filterMap_cons {α β : Type} (f : α → Option β) (a : α) (as : List α) :
    ((a :: as).filterMap f).getLast? = (as.filterMap f).getLast?.or (f a) := by
  cases h : f a with
  | none => rw [List.filterMap_cons_none h, Option.or_none]
  | some b =>
    rw [List.filterMap_cons_some h, List.getLast?_cons]
    cases (as.filterMap f).getLast? <;> rfl

namespace Reported

variable {d d₁ d' : Disk} {e : Input × Analysis} {as : List (Input × Analysis)}

theorem nil (d : Disk) : Reported d [] d := ⟨fun _ => rfl, fun _ => rfl, fun _ h => nomatch h⟩

/-- An input without a report leaves the disk as it is. -/
theorem single_of_none (hnone : ∀ q, reportTo d q e.1 e.2.result = none)
    (hunplaced : e.1.path = "" ∨ ∃ p, e.2.result = .error p) : Reported d [e] d := by
  refine ⟨fun _ => rfl, fun q => ?_, ?_⟩
  · rw [getLast?_filterMap_cons, hnone]
    rfl
  · intro e' he hpath scopes hscopes
    obtain rfl := List.mem_singleton.mp he
    rcases hunplaced with hempty | ⟨p, hp⟩
    · exact absurd hempty hpath
    · rw [hp] at hscopes
      cases hscopes

/-- Later reports come on top of the first. -/
theorem cons (h : Reported d [e] d₁) (hrest : Reported d₁ as d') : Reported d (e :: as) d' := by
  have hsame : reportTo d₁ = reportTo d := by
    funext place i result
    unfold reportTo
    rw [h.place?]
  refine ⟨fun path => (hrest.place? path).trans (h.place? path), fun q => ?_, ?_⟩
  · rw [hrest.content?, h.content?, hsame, getLast?_filterMap_cons, getLast?_filterMap_cons,
      Option.or_assoc, Option.or_assoc]
    rfl
  · rintro e' (_ | ⟨_, he⟩) hpath scopes hscopes
    · exact h.placed e List.mem_cons_self hpath scopes hscopes
    · rw [← h.place?]
      exact hrest.placed e' he hpath scopes hscopes

end Reported

theorem writeSibling_of_written {i : Input} {scopes : List Scope} {t t' : Tally} {d d' : Disk}
    (h : (writeSibling i scopes t : StateM Disk Tally).run d = (t', d'))
    (hwritten : ∀ p, .unwritable p ∉ t'.problems) :
    d.write (Path.sibling i.path) (ownReport scopes) = (.ok (), d') := by
  have hrun : (Files.write (Path.sibling i.path) (ownReport scopes) : StateM Disk _).run d =
      d.write (Path.sibling i.path) (ownReport scopes) := rfl
  unfold writeSibling at h
  rw [StateT.run_bind, hrun] at h
  rcases hwrite : d.write (Path.sibling i.path) (ownReport scopes) with ⟨r, d₁⟩
  rw [hwrite] at h
  cases r with
  | ok _ =>
    obtain ⟨_, rfl⟩ := Prod.mk.inj h
    rfl
  | error p =>
    obtain ⟨rfl, _⟩ := Prod.mk.inj h
    exact absurd (List.mem_append_right _ List.mem_cons_self) (hwritten p)

/-- One input adds its report to the file beside it and leaves the other files alone. -/
theorem combineOne_reported {t t' : Tally} {i : Input} {a : Analysis} {d d' : Disk}
    (h : (combineOne true t i a : StateM Disk Tally).run d = (t', d'))
    (hwritten : ∀ p, .unwritable p ∉ t'.problems) : Reported d [(i, a)] d' := by
  unfold combineOne at h
  cases hresult : a.result with
  | error p =>
    rw [hresult] at h
    obtain ⟨_, rfl⟩ := Prod.mk.inj h
    refine .single_of_none (fun q => ?_) (.inr ⟨p, hresult⟩)
    rw [hresult, reportTo_of_error]
  | ok scopes =>
    rw [hresult] at h
    by_cases hpath : i.path = ""
    · simp only [hpath, ne_eq, not_true_eq_false, decide_false, Bool.and_false] at h
      obtain ⟨_, rfl⟩ := Prod.mk.inj h
      exact .single_of_none (fun q => reportTo_of_no_path hpath d q _) (.inl hpath)
    · simp only [hpath, ne_eq, not_false_eq_true, decide_true, Bool.and_true, if_true] at h
      obtain ⟨place, hplace, hput⟩ := Disk.written_of_write (writeSibling_of_written h hwritten)
      refine ⟨hput.place?, fun q => ?_, fun e he _ _ _ => ⟨place, ?_⟩⟩
      · rw [hput.content?, getLast?_filterMap_cons, hresult, reportTo_of_ok hpath hplace]
        by_cases hq : q = place
        · rw [if_pos hq, if_pos hq]
          rfl
        · rw [if_neg hq, if_neg hq]
          rfl
      · obtain rfl := List.mem_singleton.mp he
        exact hplace

/-- What went wrong with an input is not forgotten. -/
theorem combineOne_problems (write : Bool) (t : Tally) (i : Input) (a : Analysis) (d : Disk) :
    t.problems ⊆ ((combineOne write t i a : StateM Disk Tally).run d).1.problems := by
  unfold combineOne
  cases a.result with
  | error p => exact List.subset_append_left _ _
  | ok scopes =>
    simp only
    split
    · unfold writeSibling
      simp only [StateT.run_bind]
      rcases (Files.write (Path.sibling i.path) (ownReport scopes) : StateM Disk _).run d
        with ⟨r, d'⟩
      cases r with
      | ok _ => exact List.Subset.refl _
      | error p => exact List.subset_append_left _ _
    · exact List.Subset.refl _

theorem combine_problems (write : Bool) (t : Tally) (as : List (Input × Analysis)) (d : Disk) :
    t.problems ⊆ ((combine write t as : StateM Disk Tally).run d).1.problems := by
  induction as generalizing t d with
  | nil => exact List.Subset.refl _
  | cons e rest ih =>
    obtain ⟨i, a⟩ := e
    rw [run_combine_cons]
    exact List.Subset.trans (combineOne_problems write t i a d) (ih _ _)

/-- Where all reports can be written, they are, in the order of the inputs. -/
theorem combine_reported {t t' : Tally} {as : List (Input × Analysis)} {d d' : Disk}
    (h : (combine true t as : StateM Disk Tally).run d = (t', d'))
    (hwritten : ∀ p, .unwritable p ∉ t'.problems) : Reported d as d' := by
  induction as generalizing t d with
  | nil =>
    obtain ⟨_, rfl⟩ := Prod.mk.inj h
    exact .nil d
  | cons e rest ih =>
    obtain ⟨i, a⟩ := e
    rw [run_combine_cons] at h
    rcases hone : (combineOne true t i a : StateM Disk Tally).run d with ⟨t₁, d₁⟩
    rw [hone] at h
    have hsub := combine_problems true t₁ rest d₁
    rw [h] at hsub
    exact (combineOne_reported hone fun p hp => hwritten p (hsub hp)).cons (ih h)

/-! ### Runs -/

/-- No report of the run failed to be written. -/
def Outcome.AllWritten (outcome : Outcome) : Prop :=
  ∀ problems inputs p, outcome.problem = some (.failed problems inputs) → .unwritable p ∉ problems

/-- The reports that the inputs of a run write to the file at a place, in order. -/
def reportsTo (d : Disk) (endpoints : Walk.Endpoints) (place : List String)
    (inputs : List Input) : List String :=
  inputs.filterMap fun i => reportTo d place i (resultOn d endpoints i)

/-- A report is the last one at its place if no other comes behind it. -/
theorem getLast?_reportsTo {d : Disk} {endpoints : Walk.Endpoints} {place : List String}
    {i : Input} {report : String}
    (hown : reportTo d place i (resultOn d endpoints i) = some report)
    (before after : List Input) :
    (reportsTo d endpoints place (before ++ i :: after)).getLast? =
      some ((reportsTo d endpoints place after).getLastD report) := by
  unfold reportsTo
  rw [List.filterMap_append, List.getLast?_append, getLast?_filterMap_cons, hown,
    List.getLastD_eq_getLast?]
  cases (after.filterMap fun j => reportTo d place j (resultOn d endpoints j)).getLast? <;> rfl

/-- The disk after a run that could write all its reports. -/
theorem diskAfter_reported {o : Options} (hwrite : o.write = true) {inputs : List Input} {d : Disk}
    (hwritten : (give d (run o false inputs : StateM Disk Outcome)).AllWritten) :
    Reported d (inputs.map fun i => (i, give d (analyzeInput (.ofNames o.source o.sink) i)))
      (diskAfter o inputs d) := by
  obtain ⟨t, hrun, hproblem⟩ := exists_tally o inputs d
  rw [hwrite] at hrun
  refine combine_reported hrun fun p hp => ?_
  have hsome : t.problems.isEmpty = false := by
    cases hproblems : t.problems with
    | nil => rw [hproblems] at hp; cases hp
    | cons _ _ => rfl
  rw [hsome] at hproblem
  exact hwritten _ _ p hproblem hp

/-- **Reports beside the inputs.** After a run that could write all its reports, each file
of the disk holds the last report that goes to it, or what it held before. The file beside
an input that was analysed holds the report of this input's scopes alone, unless a later
input that was analysed has its report in the same file: then it holds the last such
report. The paths of two reports are the same exactly if the paths of their inputs differ
in their extensions at most. -/
theorem reports_beside_inputs (o : Options) (hwrite : o.write = true) (inputs : List Input)
    (d : Disk) (hwritten : (give d (run o false inputs : StateM Disk Outcome)).AllWritten) :
    let endpoints := Walk.Endpoints.ofNames o.source o.sink
    (∀ q, (diskAfter o inputs d).content? q =
      (reportsTo d endpoints q inputs).getLast?.or (d.content? q)) ∧
    (∀ before i after scopes, inputs = before ++ i :: after → i.path ≠ "" →
      resultOn d endpoints i = .ok scopes →
      ∃ place, d.place? (Path.sibling i.path) = some place ∧
        (diskAfter o inputs d).read (Path.sibling i.path) =
          .ok ((reportsTo d endpoints place after).getLastD (ownReport scopes)) ∧
        ((∀ j ∈ after, d.place? (Path.sibling j.path) ≠ some place) →
          (diskAfter o inputs d).read (Path.sibling i.path) = .ok (ownReport scopes))) ∧
    ∀ p q, Path.sibling p = Path.sibling q ↔
      ∃ stem, p = stem ++ Path.extension p ∧ q = stem ++ Path.extension q := by
  intro endpoints
  have hreported := diskAfter_reported hwrite hwritten
  have hcontent : ∀ q, (diskAfter o inputs d).content? q =
      (reportsTo d endpoints q inputs).getLast?.or (d.content? q) := by
    intro q
    rw [hreported.content?, List.filterMap_map]
    rfl
  refine ⟨hcontent, fun before i after scopes hinputs hpath hresult => ?_,
    fun _ _ => Path.sibling_eq_iff⟩
  have hmem : i ∈ inputs := hinputs ▸ List.mem_append_right _ List.mem_cons_self
  obtain ⟨place, hplace⟩ :=
    hreported.placed _ (List.mem_map_of_mem hmem) hpath scopes hresult
  have hread : (diskAfter o inputs d).read (Path.sibling i.path) =
      .ok ((reportsTo d endpoints place after).getLastD (ownReport scopes)) := by
    refine Disk.read_eq_ok_iff.mpr ⟨place, (hreported.place? _).trans hplace, ?_⟩
    have hown : reportTo d place i (resultOn d endpoints i) = some (ownReport scopes) := by
      rw [hresult, reportTo_of_ok hpath hplace, if_pos rfl]
    rw [hcontent, hinputs, getLast?_reportsTo hown]
    rfl
  refine ⟨place, hplace, hread, fun hlater => ?_⟩
  have hnone : reportsTo d endpoints place after = [] :=
    List.filterMap_eq_nil_iff.mpr fun j hj => if_neg fun h => hlater j hj h.2
  rw [hread, hnone]
  rfl

namespace Twins

def script : Input := { path := "a.js" }

def page : Input := { path := "a.html" }

/-- An input that is not in the working directory. -/
def outside : Input := { path := "/in/b.js" }

/-- A script with a finding, a page of the same name up to the extension, and a script
elsewhere. -/
def disk (text : String) : Disk :=
  .ofFiles [(script.path, some "function f(){s=retSource();sink(s)}"), (page.path, some text),
    (outside.path, some "function h(n){u=retSource();if(n)sink(u)}")]

/-- A page with a script in it. -/
def scripted : String := "<p><script>function g(){t=retSource();sink(t)}</script>"

def options : Options := { Options.default with write := true }

def result (text : String) (i : Input) : Except Input.Problem (List Scope) :=
  resultOn (disk text) (.ofNames options.source options.sink) i

theorem allWritten_of_none {d : Disk} {inputs : List Input}
    (hnone : (give d (run options false inputs)).problem = none) :
    (give d (run options false inputs)).AllWritten := by
  intro problems inputs p hfailed
  rw [hnone] at hfailed
  cases hfailed

/-- The later of two twins keeps its report, and so does an input by itself. -/
theorem reports_beside_twins :
    options.write = true ∧
      (give (disk scripted) (run options false [script, page, outside])).AllWritten ∧
      ∃ scopes scopes', result scripted page = .ok scopes ∧ result scripted outside = .ok scopes' ∧
        scopes.map Scope.report = [⟨["t@1"], ["t@1"]⟩] ∧
        scopes'.map Scope.report = [⟨[], ["u@1"]⟩] ∧
        (diskAfter options [script, page, outside] (disk scripted)).read "a_out.json" =
          .ok (ownReport scopes) ∧
        (diskAfter options [script, page, outside] (disk scripted)).read "/in/b_out.json" =
          .ok (ownReport scopes') := by
  have hwritten : (give (disk scripted) (run options false [script, page, outside])).AllWritten :=
    allWritten_of_none (by decide +kernel)
  have hreport : (result scripted page).toOption.map (·.map Scope.report) =
      some [⟨["t@1"], ["t@1"]⟩] := by decide +kernel
  have hreport' : (result scripted outside).toOption.map (·.map Scope.report) =
      some [⟨[], ["u@1"]⟩] := by decide +kernel
  obtain ⟨scopes, hscopes⟩ := exists_of_isOk (show (result scripted page).isOk by decide +kernel)
  obtain ⟨scopes', hscopes'⟩ :=
    exists_of_isOk (show (result scripted outside).isOk by decide +kernel)
  rw [hscopes] at hreport
  rw [hscopes'] at hreport'
  obtain ⟨_, hkept, _⟩ :=
    reports_beside_inputs options rfl [script, page, outside] (disk scripted) hwritten
  obtain ⟨place, hplace, _, hown⟩ :=
    hkept [script] page [outside] scopes rfl (by decide) hscopes
  obtain ⟨_, _, _, hown'⟩ := hkept [script, page] outside [] scopes' rfl (by decide) hscopes'
  have hpage : (disk scripted).place? (Path.sibling page.path) = some ["work", "a_out.json"] := by
    decide +kernel
  have hother : (disk scripted).place? (Path.sibling outside.path) = some ["in", "b_out.json"] := by
    decide +kernel
  refine ⟨rfl, hwritten, scopes, scopes', hscopes, hscopes', Option.some.inj hreport,
    Option.some.inj hreport', hown ?_, hown' fun _ hj => nomatch hj⟩
  intro j hj hsame
  obtain rfl := List.mem_singleton.mp hj
  rw [hother, ← hplace, hpage] at hsame
  exact absurd hsame (by decide)

/-- The report of the script is lost to that of the page, though their paths are distinct
and neither is that of a report. -/
theorem report_overwritten :
    script.path ≠ page.path ∧
    (∀ i ∈ [script, page], ∀ j ∈ [script, page], i.path ≠ Path.sibling j.path) ∧
    (give (disk "<p>") (run options false [script, page])).AllWritten ∧
    ∃ scopes, result "<p>" script = .ok scopes ∧
      (diskAfter options [script, page] (disk "<p>")).read (Path.sibling script.path) ≠
        .ok (ownReport scopes) := by
  obtain ⟨scopes, hscopes⟩ := exists_of_isOk (show (result "<p>" script).isOk by decide +kernel)
  refine ⟨by decide, by decide +kernel, allWritten_of_none (by decide +kernel), scopes, hscopes,
    fun hread => ?_⟩
  have hlost : ((diskAfter options [script, page] (disk "<p>")).read
      (Path.sibling script.path)).toOption ≠ (result "<p>" script).toOption.map ownReport := by
    decide +kernel
  rw [hread, hscopes] at hlost
  exact hlost rfl

end Twins

end Run

end TaintReach
