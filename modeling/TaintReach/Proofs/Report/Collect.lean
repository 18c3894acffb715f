import TaintReach.Proofs.Scope.JoinAll
import TaintReach.Proofs.Walk.Analysed
import TaintReach.Report

/-! What is collected does not depend on how.

Collecting keeps, for each name in the order of first appearance, the join from
left to right of the scopes of that name and the report on it. `summary` says so
in one piece, and `collect_eq_summary` that collecting scope after scope comes to
it. So splitting the scopes over several calls changes nothing, and neither does
collecting all of them again, since joins are left regular. Another order of the
scopes gives the same keys and reports the same names
(`collect_order_insensitive`); it can change lines, and the order of lists. -/
namespace TaintReach

namespace Scope

/-- The join of the scopes of one name. -/
def joined (scopes : List Scope) (k : String) : Scope :=
  (joinAll (scopes.filter (·.name = k))).getD unnamed

theorem joined_append (scopes : List Scope) (s : Scope) (k : String) :
    joined (scopes ++ [s]) k = if s.name = k
      then (joinAll (scopes.filter (·.name = k))).elim s fun acc => join (some acc) (some s)
      else joined scopes k := by
  unfold joined
  rw [List.filter_append]
  by_cases h : s.name = k
  · rw [if_pos h, List.filter_singleton, decide_eq_true h, cond_true, joinAll_append]
    rfl
  · rw [if_neg h, List.filter_singleton, decide_eq_false h, cond_false, List.append_nil]

end Scope

/-! ### The document in one piece -/

namespace Document

/-- The names of scopes, each once, in order of first appearance. -/
def keysOf (scopes : List Scope) : List String := (scopes.map Scope.name).eraseDups

/-- For each name the join of the scopes of that name, and the report on it. -/
def summary (scopes : List Scope) : Document where
  results := ⟨(keysOf scopes).map fun k => (k, (Scope.joined scopes k).report)⟩
  scopes := (keysOf scopes).map fun k => (k, Scope.joined scopes k)

theorem mem_keysOf {scopes : List Scope} {k : String} :
    k ∈ keysOf scopes ↔ ∃ s ∈ scopes, s.name = k := by
  rw [keysOf, List.mem_eraseDups, List.mem_map]

theorem keys_summary (scopes : List Scope) : (summary scopes).results.keys = keysOf scopes := by
  simp [summary, Results.keys, Function.comp_def]

theorem keysOf_append (scopes : List Scope) (s : Scope) :
    keysOf (scopes ++ [s]) = appendNew (keysOf scopes) [s.name] := by
  have hone : [s.name].eraseDups = [s.name] := by simp [List.eraseDups_cons]
  unfold keysOf
  rw [List.map_append, List.eraseDups_append]
  by_cases h : s.name ∈ scopes.map Scope.name
  · rw [appendNew_of_mem (List.mem_eraseDups.mpr h)]
    simp [List.removeAll, List.mem_map.mp h]
  · rw [appendNew_of_not_mem (fun hmem => h (List.mem_eraseDups.mp hmem)), ← hone]
    congr 2
    simp only [List.removeAll, List.map_cons, List.map_nil]
    simpa using fun t ht hname => h (List.mem_map.mpr ⟨t, ht, hname⟩)

section
variable {β : Type} {f g : String → β} {ks : List String} {k : String}

theorem lookup_map_pair : (ks.map fun k => (k, f k)).lookup k =
    if k ∈ ks then some (f k) else none := by
  induction ks with
  | nil => rfl
  | cons a ks ih =>
    rw [List.map_cons, List.lookup_cons, ih]
    by_cases h : k = a
    · subst h
      simp
    · simp [beq_false_of_ne h, h]

/-- Setting the value of a key in a table: in place, or else at the end. -/
theorem set_map_pair {b : β} (hk : g k = b) (hother : ∀ a ∈ ks, a ≠ k → g a = f a) :
    (if k ∈ ks then (ks.map fun a => (a, f a)).map fun e => if e.1 = k then (k, b) else e
      else (ks.map fun a => (a, f a)) ++ [(k, b)]) = (appendNew ks [k]).map fun a => (a, g a) := by
  split
  · rename_i hmem
    rw [appendNew_of_mem hmem, List.map_map]
    refine List.map_congr_left fun a ha => ?_
    simp only [Function.comp_apply]
    split
    · rename_i h
      rw [h, hk]
    · rename_i h
      rw [hother a ha h]
  · rename_i hmem
    rw [appendNew_of_not_mem hmem, List.map_append, List.map_singleton, hk]
    congr 1
    refine List.map_congr_left fun a ha => ?_
    rw [hother a ha fun h => hmem (h ▸ ha)]

end

/-- Sets a scope and its report under the name of the scope. -/
def put (d : Document) (s : Scope) : Document :=
  { d.keep s with results := (d.keep s).results.add s.name s.report }

theorem put_summary {scopes : List Scope} {s t : Scope} (hname : t.name = s.name)
    (ht : Scope.joined (scopes ++ [s]) s.name = t) :
    (summary scopes).put t = summary (scopes ++ [s]) := by
  have hother : ∀ k ∈ keysOf scopes, k ≠ s.name →
      Scope.joined (scopes ++ [s]) k = Scope.joined scopes k := fun k _ hk => by
    rw [Scope.joined_append, if_neg (Ne.symm hk)]
  have hany : ((summary scopes).scopes.any (·.1 = s.name) = true) ↔ s.name ∈ keysOf scopes := by
    simp [summary]
  have hscopes := set_map_pair ht hother
  have hreports := set_map_pair (g := fun k => (Scope.joined (scopes ++ [s]) k).report)
    (f := fun k => (Scope.joined scopes k).report) (congrArg Scope.report ht)
    fun k hk hne => congrArg Scope.report (hother k hk hne)
  rw [← keysOf_append] at hscopes hreports
  simp only [put, keep, Results.add, hname, hany, keys_summary]
  rw [← apply_ite Results.mk]
  exact congr (congrArg Document.mk (congrArg Results.mk hreports)) hscopes

theorem lookup_summary (scopes : List Scope) (k : String) :
    (summary scopes).scopes.lookup k = Scope.joinAll (scopes.filter (·.name = k)) := by
  rw [summary, lookup_map_pair]
  cases h : Scope.joinAll (scopes.filter (·.name = k)) with
  | none =>
    refine if_neg fun hk => ?_
    obtain ⟨s, hs, hname⟩ := mem_keysOf.mp hk
    have hempty := Scope.joinAll_eq_none_iff.mp h
    exact absurd (List.mem_filter.mpr ⟨hs, decide_eq_true hname⟩) (hempty ▸ List.not_mem_nil)
  | some acc =>
    have hk : k ∈ keysOf scopes := by
      obtain ⟨s, hs⟩ := List.exists_mem_of_ne_nil (scopes.filter (·.name = k)) fun hempty => by
        rw [hempty] at h
        cases h
      obtain ⟨hmem, hname⟩ := List.mem_filter.mp hs
      exact mem_keysOf.mpr ⟨s, hmem, of_decide_eq_true hname⟩
    rw [if_pos hk, Scope.joined, h]
    rfl

/-- A scope is put where it was, joined with the one that was there. -/
theorem collectOne_summary {scopes : List Scope} {s : Scope} (hs : s.name ≠ "") :
    (summary scopes).collectOne s = summary (scopes ++ [s]) := by
  have hput : (summary scopes).collectOne s = (summary scopes).put
      ((Scope.joinAll (scopes.filter (·.name = s.name))).elim s
        fun acc => Scope.join (some acc) (some s)) := by
    unfold collectOne
    rw [lookup_summary]
    cases Scope.joinAll (scopes.filter (·.name = s.name)) <;> rfl
  have hsame : ∀ t ∈ scopes.filter (·.name = s.name) ++ [s], t.name = s.name := by
    intro t ht
    rcases List.mem_append.mp ht with ht | ht
    · exact of_decide_eq_true (List.mem_filter.mp ht).2
    · rw [List.mem_singleton.mp ht]
  rw [hput]
  exact put_summary (Scope.name_joinAll hs hsame (Scope.joinAll_append _ s))
    ((Scope.joined_append scopes s s.name).trans (if_pos rfl))

/-- **Collecting comes to the summary.** -/
theorem collect_eq_summary {scopes : List Scope} (h : ∀ s ∈ scopes, s.name ≠ "") :
    ({} : Document).collect scopes = summary scopes := by
  induction scopes using List.reverseRecOn with
  | nil => rfl
  | append_singleton scopes s ih =>
    have hfold : ({} : Document).collect (scopes ++ [s]) =
        (({} : Document).collect scopes).collectOne s := List.foldl_append
    rw [hfold, ih fun t ht => h t (List.mem_append_left _ ht)]
    exact collectOne_summary (h s (List.mem_append_right _ List.mem_cons_self))

/-- Collecting in several calls is collecting all at once. -/
theorem foldl_collect (d : Document) (calls : List (List Scope)) :
    calls.foldl collect d = d.collect calls.flatten :=
  List.foldl_flatten.symm

theorem collect_append (d : Document) (scopes more : List Scope) :
    d.collect (scopes ++ more) = (d.collect scopes).collect more :=
  List.foldl_append

theorem summary_twice {scopes : List Scope} (h : ∀ s ∈ scopes, s.Regular)
    (hhome : ∀ s ∈ scopes, s.home = 0) : summary (scopes ++ scopes) = summary scopes := by
  have hkeys : keysOf (scopes ++ scopes) = keysOf scopes := by
    have hnone : ∀ ks : List String, ks.removeAll ks = [] := by
      simp [List.removeAll, List.filter_eq_nil_iff]
    unfold keysOf
    rw [List.map_append, List.eraseDups_append, hnone]
    exact List.append_nil _
  have hjoined : ∀ k, Scope.joined (scopes ++ scopes) k = Scope.joined scopes k := by
    intro k
    unfold Scope.joined
    rw [List.filter_append]
    exact Scope.joinAll_twice (fun s hs => h s (List.mem_of_mem_filter hs))
      fun s hs => hhome s (List.mem_of_mem_filter hs)
  simp only [summary, hkeys, hjoined]

theorem get?_summary (scopes : List Scope) (k : String) :
    (summary scopes).results.get? k =
      (Scope.joinAll (scopes.filter (·.name = k))).map Scope.report := by
  have hlook := lookup_summary scopes k
  rw [summary, lookup_map_pair] at hlook
  rw [summary, Results.get?, lookup_map_pair, ← hlook]
  split <;> rfl

end Document

/-! ### Names in reports -/

theorem at_not_mem_line (line : Int) : '@' ∉ (toString line).toList := by
  have hdigits : ∀ n : Nat, '@' ∉ (Nat.repr n).toList := by
    intro n hmem
    rw [Nat.repr, String.toList_ofList] at hmem
    exact absurd (Nat.isDigit_of_mem_toDigits (by decide) (by decide) hmem) (by decide)
  cases line with
  | ofNat n => exact hdigits n
  | negSucc n =>
    change '@' ∉ ("-" ++ Nat.repr (n + 1)).toList
    rw [String.toList_append, List.mem_append, not_or]
    exact ⟨by decide, hdigits (n + 1)⟩

/-- The name in an id: what stands before its last `@`. -/
def idName (id : String) : String :=
  String.ofList ((id.toList.reverse.dropWhile (· ≠ '@')).drop 1).reverse

theorem idName_idText (name : String) (line : Int) : idName (idText name line) = name := by
  have hline : ∀ c ∈ (toString line).toList.reverse, decide (c ≠ '@') = true := by
    intro c hc
    refine decide_eq_true fun h => at_not_mem_line line ?_
    exact h ▸ List.mem_reverse.mp hc
  unfold idName idText
  rw [String.toList_append, String.toList_append, List.reverse_append, List.reverse_append,
    List.dropWhile_append_of_pos hline]
  simp

namespace Scope

/-- The ids of the variables whose verdict is `t` or higher. -/
def found (s : Scope) (t : Taint) : List String :=
  (s.vars.filter fun v => t.rank ≤ v.taint.rank).map Variable.id

theorem may_report (s : Scope) : s.report.may = s.found .may := rfl

/-- No verdict is higher than `must`. -/
theorem Judged.must_report {s : Scope} (h : s.Judged) : s.report.must = s.found .must := by
  have hhighest : ∀ t ∈ [Taint.clean, .may, .must], (t = .must ↔ Taint.must.rank ≤ t.rank) := by
    decide
  unfold report found
  simp only
  congr 1
  refine List.filter_congr fun v hv => ?_
  simp only [hhighest _ (h v hv)]

theorem WellFormed.mem_found_iff {s : Scope} (h : s.WellFormed) {t : Taint} {id : String} :
    id ∈ s.found t ↔
      ∃ x f, s.view.facts x = some f ∧ t.rank ≤ f.taint.rank ∧ id = idText x f.line := by
  constructor
  · intro hid
    obtain ⟨v, hv, rfl⟩ := List.mem_map.mp hid
    obtain ⟨hv, ht⟩ := List.mem_filter.mp hv
    refine ⟨v.name, v.facts, ?_, of_decide_eq_true ht, rfl⟩
    simp only [view, h.lookup?_name hv, Option.map_some]
  · rintro ⟨x, f, hf, ht, rfl⟩
    obtain ⟨v, hv, rfl⟩ := Option.map_eq_some_iff.mp hf
    refine List.mem_map.mpr ⟨v, List.mem_filter.mpr ⟨mem_of_lookup? hv, decide_eq_true ht⟩, ?_⟩
    rw [Variable.id, name_of_lookup? hv]
    rfl

/-- A name is reported if its verdict is high enough. -/
theorem WellFormed.mem_found_names {s : Scope} (h : s.WellFormed) {t : Taint} {x : String} :
    x ∈ (s.found t).map idName ↔ s.view.Reaches t x := by
  rw [List.mem_map]
  constructor
  · rintro ⟨id, hid, rfl⟩
    obtain ⟨x, f, hf, ht, rfl⟩ := h.mem_found_iff.mp hid
    exact ⟨f, (idName_idText x f.line).symm ▸ hf, ht⟩
  · rintro ⟨f, hf, ht⟩
    exact ⟨_, h.mem_found_iff.mpr ⟨x, f, hf, ht, rfl⟩, idName_idText x f.line⟩

/-- The verdicts of a join are verdicts of its scopes. -/
theorem judged_joinAll {scopes : List Scope} (hregular : ∀ s ∈ scopes, s.Regular)
    (h : ∀ s ∈ scopes, s.Judged) : ((joinAll scopes).getD unnamed).Judged := by
  intro v hv
  obtain ⟨hjoin, _⟩ := view_joinAll hregular
  have hlow := hjoin.taint v hv
  have hhigh : ¬ 3 ≤ v.taint.rank := by
    intro hrank
    have hreach : ((joinAll scopes).getD unnamed).view.Reaches ⟨3⟩ v.name := by
      refine ⟨v.facts, ?_, hrank⟩
      simp only [view, hjoin.wellFormed.lookup?_name hv, Option.map_some]
    obtain ⟨s, hs, f, hf, hrank⟩ := (reaches_joinAll hregular).mp hreach
    obtain ⟨w, hw, rfl⟩ := Option.map_eq_some_iff.mp hf
    have hbound : ∀ t ∈ [Taint.clean, .may, .must], ¬ 3 ≤ t.rank := by decide
    exact hbound _ (h s hs w (mem_of_lookup? hw)) hrank
  obtain ⟨rank, hrank⟩ : ∃ rank, v.taint = ⟨rank⟩ := ⟨_, rfl⟩
  rw [hrank] at hlow hhigh ⊢
  have hcases : rank = 0 ∨ rank = 1 ∨ rank = 2 := by
    simp only at hlow hhigh
    omega
  rcases hcases with rfl | rfl | rfl <;> decide

end Scope

/-! ### Any grouping, repetition and order -/

namespace Document

open Walk (Analysed)

/-- What a report says about names, lines and order left aside. -/
def SameNames (r r' : Report) : Prop :=
  (∀ x, x ∈ r.must.map idName ↔ x ∈ r'.must.map idName) ∧
    ∀ x, x ∈ r.may.map idName ↔ x ∈ r'.may.map idName

/-- Joins of the same scopes in another order report the same names. -/
theorem sameNames_joinAll {scopes others : List Scope} (h : ∀ s ∈ scopes, Analysed s)
    (hperm : others.Perm scopes) : SameNames ((Scope.joinAll scopes).getD Scope.unnamed).report
      ((Scope.joinAll others).getD Scope.unnamed).report := by
  have hregular : ∀ s ∈ scopes, s.Regular := fun s hs => (h s hs).regular
  have hjudged : ∀ s ∈ scopes, s.Judged := fun s hs => (h s hs).judged
  have hregular' : ∀ s ∈ others, s.Regular := fun s hs => hregular s (hperm.mem_iff.mp hs)
  have hjudged' : ∀ s ∈ others, s.Judged := fun s hs => hjudged s (hperm.mem_iff.mp hs)
  have hfound : ∀ t x,
      x ∈ (((Scope.joinAll scopes).getD Scope.unnamed).found t).map idName ↔
        x ∈ (((Scope.joinAll others).getD Scope.unnamed).found t).map idName := by
    intro t x
    rw [(Scope.view_joinAll hregular).1.wellFormed.mem_found_names,
      (Scope.view_joinAll hregular').1.wellFormed.mem_found_names, Scope.reaches_joinAll hregular,
      Scope.reaches_joinAll hregular']
    simp only [hperm.mem_iff]
  unfold SameNames
  rw [(Scope.judged_joinAll hregular hjudged).must_report,
    (Scope.judged_joinAll hregular' hjudged').must_report, Scope.may_report, Scope.may_report]
  exact ⟨hfound .must, hfound .may⟩

/-- **Collecting does not depend on grouping, repetition and order.** However analysed
scopes are split over calls, the keys are their names in order of first appearance,
each with the join of its scopes from left to right and the report on it;
collecting all of them again changes nothing; and in any other order there are the
same keys, with the same names reported. -/
theorem collect_order_insensitive (calls : List (List Scope))
    (h : ∀ s ∈ calls.flatten, Analysed s) :
    (calls.foldl collect {}).results.keys = (calls.flatten.map Scope.name).eraseDups ∧
    (calls.foldl collect {}).scopes.map Prod.fst = (calls.foldl collect {}).results.keys ∧
    (∀ k ∈ (calls.foldl collect {}).results.keys, ∃ s,
      Scope.joinAll (calls.flatten.filter (·.name = k)) = some s ∧
      (calls.foldl collect {}).scopes.lookup k = some s ∧
      (calls.foldl collect {}).results.get? k = some s.report) ∧
    (∀ again : List (List Scope), again.flatten = calls.flatten →
      again.foldl collect (calls.foldl collect {}) = calls.foldl collect {}) ∧
    ∀ others : List (List Scope), others.flatten.Perm calls.flatten →
      (∀ k, k ∈ (others.foldl collect {}).results.keys ↔
        k ∈ (calls.foldl collect {}).results.keys) ∧
      ∀ k r r', (calls.foldl collect {}).results.get? k = some r →
        (others.foldl collect {}).results.get? k = some r' → SameNames r r' := by
  have hnamed : ∀ s ∈ calls.flatten, s.name ≠ "" := fun s hs => (h s hs).regular.named
  have hsummary : calls.foldl collect {} = summary calls.flatten :=
    (foldl_collect {} calls).trans (collect_eq_summary hnamed)
  rw [hsummary, keys_summary]
  refine ⟨rfl, ?_, fun k hk => ?_, fun again hagain => ?_, fun others hperm => ?_⟩
  · simp [summary, Function.comp_def]
  · obtain ⟨s, hs, hname⟩ := mem_keysOf.mp hk
    cases hjoin : Scope.joinAll (calls.flatten.filter (·.name = k)) with
    | none =>
      have hempty := Scope.joinAll_eq_none_iff.mp hjoin
      exact absurd (List.mem_filter.mpr ⟨hs, decide_eq_true hname⟩) (hempty ▸ List.not_mem_nil)
    | some s =>
      refine ⟨s, rfl, (lookup_summary _ k).trans hjoin, ?_⟩
      rw [get?_summary, hjoin]
      rfl
  · rw [foldl_collect, hagain, ← collect_eq_summary hnamed, ← collect_append,
      collect_eq_summary fun s hs => hnamed s ((List.mem_append.mp hs).elim id id),
      collect_eq_summary hnamed]
    exact summary_twice (fun s hs => (h s hs).regular) fun s hs => (h s hs).home
  · have hsummary' : others.foldl collect {} = summary others.flatten :=
      (foldl_collect {} others).trans
        (collect_eq_summary fun s hs => hnamed s (hperm.mem_iff.mp hs))
    rw [hsummary', keys_summary]
    refine ⟨fun k => ?_, fun k r r' hr hr' => ?_⟩
    · rw [mem_keysOf, mem_keysOf]
      simp only [hperm.mem_iff]
    · rw [get?_summary] at hr hr'
      obtain ⟨s, hs, rfl⟩ := Option.map_eq_some_iff.mp hr
      obtain ⟨s', hs', rfl⟩ := Option.map_eq_some_iff.mp hr'
      have hsame := sameNames_joinAll (fun s hs => h s (List.mem_of_mem_filter hs))
        (hperm.filter (·.name = k))
      rwa [hs, hs'] at hsame

/-! ### Two functions of one name -/

namespace Sample

/-- A function `f` whose code is `s = 1;`, all on line 1. -/
def idleCode : Walk.Setting :=
  { graph := ⟨#[
      ⟨1, .function "f" [] [some 1] []⟩,
      ⟨1, .assignment "=" (some 2) (some 3)⟩,
      ⟨1, .name "s"⟩,
      ⟨1, .literal .number "1" true⟩]⟩
    declared := some fun _ => false }

def idle : Scope :=
  { name := "f@1", vars := [{ home := 0, name := "s", line := 1, escaped := true }] }

theorem analysed_idle : Analysed idle := ⟨idleCode, some 0, by decide +kernel⟩

/-- A function `f` of line 1 whose code is `var s = retSource(); sink(s);` on line 2. -/
def sunkCode : Walk.Setting :=
  { graph := ⟨#[
      ⟨1, .function "f" [] [some 1, some 6] ["s"]⟩,
      ⟨2, .declaration .var [2]⟩,
      ⟨2, .binding (some 3) (some 4)⟩,
      ⟨2, .name "s"⟩,
      ⟨2, .call (some 5) [] false⟩,
      ⟨2, .name "retSource"⟩,
      ⟨2, .call (some 7) [some 8] false⟩,
      ⟨2, .name "sink"⟩,
      ⟨2, .name "s"⟩]⟩
    declared := some fun x => x = "s" }

def sunk : Scope :=
  { name := "f@1", vars := [{ home := 0, name := "s", line := 2, source := true, taint := .must }] }

theorem analysed_sunk : Analysed sunk := ⟨sunkCode, some 0, by decide +kernel⟩

theorem analysed_both : ∀ s ∈ [idle, sunk], Analysed s := by
  intro s hs
  simp only [List.mem_cons, List.not_mem_nil, or_false] at hs
  rcases hs with rfl | rfl
  · exact analysed_idle
  · exact analysed_sunk

end Sample

/-- Which of two functions of one name comes first shows in the line of `s`, and in
nothing else. -/
theorem collect_order_insensitive_collision :
    ([[Sample.idle], [Sample.sunk]].foldl collect {}).results.get? "f@1" =
      some ⟨["s@1"], ["s@1"]⟩ ∧
    ([[Sample.sunk, Sample.idle]].foldl collect {}).results.get? "f@1" =
      some ⟨["s@2"], ["s@2"]⟩ ∧
    SameNames ⟨["s@1"], ["s@1"]⟩ ⟨["s@2"], ["s@2"]⟩ := by
  have hfirst : ([[Sample.idle], [Sample.sunk]].foldl collect {}).results.get? "f@1" =
      some ⟨["s@1"], ["s@1"]⟩ := by decide +kernel
  have hlast : ([[Sample.sunk, Sample.idle]].foldl collect {}).results.get? "f@1" =
      some ⟨["s@2"], ["s@2"]⟩ := by decide +kernel
  obtain ⟨_, _, _, _, hperm⟩ := collect_order_insensitive [[Sample.idle], [Sample.sunk]]
    Sample.analysed_both
  obtain ⟨_, hsame⟩ := hperm [[Sample.sunk, Sample.idle]] (List.Perm.swap _ _ _)
  exact ⟨hfirst, hlast, hsame "f@1" _ _ hfirst hlast⟩

end Document

end TaintReach
