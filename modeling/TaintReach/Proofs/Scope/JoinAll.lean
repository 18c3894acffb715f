import Mathlib.Data.List.Induction
import TaintReach.Proofs.Scope.Join

/-! Joins of many scopes, from left to right.

What such a join knows is what its scopes know, combined in their order
(`view_joinAll`). Since combining is left regular, scopes that were joined already
add nothing (`View.foldl_absorbed`). For a single name the join keeps the line of
the first scope that has it (`line_joinAll`), and its verdict is the highest of
all (`reaches_joinAll`), so that whether a verdict is reached does not depend on
the order of the scopes, nor on how often each comes. -/
namespace TaintReach.Scope

/-- Joins scopes from left to right. -/
def joinAll : List Scope → Option Scope
  | [] => none
  | s :: rest => some (rest.foldl (fun acc t => join (some acc) (some t)) s)

theorem joinAll_append (scopes : List Scope) (s : Scope) :
    joinAll (scopes ++ [s]) =
      some ((joinAll scopes).elim s fun acc => join (some acc) (some s)) := by
  cases scopes with
  | nil => rfl
  | cons t rest => simp [joinAll, List.foldl_append]

theorem joinAll_eq_none_iff {scopes : List Scope} : joinAll scopes = none ↔ scopes = [] := by
  cases scopes <;> simp [joinAll]

/-- An induction over scopes joined from left to right. -/
theorem joinAll_induction {P : List Scope → Scope → Prop} (hnil : P [] unnamed)
    (hone : ∀ s, P [s] s)
    (hjoin : ∀ scopes acc s, joinAll scopes = some acc → P scopes acc →
      P (scopes ++ [s]) (join (some acc) (some s))) (scopes : List Scope) :
    P scopes ((joinAll scopes).getD unnamed) := by
  induction scopes using List.reverseRecOn with
  | nil => exact hnil
  | append_singleton scopes s ih =>
    rw [joinAll_append]
    cases h : joinAll scopes with
    | none =>
      obtain rfl := joinAll_eq_none_iff.mp h
      exact hone s
    | some acc =>
      rw [h] at ih
      exact hjoin scopes acc s h ih

/-- The join of many is regular, and it knows what they know together. -/
theorem view_joinAll {scopes : List Scope} (h : ∀ s ∈ scopes, s.Regular) :
    ((joinAll scopes).getD unnamed).Regular ∧
      ((joinAll scopes).getD unnamed).view = (scopes.map view).foldl View.combine View.empty := by
  revert h
  refine joinAll_induction (P := fun scopes acc => (∀ s ∈ scopes, s.Regular) →
    acc.Regular ∧ acc.view = (scopes.map view).foldl View.combine View.empty) ?_ ?_ ?_ scopes
  · exact fun _ => ⟨regular_unnamed, rfl⟩
  · exact fun s h => ⟨h s List.mem_cons_self, (View.empty_combine _).symm⟩
  · intro scopes acc s _ ih h
    obtain ⟨hacc, hview⟩ := ih fun t ht => h t (List.mem_append_left _ ht)
    have hs : s.Regular := h s (List.mem_append_right _ List.mem_cons_self)
    refine ⟨Regular.join (a := some acc) (b := some s) hacc hs, ?_⟩
    rw [view_join (a := some acc) (b := some s) hacc hs, List.map_append, List.foldl_append, ← hview]
    rfl

theorem home_joinAll {scopes : List Scope} (h : ∀ s ∈ scopes, s.home = 0) :
    ((joinAll scopes).getD unnamed).home = 0 := by
  revert h
  refine joinAll_induction (P := fun scopes acc => (∀ s ∈ scopes, s.home = 0) → acc.home = 0)
    ?_ ?_ ?_ scopes
  · exact fun _ => rfl
  · exact fun s h => h s List.mem_cons_self
  · intro scopes acc s _ _ _
    rw [join_eq_merge]
    exact (merge_keeps _ _).2

/-- Scopes of one name join to a scope of that name. -/
theorem name_joinAll {scopes : List Scope} {k : String} (hk : k ≠ "") (h : ∀ s ∈ scopes, s.name = k)
    {acc : Scope} (hacc : joinAll scopes = some acc) : acc.name = k := by
  have hall := joinAll_induction (P := fun scopes acc => scopes ≠ [] → (∀ s ∈ scopes, s.name = k) →
    acc.name = k) (fun h => absurd rfl h) (fun s _ h => h s List.mem_cons_self) ?_ scopes
  · rw [hacc] at hall
    refine hall ?_ h
    rintro rfl
    cases hacc
  · intro scopes acc s hsome ih _ h
    have hs : s.name = k := h s (List.mem_append_right _ List.mem_cons_self)
    have hprev : acc.name = k := by
      refine ih ?_ fun t ht => h t (List.mem_append_left _ ht)
      rintro rfl
      cases hsome
    rw [join_eq_merge, (merge_keeps _ _).1]
    simp only [Option.getD_some, hs, hprev, ite_self, new, if_neg hk]

/-! ### Scopes that add nothing -/

namespace View

theorem absorbs_combine {u v : View} (h : u.combine v = u) (w : View) :
    (u.combine w).combine v = u.combine w := by
  calc (u.combine w).combine v
      = ((u.combine v).combine w).combine v := by rw [h]
    _ = u.combine ((v.combine w).combine v) := by simp only [combine_assoc]
    _ = (u.combine v).combine w := by rw [combine_left_regular, combine_assoc]
    _ = u.combine w := by rw [h]

theorem absorbs_foldl {u v : View} (h : u.combine v = u) (ws : List View) :
    (ws.foldl combine u).combine v = ws.foldl combine u := by
  induction ws generalizing u with
  | nil => exact h
  | cons w ws ih => exact ih (absorbs_combine h w)

theorem absorbs_of_mem {vs : List View} {v : View} (hv : v ∈ vs) (u : View) :
    (vs.foldl combine u).combine v = vs.foldl combine u := by
  induction vs generalizing u with
  | nil => cases hv
  | cons w vs ih =>
    rcases List.mem_cons.mp hv with rfl | hv
    · refine absorbs_foldl ?_ vs
      rw [combine_assoc, combine_self]
    · exact ih hv _

theorem foldl_absorbed {u : View} {vs : List View} (h : ∀ v ∈ vs, u.combine v = u) :
    vs.foldl combine u = u := by
  induction vs with
  | nil => rfl
  | cons v vs ih =>
    rw [List.foldl_cons, h v List.mem_cons_self]
    exact ih fun w hw => h w (List.mem_cons_of_mem v hw)

end View

/-- Joining the same scopes once more changes nothing. -/
theorem joinAll_twice {scopes : List Scope} (hregular : ∀ s ∈ scopes, s.Regular)
    (hhome : ∀ s ∈ scopes, s.home = 0) :
    (joinAll (scopes ++ scopes)).getD unnamed = (joinAll scopes).getD unnamed := by
  have hboth : ∀ {P : Scope → Prop}, (∀ s ∈ scopes, P s) → ∀ s ∈ scopes ++ scopes, P s :=
    fun h s hs => h s ((List.mem_append.mp hs).elim id id)
  obtain ⟨honce, hview⟩ := view_joinAll hregular
  obtain ⟨htwice, hviews⟩ := view_joinAll (hboth hregular)
  refine htwice.wellFormed.eq_of_view honce.wellFormed
    ((home_joinAll (hboth hhome)).trans (home_joinAll hhome).symm) ?_
  rw [hviews, hview, List.map_append, List.foldl_append]
  exact View.foldl_absorbed fun v hv => View.absorbs_of_mem hv _

/-! ### One name -/

/-- The verdict on `x` is `t` or higher. -/
def View.Reaches (u : View) (t : Taint) (x : String) : Prop :=
  ∃ f, u.facts x = some f ∧ t.rank ≤ f.taint.rank

theorem View.reaches_combine {u v : View} {t : Taint} {x : String} :
    (u.combine v).Reaches t x ↔ u.Reaches t x ∨ v.Reaches t x := by
  unfold Reaches
  simp only [combine]
  rcases u.facts x with _ | a <;> rcases v.facts x with _ | b <;> simp only [Option.merge]
  · simp
  · simp
  · simp
  · simp only [Option.some.injEq, exists_eq_left', Facts.combine, Taint.max]
    split <;> omega

theorem View.reaches_foldl {vs : List View} {u : View} {t : Taint} {x : String} :
    (vs.foldl combine u).Reaches t x ↔ u.Reaches t x ∨ ∃ v ∈ vs, v.Reaches t x := by
  induction vs generalizing u with
  | nil => simp
  | cons v vs ih => rw [List.foldl_cons, ih, reaches_combine, or_assoc, List.exists_mem_cons_iff]

theorem reaches_joinAll {scopes : List Scope} (h : ∀ s ∈ scopes, s.Regular) {t : Taint}
    {x : String} : ((joinAll scopes).getD unnamed).view.Reaches t x ↔
      ∃ s ∈ scopes, s.view.Reaches t x := by
  have hempty : ¬ View.empty.Reaches t x := by
    rintro ⟨f, hf, _⟩
    cases hf
  rw [(view_joinAll h).2, View.reaches_foldl, or_iff_right hempty]
  simp only [List.mem_map, exists_exists_and_eq_and]

theorem View.line_foldl (vs : List View) (u : View) (x : String) :
    ((vs.foldl combine u).facts x).map Facts.line =
      ((u.facts x).map Facts.line).or (vs.findSome? fun v => (v.facts x).map Facts.line) := by
  induction vs generalizing u with
  | nil => exact Option.or_none.symm
  | cons v vs ih =>
    have hfirst : ((u.combine v).facts x).map Facts.line =
        ((u.facts x).map Facts.line).or ((v.facts x).map Facts.line) := by
      simp only [combine]
      rcases u.facts x with _ | a <;> rcases v.facts x with _ | b <;> rfl
    rw [List.foldl_cons, ih, hfirst, Option.or_assoc, List.findSome?_cons]
    cases (v.facts x).map Facts.line <;> rfl

/-- The line of `x` is that in the first scope that has it. -/
theorem line_joinAll {scopes : List Scope} (h : ∀ s ∈ scopes, s.Regular) (x : String) :
    (((joinAll scopes).getD unnamed).view.facts x).map Facts.line =
      scopes.findSome? fun s => (s.view.facts x).map Facts.line := by
  rw [(view_joinAll h).2, View.line_foldl, List.findSome?_map]
  rfl

end TaintReach.Scope
