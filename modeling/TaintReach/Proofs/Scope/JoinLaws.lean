import TaintReach.Proofs.Scope.Join

/-! Joining scopes is an idempotent, left-regular monoid.

Scopes that come out of registering variables, setting their fields and making
one derive from another are `Regular`, so what a join knows of them is the
combination of what they know (`view_join`), and joins of them are regular again.
`join_left_regular_band` draws the laws from those of `View.combine`: grouping does
not matter, an absent or an empty operand adds nothing, and neither does an
operand that was joined before. Order does matter for lines and for the order of
names, and for nothing else. -/
namespace TaintReach.Scope

/-! ### Scopes that can be built -/

/-- Scopes made by registering variables, setting fields to values that have a name
and making variables derive from each other. -/
inductive Built : Scope → Prop
  | new (name : String) (home : Nat) : Built (new name home)
  | register {s : Scope} (h : Built s) (x : String) (line : Int) :
    Built (s.findOrCreate x line).1
  | depend {s : Scope} (h : Built s) (x y : String) : Built (s.depend x y)
  | source {s : Scope} (h : Built s) (x : String) (b : Bool) :
    Built (s.update x fun v => { v with source := b })
  | escaped {s : Scope} (h : Built s) (x : String) (b : Bool) :
    Built (s.update x fun v => { v with escaped := b })
  | taint {s : Scope} (h : Built s) (x : String) {t : Taint} (ht : t ∈ [.clean, .may, .must]) :
    Built (s.update x fun v => { v with taint := t })
  | reachable {s : Scope} (h : Built s) (x : String) {r : Reachable}
    (hr : r ∈ [.always, .maybe, .never]) : Built (s.update x fun v => { v with reachable := r })

/-- A change of one variable keeps a scope regular if it keeps reference and
dependents, and the verdict does not fall below `clean`. -/
theorem Regular.update {s : Scope} (h : s.Regular) (x : String) {f : Variable → Variable}
    (href : ∀ v, (f v).ref = v.ref) (hdep : ∀ v, (f v).dependents = v.dependents)
    (htaint : ∀ v, 0 ≤ v.taint.rank → 0 ≤ (f v).taint.rank) : (s.update x f).Regular where
  wellFormed := h.wellFormed.update x href hdep
  named := h.named
  taint v hv := by
    obtain ⟨w, hw, rfl⟩ := List.mem_map.mp hv
    split
    · exact htaint w (h.taint w hw)
    · exact h.taint w hw

theorem Regular.findOrCreate {s : Scope} (h : s.Regular) (x : String) (line : Int) :
    (s.findOrCreate x line).1.Regular := by
  unfold Scope.findOrCreate
  split
  · exact h
  · refine ⟨h.wellFormed.add ‹_› rfl, h.named, fun v hv => ?_⟩
    rcases List.mem_append.mp hv with hv | hv
    · exact h.taint v hv
    · obtain rfl := List.mem_singleton.mp hv
      exact Int.le_refl 0

theorem Regular.depend {s : Scope} (h : s.Regular) (x y : String) : (s.depend x y).Regular := by
  refine ⟨h.wellFormed.depend x y, ?_, fun v hv => ?_⟩
  · rw [(grows_depend s x y).name]
    exact h.named
  · unfold Scope.depend at hv
    split at hv
    · exact h.taint v hv
    · obtain ⟨w, hw, rfl⟩ := List.mem_map.mp hv
      have hrank := h.taint w hw
      split
      · exact Int.le_trans hrank (Variable.grows_addDependency w _).taint
      · exact hrank

theorem Built.regular {s : Scope} (h : Built s) : s.Regular := by
  induction h with
  | new name home => exact ⟨wellFormed_of_empty rfl, new_name_ne name home, fun _ hv => by cases hv⟩
  | register _ x line ih => exact ih.findOrCreate x line
  | depend _ x y ih => exact ih.depend x y
  | source _ x b ih => exact ih.update x (fun _ => rfl) (fun _ => rfl) fun _ h => h
  | escaped _ x b ih => exact ih.update x (fun _ => rfl) (fun _ => rfl) fun _ h => h
  | reachable _ x hr ih => exact ih.update x (fun _ => rfl) (fun _ => rfl) fun _ h => h
  | taint _ x ht ih =>
    have hrank : ∀ t ∈ [Taint.clean, .may, .must], 0 ≤ t.rank := by decide
    exact ih.update x (fun _ => rfl) (fun _ => rfl) fun _ _ => hrank _ ht

/-! ### The laws -/

/-- A scope apart from where it is kept: its name, and its variables in order. -/
def contents (s : Scope) : String × List Facts := (s.name, s.vars.map Variable.facts)

theorem contents_eq_of_view {s t : Scope} (hs : s.WellFormed) (ht : t.WellFormed)
    (h : s.view = t.view) : s.contents = t.contents := by
  have hname : s.name = t.name := congrArg View.name h
  have hnames : s.names = t.names := congrArg View.names h
  have hvars : s.vars.map Variable.facts = t.vars.map Variable.facts :=
    calc s.vars.map Variable.facts
        = s.names.filterMap fun x => (s.view.facts x).map id := (hs.filterMap_names id).symm
      _ = t.names.filterMap fun x => (t.view.facts x).map id := by rw [h, hnames]
      _ = t.vars.map Variable.facts := ht.filterMap_names id
  rw [contents, contents, hname, hvars]

/-- Which operand comes first shows in lines and orders only. -/
theorem View.combine_comm {u v : View} {x : String} (hu : ∀ f, u.facts x = some f → f.name = x)
    (hv : ∀ f, v.facts x = some f → f.name = x) :
    Option.Rel Facts.Same ((u.combine v).facts x) ((v.combine u).facts x) := by
  simp only [combine]
  rcases hfu : u.facts x with _ | a <;> rcases hfv : v.facts x with _ | b
  · exact .none
  · exact .some (.refl b)
  · exact .some (.refl a)
  · exact .some (Facts.combine_comm ((hu a hfu).trans (hv b hfv).symm))

theorem name_of_view {s : Scope} {x : String} {f : Facts} (h : s.view.facts x = some f) :
    f.name = x := by
  obtain ⟨v, hv, rfl⟩ := Option.map_eq_some_iff.mp h
  exact name_of_lookup? hv

/-- A join is known by what its operands know. -/
theorem contents_join {a b : Option Scope} {s : Scope} (ha : (a.getD unnamed).Regular)
    (hb : (b.getD unnamed).Regular) (hs : s.Regular)
    (h : (a.getD unnamed).view.combine (b.getD unnamed).view = s.view) :
    (join a b).contents = s.contents :=
  contents_eq_of_view (wellFormed_join a b) hs.wellFormed ((view_join ha hb).trans h)

theorem Built.regular_getD {a : Option Scope} (h : ∀ s ∈ a, Built s) :
    (a.getD unnamed).Regular := by
  cases a with
  | none => exact regular_unnamed
  | some s => exact (h s rfl).regular

/-- **Joining is an idempotent, left-regular monoid** on scopes that can be built, an
absent one counting as the empty scope without a name; the order of the operands
shows in lines and orders only. -/
theorem join_left_regular_band (a b c : Option Scope) (ha : ∀ s ∈ a, Built s)
    (hb : ∀ s ∈ b, Built s) (hc : ∀ s ∈ c, Built s) :
    (join (some (join a b)) c).contents = (join a (some (join b c))).contents ∧
    (join a none).contents = (a.getD unnamed).contents ∧
    (join none a).contents = (a.getD unnamed).contents ∧
    (∀ home, (join a (some (new unnamedScope home))).contents = (a.getD unnamed).contents ∧
      (join (some (new unnamedScope home)) a).contents = (a.getD unnamed).contents) ∧
    (join a a).contents = (a.getD unnamed).contents ∧
    (join (some (join a b)) a).contents = (join a b).contents ∧
    ∀ x, Option.Rel Facts.Same (((join a b).lookup? x).map Variable.facts)
      (((join b a).lookup? x).map Variable.facts) := by
  replace ha := Built.regular_getD ha
  replace hb := Built.regular_getD hb
  replace hc := Built.regular_getD hc
  have hab := ha.join hb
  have hbc := hb.join hc
  have hempty : ∀ home, (new unnamedScope home).Regular := fun home => (Built.new _ home).regular
  refine ⟨?_, ?_, ?_, fun home => ⟨?_, ?_⟩, ?_, ?_, fun x => ?_⟩
  · refine contents_join (a := some (join a b)) hab hc (ha.join (b := some (join b c)) hbc) ?_
    rw [Option.getD_some, view_join ha hb, View.combine_assoc,
      view_join (b := some (join b c)) ha hbc, Option.getD_some, view_join hb hc]
  · exact contents_join (b := none) ha regular_unnamed ha (View.combine_empty _)
  · exact contents_join (a := none) regular_unnamed ha ha (View.empty_combine _)
  · exact contents_join (b := some _) ha (hempty home) ha (View.combine_empty _)
  · exact contents_join (a := some _) (hempty home) ha ha (View.empty_combine _)
  · exact contents_join ha ha ha (View.combine_self _)
  · refine contents_join (a := some (join a b)) hab ha hab ?_
    rw [Option.getD_some, view_join ha hb, View.combine_left_regular]
  · have hcomm := View.combine_comm (u := (a.getD unnamed).view) (v := (b.getD unnamed).view) (x := x)
      (fun _ => name_of_view) fun _ => name_of_view
    rwa [← view_join ha hb, ← view_join hb ha] at hcomm

namespace Sample

/-- A scope where `t`, of line 2, derives from the source `s`, of line 1. -/
def left : Scope :=
  let s := ((new "f@1" 0).findOrCreate "s" 1).1.update "s" fun v => { v with source := true }
  (s.findOrCreate "t" 2).1.depend "t" "s"

/-- A scope where `s`, of line 6, derives from `u`, of line 5, and must reach a sink. -/
def right : Scope :=
  let s := (((new "g@5" 1).findOrCreate "u" 5).1.findOrCreate "s" 6).1.depend "s" "u"
  s.update "s" fun v => { v with taint := .must }

theorem built_left : Built left :=
  .depend (.register (.source (.register (.new "f@1" 0) "s" 1) "s" true) "t" 2) "t" "s"

theorem built_right : Built right :=
  .taint (.depend (.register (.register (.new "g@5" 1) "u" 5) "s" 6) "s" "u") "s" (by decide)

end Sample

/-- Two scopes that do not commute, and add nothing when joined again. -/
theorem join_left_regular_band_collision :
    Built Sample.left ∧ Built Sample.right ∧
    (join (some Sample.left) (some Sample.right)).contents ≠
      (join (some Sample.right) (some Sample.left)).contents ∧
    (join (some (join (some Sample.left) (some Sample.right))) (some Sample.left)).contents =
      (join (some Sample.left) (some Sample.right)).contents := by
  have hleft : ∀ s ∈ some Sample.left, Built s := by
    rintro _ ⟨⟩
    exact Sample.built_left
  have hright : ∀ s ∈ some Sample.right, Built s := by
    rintro _ ⟨⟩
    exact Sample.built_right
  obtain ⟨_, _, _, _, _, hregular, _⟩ := join_left_regular_band _ _ none hleft hright nofun
  exact ⟨Sample.built_left, Sample.built_right, by decide +kernel, hregular⟩

end TaintReach.Scope
