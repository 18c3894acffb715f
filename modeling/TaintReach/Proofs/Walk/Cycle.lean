import Mathlib.Logic.Relation
import TaintReach.Walk

/-! Standing below a node, and cycles.

The walk and the classifier fail when they come upon a node that stands on the
path to it. Every node on the path has the node they stand at below it, so such
a node stands below itself. The classifier tells of a line only in that case
(`classify_cyclic`). -/
namespace TaintReach

namespace Graph

variable {g : Graph}

/-- The node is that of a function. -/
def IsFunction (g : Graph) (id : NodeId) : Prop :=
  ∃ line name params body locals, g.node? id = some ⟨line, .function name params body locals⟩

theorem mem_present {fields : List (Option NodeId)} {c : NodeId} :
    some c ∈ present fields ↔ some c ∈ fields := by
  simp [present]

/-- `c` is a direct sub-node of `p`. -/
def Child (g : Graph) (p c : NodeId) : Prop :=
  ∃ n, g.node? p = some n ∧ some c ∈ n.form.children

/-- `c` is `p` or stands below it, at any depth. -/
def Within (g : Graph) : NodeId → NodeId → Prop := Relation.ReflTransGen g.Child

/-- `c` stands below `p`. -/
def Below (g : Graph) : NodeId → NodeId → Prop := Relation.TransGen g.Child

/-- What a field holds stands below `p`. -/
def Holds (g : Graph) (p : NodeId) (c : Option NodeId) : Prop := ∀ d, c = some d → g.Below p d

/-- Some node from `c` down stands below itself. -/
def Cyclic (g : Graph) (c : NodeId) : Prop := ∃ d, g.Within c d ∧ g.Below d d

/-- Every node of the path has `c` below it. -/
def Leads (g : Graph) (path : List NodeId) (c : NodeId) : Prop := ∀ p ∈ path, g.Below p c

theorem Within.below {a b c : NodeId} (h : g.Within a b) (hc : g.Below b c) : g.Within a c :=
  h.trans hc.to_reflTransGen

theorem Cyclic.above {c d : NodeId} (hd : g.Below c d) (h : g.Cyclic d) : g.Cyclic c := by
  obtain ⟨e, he, hloop⟩ := h
  exact ⟨e, hd.to_reflTransGen.trans he, hloop⟩

theorem Leads.cyclic {path : List NodeId} {c : NodeId} (h : g.Leads path c) (hc : c ∈ path) :
    g.Cyclic c :=
  ⟨c, .refl, h c hc⟩

theorem Leads.below {path : List NodeId} {c d : NodeId} (h : g.Leads path c) (hd : g.Below c d) :
    g.Leads (c :: path) d := by
  intro p hp
  rcases List.mem_cons.mp hp with rfl | hp
  · exact hd
  · exact (h p hp).trans hd

theorem holds_child {p : NodeId} {n : Node} {c : Option NodeId} (hn : g.node? p = some n)
    (hc : c ∈ n.form.children) : g.Holds p c :=
  fun _ hd => .single ⟨n, hn, hd ▸ hc⟩

theorem not_below_of_childless {p d : NodeId}
    (h : (g.node? p).map (·.form.children) = some []) : ¬ g.Below p d := by
  intro hbelow
  obtain ⟨c, ⟨n, hn, hc⟩, _⟩ := Relation.TransGen.head'_iff.mp hbelow
  rw [hn] at h
  have hnone : n.form.children = [] := Option.some.inj h
  rw [hnone] at hc
  cases hc

/-- A field of a list of fields, absent ones left out or not, is held. -/
theorem holds_present {p : NodeId} {n : Node} {fields : List (Option NodeId)} {c : Option NodeId}
    (hn : g.node? p = some n) (hfields : ∀ d ∈ present fields, d ∈ n.form.children)
    (hc : c ∈ fields) : g.Holds p c := by
  intro d hd
  subst hd
  exact holds_child hn (hfields _ (List.mem_filter.mpr ⟨hc, rfl⟩)) d rfl

/-- Both sides of a binding or an assignment are held. -/
theorem holds_sides {p : NodeId} {n : Node} {t v : Option NodeId} (hn : g.node? p = some n)
    (hsides : n.form.children = present [t, v]) : g.Holds p t ∧ g.Holds p v :=
  have hfields : ∀ d ∈ present [t, v], d ∈ n.form.children := fun _ h => hsides ▸ h
  ⟨holds_present hn hfields (by simp), holds_present hn hfields (by simp)⟩

theorem node?_of_at? {c : Option NodeId} {n : Node} (h : g.at? c = some n) :
    ∃ id, c = some id ∧ g.node? id = some n := by
  cases c with
  | none => cases h
  | some id => exact ⟨id, rfl, h⟩

theorem at?_of_name? {c : Option NodeId} {x : String} {line : Int}
    (h : g.name? c = some (x, line)) : g.at? c = some ⟨line, .name x⟩ := by
  unfold Graph.name? at h
  split at h
  · rename_i heq
    cases h
    exact heq
  · cases h

/-- What the node in a held field holds is held. -/
theorem Holds.at? {p : NodeId} {c a : Option NodeId} {n : Node} (h : g.Holds p c)
    (hc : g.at? c = some n) (ha : ∀ id, g.node? id = some n → g.Holds id a) : g.Holds p a := by
  obtain ⟨id, rfl, hn⟩ := node?_of_at? hc
  exact fun d hd => (h id rfl).trans (ha id hn d hd)

/-- A cycle found from a sub-node down is one from the node down. -/
theorem Leads.cyclic_of_child {path : List NodeId} {p : NodeId} {n : Node} {c : Option NodeId}
    (h : g.Leads path p) (hn : g.node? p = some n) (hc : c ∈ n.form.children)
    (hfound : (∀ d, c = some d → g.Leads (p :: path) d) → ∃ d, c = some d ∧ g.Cyclic d) :
    g.Cyclic p := by
  have hholds := holds_child hn hc
  obtain ⟨d, rfl, hd⟩ := hfound fun d hd => h.below (hholds d hd)
  exact hd.above (hholds d rfl)

/-! ### Well-founded parts -/

/-- Every way down from the node in the field `c` comes to an end. -/
def Founded (g : Graph) (c : Option NodeId) : Prop :=
  ∀ id, c = some id → Acc (fun c p => g.Child p c) id

theorem founded_of_children {c : Option NodeId}
    (h : ∀ n, g.at? c = some n → ∀ a ∈ n.form.children, g.Founded a) : g.Founded c := by
  rintro id rfl
  refine Acc.intro id fun a hchild => ?_
  obtain ⟨n, hn, ha⟩ := hchild
  exact h n hn (some a) ha a rfl

theorem founded_of_at? {c : Option NodeId} {n : Node} (hn : g.at? c = some n)
    (h : ∀ a ∈ n.form.children, g.Founded a) : g.Founded c :=
  founded_of_children fun _ hm => Option.some.inj (hn.symm.trans hm) ▸ h

theorem founded_present {fields : List (Option NodeId)} (h : ∀ a ∈ fields, g.Founded a) :
    ∀ a ∈ present fields, g.Founded a :=
  fun a ha => h a (List.mem_filter.mp ha).1

theorem founded_none : g.Founded none := fun _ h => by cases h

theorem not_below_self {id : NodeId} (h : Acc (fun c p => g.Child p c) id) : ¬ g.Below id id := by
  induction h with
  | intro p _ ih =>
    intro hloop
    obtain ⟨c, hc, hback⟩ := Relation.TransGen.head'_iff.mp hloop
    exact ih c hc (Relation.TransGen.tail' hback hc)

theorem Founded.not_cyclic {id : NodeId} (h : g.Founded (some id)) : ¬ g.Cyclic id := by
  rintro ⟨d, hd, hloop⟩
  refine not_below_self ?_ hloop
  clear hloop
  induction hd with
  | refl => exact h id rfl
  | tail _ hchild ih => exact ih.inv hchild

end Graph

namespace Walk

variable {g : Graph} {consts : Consts}

theorem Classified.loopLine_combine {op : Reachable → Reachable → Reachable} {a b : Classified}
    (h : (a.combine op b).loopLine.isSome) : a.loopLine.isSome ∨ b.loopLine.isSome := by
  unfold combine at h
  cases hb : b.loopLine with
  | some _ => exact Or.inr rfl
  | none =>
    rw [hb] at h
    exact Or.inl h

theorem foldParts_loopLine {part : Option NodeId → Classified} {children : List (Option NodeId)}
    {acc : Classified} (h : (foldParts part acc children).loopLine.isSome) :
    acc.loopLine.isSome ∨ ∃ c ∈ children, (part c).loopLine.isSome := by
  induction children generalizing acc with
  | nil => exact Or.inl h
  | cons c rest ih =>
    have hmet : (acc.combine .meet (part c)).loopLine.isSome ∨
        ∃ d ∈ rest, (part d).loopLine.isSome := by
      unfold foldParts at h
      simp only at h
      split at h
      · exact Or.inl h
      · exact ih h
    rcases hmet with hmet | ⟨d, hd, hloop⟩
    · exact (Classified.loopLine_combine hmet).imp_right fun hc => ⟨c, List.mem_cons_self, hc⟩
    · exact Or.inr ⟨d, List.mem_cons_of_mem c hd, hloop⟩

theorem operand_cyclic {path : List NodeId} {child : Option NodeId}
    (hpath : ∀ id, child = some id → g.Leads path id)
    (h : (operand g consts path child).loopLine.isSome) :
    ∃ id, child = some id ∧ g.Cyclic id := by
  fun_induction operand g consts path child with
  | case6 path id n hn _ hp _ _ => exact ⟨id, rfl, (hpath id rfl).cyclic hp⟩
  | case7 path id n hn _ _ _ _ ih =>
    rcases foldParts_loopLine h with h | ⟨c, hc, hloop⟩
    · cases h
    · exact ⟨id, rfl, (hpath id rfl).cyclic_of_child hn hc fun hp => ih c hp hloop⟩
  | _ => cases h

/-- A line that the classifier tells of is that of a cycle. -/
theorem classify_cyclic {path : List NodeId} {child : Option NodeId}
    (hpath : ∀ id, child = some id → g.Leads path id)
    (h : (classify g consts path child).loopLine.isSome) :
    ∃ id, child = some id ∧ g.Cyclic id := by
  fun_induction classify g consts path child with
  | case3 path id n hn hp => exact ⟨id, rfl, (hpath id rfl).cyclic hp⟩
  | case7 path id n hn _ _ a hform ih =>
    have ha : a ∈ n.form.children := by rw [hform]; exact List.mem_singleton_self a
    exact ⟨id, rfl, (hpath id rfl).cyclic_of_child hn ha fun hp => ih hp h⟩
  | case8 path id n hn _ _ a b hform iha ihb
  | case9 path id n hn _ _ a b hform iha ihb
  | case10 path id n hn _ _ a b hform iha ihb =>
    have ha : a ∈ n.form.children := by rw [hform]; exact List.mem_cons_self
    have hb : b ∈ n.form.children := by
      rw [hform]
      exact List.mem_cons_of_mem a (List.mem_singleton_self b)
    rcases Classified.loopLine_combine h with h | h
    · exact ⟨id, rfl, (hpath id rfl).cyclic_of_child hn ha fun hp => iha hp h⟩
    · exact ⟨id, rfl, (hpath id rfl).cyclic_of_child hn hb fun hp => ihb hp h⟩
  | case11 path id n hn _ _ first rest hform ih =>
    have hlast : (first :: rest).getLast (by simp) ∈ n.form.children := by
      rw [hform]
      exact List.getLast_mem _
    exact ⟨id, rfl, (hpath id rfl).cyclic_of_child hn hlast fun hp => ih hp h⟩
  | case12 path id n hn =>
    rcases foldParts_loopLine h with h | ⟨c, hc, hloop⟩
    · cases h
    · exact ⟨id, rfl, (hpath id rfl).cyclic_of_child hn hc fun hp => operand_cyclic hp hloop⟩
  | _ => cases h

/-- A name is judged by what is known of it. -/
theorem classify_of_name {path : List NodeId} {id : NodeId} {line : Int} {x : String}
    (hn : g.node? id = some ⟨line, .name x⟩) (hp : id ∉ path) :
    classify g consts path (some id) = ⟨(consts.truth? x).elim .maybe
      fun truthy => if truthy then .always else .never, none⟩ := by
  rw [classify.eq_def]
  simp only
  split
  · rename_i h
    rw [hn] at h
    cases h
  · rename_i n h
    obtain rfl := Option.some.inj (hn.symm.trans h)
    rw [dif_neg hp]
    simp only [constant?]
    cases consts.truth? x <;> rfl

end Walk

end TaintReach
