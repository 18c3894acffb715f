import TaintReach.Proofs.Walk.Look

/-! Conditions judged from another path, or in another graph.

The path matters to the classifier only where a node is met again, and then a line is
told of. So a condition that tells of none is judged as it would be from any shorter
path, and from the same path it is judged as in a graph that has other things below one
of the nodes on it (`classify_retold`). The classes given are the three that have a
name, or lower (`classify_named`). -/
namespace TaintReach

namespace Reachable

/-- No class is beyond `never`. -/
def Named (r : Reachable) : Prop := r.rank ≤ never.rank

variable {a b : Reachable}

theorem named_always : always.Named := show always.rank ≤ never.rank by decide

theorem named_maybe : maybe.Named := show maybe.rank ≤ never.rank by decide

theorem named_never : never.Named := Int.le_refl _

theorem Named.meet (ha : a.Named) (hb : b.Named) : (a.meet b).Named := by
  unfold Reachable.meet
  split
  · exact ha
  · exact hb

theorem Named.either (ha : a.Named) (hb : b.Named) : (a.either b).Named := by
  unfold Reachable.either
  split
  · exact ha
  · exact hb

theorem named_negate (a : Reachable) : a.negate.Named := by
  unfold negate
  split
  · exact named_never
  · split
    · exact named_always
    · exact named_maybe

/-- Nothing is run behind a condition that never holds. -/
theorem Named.meet_never (ha : a.Named) : a.meet never = never :=
  if_neg (Int.not_lt.mpr ha)

end Reachable

/-- The form is that of a conditional. -/
def Form.IsConditional (form : Form) : Prop :=
  ∃ kind init test update each body otherwise,
    form = .conditional kind init test update each body otherwise

/-- Two graphs that have the same nodes among those of `K`, but for one that is a
conditional in both. What stands below any other is of `K` again. -/
structure Graph.SameBeside (g g' : Graph) (cond : NodeId) (K : NodeId → Prop) : Prop where
  node : ∀ {id}, K id → id ≠ cond → g'.node? id = g.node? id
  child : ∀ {p c}, K p → p ≠ cond → g.Child p c → K c
  cond : ∃ n n', g.node? cond = some n ∧ g'.node? cond = some n' ∧ n'.line = n.line ∧
    n.form.IsConditional ∧ n'.form.IsConditional

theorem Graph.SameBeside.refl {g : Graph} {cond : NodeId} {n : Node} (hn : g.node? cond = some n)
    (hform : n.form.IsConditional) : g.SameBeside g cond fun _ => True :=
  ⟨fun _ _ => rfl, fun _ _ _ => trivial, n, n, hn, hn, rfl, hform, hform⟩

namespace Walk

variable {g g' : Graph} {cond : NodeId} {K : NodeId → Prop} {consts : Consts} {P : Prop}

/-! ### Answers that tell of no loop

What is shown holds of all answers if `P` does, and else of those that tell of none. -/

theorem loopLine_of_combine {f : Reachable → Reachable → Reachable} {a b : Classified}
    (h : P ∨ (a.combine f b).loopLine = none) :
    (P ∨ a.loopLine = none) ∧ (P ∨ b.loopLine = none) := by
  rcases h with h | h
  · exact ⟨Or.inl h, Or.inl h⟩
  · rw [← Option.not_isSome_iff_eq_none, Classified.loopLine_combine_iff, not_or,
      Option.not_isSome_iff_eq_none, Option.not_isSome_iff_eq_none] at h
    exact ⟨Or.inr h.1, Or.inr h.2⟩

theorem loopLine_of_foldParts {part : Option NodeId → Classified} {cs : List (Option NodeId)}
    {acc : Classified} (h : P ∨ (foldParts part acc cs).loopLine = none) :
    P ∨ acc.loopLine = none := by
  induction cs generalizing acc with
  | nil => exact h
  | cons c rest ih =>
    unfold foldParts at h
    simp only at h
    split at h
    · exact (loopLine_of_combine h).1
    · exact (loopLine_of_combine (ih h)).1

theorem foldParts_retold {part part' : Option NodeId → Classified} {cs : List (Option NodeId)}
    (hpart : ∀ c ∈ cs, P ∨ (part c).loopLine = none → part' c = part c) {acc : Classified}
    (h : P ∨ (foldParts part acc cs).loopLine = none) :
    foldParts part' acc cs = foldParts part acc cs := by
  induction cs generalizing acc with
  | nil => rfl
  | cons c rest ih =>
    unfold foldParts at h ⊢
    have hmet : P ∨ (acc.combine .meet (part c)).loopLine = none := by
      simp only at h
      split at h
      · exact h
      · exact loopLine_of_foldParts h
    rw [hpart c List.mem_cons_self (loopLine_of_combine hmet).2]
    simp only at h ⊢
    split
    · rfl
    · rename_i hnever
      rw [if_neg hnever] at h
      exact ih (fun d hd => hpart d (List.mem_cons_of_mem c hd)) h

theorem judge_retold {operand operand' part part' : Option NodeId → Classified} {form : Form}
    (hoperand : ∀ c ∈ form.children, P ∨ (operand c).loopLine = none → operand' c = operand c)
    (hpart : ∀ c ∈ form.children, P ∨ (part c).loopLine = none → part' c = part c)
    (h : P ∨ (judge operand part form).loopLine = none) :
    judge operand' part' form = judge operand part form := by
  cases judgedBy form with
  | unknown hjudge => rw [hjudge, hjudge]
  | negation ha hjudge =>
    rw [hjudge] at h
    rw [hjudge, hjudge, hoperand _ ha h]
  | combination ha hb hjudge =>
    rw [hjudge] at h
    obtain ⟨hleft, hright⟩ := loopLine_of_combine h
    rw [hjudge, hjudge, hoperand _ ha hleft, hoperand _ hb hright]
  | last ha hjudge =>
    rw [hjudge] at h
    rw [hjudge, hjudge, hoperand _ ha h]
  | parts hjudge =>
    rw [hjudge] at h
    rw [hjudge, hjudge]
    exact foldParts_retold hpart h

/-! ### Paths and graphs -/

/-- A conditional met again is told of. -/
theorem operand_again {path : List NodeId} {id : NodeId} {n : Node} (hn : g.node? id = some n)
    (hform : n.form.IsConditional) (hp : id ∈ path) :
    operand g consts path (some id) = ⟨.never, some n.line⟩ := by
  obtain ⟨line, form⟩ := n
  obtain ⟨kind, init, test, update, each, body, otherwise, rfl⟩ := hform
  rw [operand_eq]
  unfold operandCall
  simp only [hn, constant?, hp, if_true, Option.isSome_none, Bool.false_eq_true, if_false]

theorem classify_again {path : List NodeId} {id : NodeId} {n : Node} (hn : g.node? id = some n)
    (hp : id ∈ path) : classify g consts path (some id) = ⟨.never, some n.line⟩ := by
  rw [classify_eq]
  unfold classifyCall
  simp only [hn, hp, if_true]

/-- A node that is told of is on the other path too. -/
theorem mem_of_told {path path' : List NodeId} (hP : P → path ⊆ path') {id : NodeId}
    (hp : id ∈ path) {r : Reachable} {line : Int}
    (h : P ∨ (⟨r, some line⟩ : Classified).loopLine = none) : id ∈ path' := by
  rcases h with h | h
  · exact hP h hp
  · cases h

/-- What is asked of a field: what it holds is of `K`, and the conditional is on the path
or does not stand in it. -/
def Beside (g : Graph) (cond : NodeId) (K : NodeId → Prop) (path : List NodeId)
    (c : Option NodeId) : Prop :=
  ∀ id, c = some id → K id ∧ (cond ∈ path ∨ ¬ g.Within id cond)

theorem Beside.child (hg : g.SameBeside g' cond K) {path : List NodeId} {id : NodeId} {n : Node}
    (hc : Beside g cond K path (some id)) (hn : g.node? id = some n) (hne : id ≠ cond) :
    ∀ c ∈ n.form.children, Beside g cond K (id :: path) c := by
  rintro c hmem d rfl
  obtain ⟨hK, hcond⟩ := hc id rfl
  have hchild : g.Child id d := ⟨n, hn, hmem⟩
  refine ⟨hg.child hK hne hchild, hcond.imp (List.mem_cons_of_mem id) fun hout hin => ?_⟩
  exact hout (hin.head hchild)

theorem operand_retold (hg : g.SameBeside g' cond K) {path path' : List NodeId}
    {c : Option NodeId} (hpath : path' ⊆ path) (hP : P → path ⊆ path')
    (hc : Beside g cond K path c) (h : P ∨ (operand g consts path c).loopLine = none) :
    operand g' consts path' c = operand g consts path c := by
  induction hroom : g.room path using Nat.strongRecOn generalizing path path' c with
  | _ room ih =>
    rcases c with _ | id
    · rw [operand_eq, operand_eq]
      rfl
    obtain ⟨hK, hcond⟩ := hc id rfl
    by_cases hid : id = cond
    · subst hid
      obtain ⟨n, n', hn, hn', hline, hform, hform'⟩ := hg.cond
      have hmem : id ∈ path := hcond.resolve_right fun hout => hout .refl
      rw [operand_again hn hform hmem] at h ⊢
      rw [operand_again hn' hform' (mem_of_told hP hmem h), hline]
    have hn' := hg.node hK hid
    rw [operand_eq] at h
    rw [operand_eq, operand_eq (g := g)]
    unfold operandCall at h ⊢
    simp only [hn'] at h ⊢
    cases hn : g.node? id with
    | none => rfl
    | some n =>
      simp only [hn] at h ⊢
      by_cases hconst : (constant? consts n.form).isSome = true
      · rw [if_pos hconst, if_pos hconst]
      rw [if_neg hconst] at h
      rw [if_neg hconst, if_neg hconst]
      have hfold : P ∨ (if id ∈ path then (⟨.never, some n.line⟩ : Classified)
            else foldParts (operand g consts (id :: path)) ⟨.always, none⟩
              n.form.children).loopLine = none →
          (if id ∈ path' then (⟨.never, some n.line⟩ : Classified)
            else foldParts (operand g' consts (id :: path')) ⟨.always, none⟩ n.form.children) =
          if id ∈ path then ⟨.never, some n.line⟩
            else foldParts (operand g consts (id :: path)) ⟨.always, none⟩ n.form.children := by
        by_cases hp : id ∈ path
        · rw [if_pos hp]
          intro htold
          rw [if_pos (mem_of_told hP hp htold)]
        · rw [if_neg hp, if_neg fun hp' => hp (hpath hp')]
          have hless := hroom ▸ g.room_cons_lt hn hp
          exact foldParts_retold fun c hmem hpart => ih _ hless (List.cons_subset_cons id hpath)
            (fun hall => List.cons_subset_cons id (hP hall)) (hc.child hg hn hid c hmem) hpart rfl
      obtain ⟨line, form⟩ := n
      cases form with
      | name => rfl
      | thisRef => rfl
      | _ => exact hfold h

/-- **A condition is judged by what stands in it.** Let a condition be judged from a path
in one graph, and from a part of the path in another. If no loop is told of, or the path
is the same, the answer is. -/
theorem classify_retold (hg : g.SameBeside g' cond K) {path path' : List NodeId}
    {c : Option NodeId} (hpath : path' ⊆ path) (hP : P → path ⊆ path')
    (hc : Beside g cond K path c) (h : P ∨ (classify g consts path c).loopLine = none) :
    classify g' consts path' c = classify g consts path c := by
  induction hroom : g.room path using Nat.strongRecOn generalizing path path' c with
  | _ room ih =>
    rcases c with _ | id
    · rw [classify_eq, classify_eq]
      rfl
    obtain ⟨hK, hcond⟩ := hc id rfl
    by_cases hid : id = cond
    · subst hid
      obtain ⟨n, n', hn, hn', hline, -, -⟩ := hg.cond
      have hmem : id ∈ path := hcond.resolve_right fun hout => hout .refl
      rw [classify_again hn hmem] at h ⊢
      rw [classify_again hn' (mem_of_told hP hmem h), hline]
    have hn' := hg.node hK hid
    rw [classify_eq] at h
    rw [classify_eq, classify_eq (g := g)]
    unfold classifyCall at h ⊢
    simp only [hn'] at h ⊢
    cases hn : g.node? id with
    | none => rfl
    | some n =>
      simp only [hn] at h ⊢
      by_cases hp : id ∈ path
      · rw [if_pos hp] at h ⊢
        rw [if_pos (mem_of_told hP hp h)]
      rw [if_neg hp] at h ⊢
      rw [if_neg fun hp' => hp (hpath hp')]
      cases hconst : constant? consts n.form with
      | some truthy => rfl
      | none =>
        rw [hconst] at h
        have hless := hroom ▸ g.room_cons_lt hn hp
        have hpath := List.cons_subset_cons id hpath
        have hP := fun hall => List.cons_subset_cons id (hP hall)
        have hchild := hc.child hg hn hid
        exact judge_retold (fun c hmem htold => ih _ hless hpath hP (hchild c hmem) htold rfl)
          (fun c hmem => operand_retold hg hpath hP (hchild c hmem)) h

/-! ### The classes given -/

theorem foldParts_named {part : Option NodeId → Classified} (hpart : ∀ c, (part c).reach.Named)
    (cs : List (Option NodeId)) {acc : Classified} (hacc : acc.reach.Named) :
    (foldParts part acc cs).reach.Named := by
  induction cs generalizing acc with
  | nil => exact hacc
  | cons c rest ih =>
    have hmet : (acc.combine .meet (part c)).reach.Named := hacc.meet (hpart c)
    unfold foldParts
    simp only
    split
    · exact hmet
    · exact ih hmet

theorem operand_named (g : Graph) (consts : Consts) (path : List NodeId) (c : Option NodeId) :
    (operand g consts path c).reach.Named := by
  fun_induction operand g consts path c with
  | case4 | case5 => exact Reachable.named_maybe
  | case6 => exact Reachable.named_never
  | case7 path id n hn _ _ _ _ ih => exact foldParts_named ih _ Reachable.named_always
  | _ => exact Reachable.named_always

theorem classify_named (g : Graph) (consts : Consts) (path : List NodeId) (c : Option NodeId) :
    (classify g consts path c).reach.Named := by
  fun_induction classify g consts path c with
  | case3 => exact Reachable.named_never
  | case4 =>
    split
    · exact Reachable.named_always
    · exact Reachable.named_never
  | case5 | case6 => exact Reachable.named_maybe
  | case7 => exact Reachable.named_negate _
  | case8 path id n hn _ _ a b hform iha ihb => exact iha.meet ihb
  | case9 path id n hn _ _ a b hform iha ihb
  | case10 path id n hn _ _ a b hform iha ihb => exact iha.either ihb
  | case11 path id n hn _ _ first rest hform ih => exact ih
  | case12 path id n hn => exact foldParts_named (operand_named g consts _) _ Reachable.named_always
  | _ => exact Reachable.named_always

end Walk

end TaintReach
