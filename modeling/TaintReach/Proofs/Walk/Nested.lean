import TaintReach.Proofs.Walk.Mirror

/-! What is in a nested function does not count.

The walk of a function sees that a function is nested in it, and no more. Let every
nested function, wherever a field names one, be exchanged for another one: in place,
or by naming another node. As long as none of the functions put in is the analysed one,
whose second visit would be a cycle, the analysis comes out the same. -/
namespace TaintReach

theorem Node.Alike.refl {R : Option NodeId → Option NodeId → Prop} (hR : ∀ c, R c c) (n : Node) :
    n.Alike R n := by
  have hfields : ∀ cs, List.Forall₂ R cs cs := fun _ => List.forall₂_same.mpr fun c _ => hR c
  have hids : ∀ ids : List NodeId, List.Forall₂ (fun a b => R (some a) (some b)) ids ids :=
    fun _ => List.forall₂_same.mpr fun a _ => hR (some a)
  obtain ⟨line, form⟩ := n
  cases form with
  | function => exact .function
  | declaration _ bindings => exact .declaration (hids bindings)
  | binding target init => exact .binding (hR target) (hR init)
  | assignment _ target value => exact .assignment (hR target) (hR value)
  | name => exact .name
  | pattern names defaults => exact .pattern (hids names) (hfields defaults)
  | thisRef => exact .thisRef
  | call callee args => exact .call (hR callee) (hfields args)
  | member object property => exact .member (hR object) (hR property)
  | conditional _ init test update each body otherwise =>
    exact .conditional (hR init) (hR test) (hR update) (hR each) (hR body) (hR otherwise)
  | switch discriminant clauses => exact .switch (hR discriminant) (hids clauses)
  | clause test body => exact .clause (hR test) (hfields body)
  | literal => exact .literal
  | composite _ elements => exact .composite (hfields elements)
  | operation _ operands => exact .operation (hfields operands)
  | other _ nodes => exact .other (hfields nodes)

namespace Graph

variable {g g' : Graph} {root : NodeId}

/-- The nodes of a function, itself and the functions nested in it included, but
nothing that is in one of those. -/
inductive Outer (g : Graph) (root : NodeId) : NodeId → Prop
  | root : Outer g root root
  | child {p c : NodeId} (hp : Outer g root p) (hopen : p = root ∨ ¬ g.IsFunction p)
    (hc : g.Child p c) : Outer g root c

/-- A field keeps what it holds, or one nested function takes the place of another. -/
inductive Refilled (g g' : Graph) (root : NodeId) : Option NodeId → Option NodeId → Prop
  | same (c : Option NodeId) : Refilled g g' root c c
  | nested {a b : NodeId} (ha : a ≠ root) (hb : b ≠ root) (hfn : g.IsFunction a)
    (hfn' : g'.IsFunction b) : Refilled g g' root (some a) (some b)

/-- The function at `root` is that of `g` but for the functions nested in it. -/
structure ReplacesNested (g g' : Graph) (root : NodeId) : Prop where
  function : ∃ line name params params' body body' locals locals',
    g.node? root = some ⟨line, .function name params body locals⟩ ∧
    g'.node? root = some ⟨line, .function name params' body' locals'⟩ ∧
    List.Forall₂ (g.Refilled g' root) params params' ∧
    List.Forall₂ (g.Refilled g' root) body body'
  outer : ∀ id, g.Outer root id → (g.node? id = none ∧ g'.node? id = none) ∨
    ∃ n n', g.node? id = some n ∧ g'.node? id = some n' ∧ n.Alike (g.Refilled g' root) n'

/-- What a node of the function holds belongs to the function. -/
theorem Outer.children {p : NodeId} {n : Node} (hp : g.Outer root p)
    (hopen : p = root ∨ ¬ g.IsFunction p) (hn : g.node? p = some n) :
    ∀ c ∈ n.form.children, ∀ id, c = some id → g.Outer root id := by
  rintro c hc id rfl
  exact .child hp hopen ⟨n, hn, hc⟩

/-- Nodes that are alike are so in fields that belong to the function. -/
theorem Outer.alike {R : Option NodeId → Option NodeId → Prop} {p : NodeId} {n n' : Node}
    (hp : g.Outer root p) (hn : g.node? p = some n) (halike : n.Alike R n') :
    n.Alike (fun c c' => (∀ id, c = some id → g.Outer root id) ∧ R c c') n' := by
  by_cases hnested : g.IsFunction p
  · -- What a function holds is no part of being alike.
    obtain ⟨_, _, _, _, _, hnested⟩ := hnested
    obtain rfl := Option.some.inj (hn.symm.trans hnested)
    cases halike
    exact .function
  · exact halike.and_left (fun _ hnone => by cases hnone) (hp.children (Or.inr hnested) hn)

/-- The fields of the nodes of a function mirror what they were before its nested
functions were replaced. -/
theorem ReplacesNested.mirrors (h : g.ReplacesNested g' root) : g.Mirrors g' root fun c c' =>
    (∀ id, c = some id → g.Outer root id) ∧ g.Refilled g' root c c' := by
  obtain ⟨line, name, params, params', body, body', locals, locals', hfn, hfn', -, -⟩ := h.function
  constructor
  case isSome =>
    rintro c c' ⟨-, hc⟩
    cases hc <;> rfl
  case node =>
    rintro c c' ⟨houter, hc⟩
    cases hc with
    | nested _ _ ha hb =>
      obtain ⟨_, _, _, _, _, ha⟩ := ha
      obtain ⟨_, _, _, _, _, hb⟩ := hb
      exact Or.inr ⟨_, _, ha, hb, .function⟩
    | same =>
      cases c with
      | none => exact Or.inl ⟨rfl, rfl⟩
      | some id =>
        refine (h.outer id (houter id rfl)).imp_right ?_
        rintro ⟨n, n', hn, hn', halike⟩
        exact ⟨n, n', hn, hn', (houter id rfl).alike hn halike⟩
  case same =>
    rintro a b ⟨-, hc⟩
    cases hc with
    | same => exact Or.inl rfl
    | nested ha hb hfa hfb => exact Or.inr ⟨ha, hb, hfa, hfb⟩
  case line =>
    intro n n' hn hn'
    obtain rfl := Option.some.inj (hn.symm.trans hfn)
    obtain rfl := Option.some.inj (hn'.symm.trans hfn')
    rfl

end Graph

/-- Nested functions are opaque: whatever functions stand in their places, the outer
function is analysed to the same scope or the same fault, with the same events. -/
theorem Walk.nested_functions_opaque {E : Setting} {g' : Graph} {root : NodeId}
    (h : E.graph.ReplacesNested g' root) :
    analyzeFunction E (some root) = analyzeFunction { E with graph := g' } (some root) := by
  obtain ⟨line, name, params, params', body, body', locals, locals', hfn, hfn', hparams, hbody⟩ :=
    h.function
  have hchildren := Graph.Outer.root.children (Or.inl rfl) hfn
  obtain ⟨houter, houter'⟩ := List.forall_mem_append.mp hchildren
  exact analyzeFunction_congr h.mirrors hfn hfn'
    ((List.forall₂_and_left _ _).mpr ⟨houter, hparams⟩)
    ((List.forall₂_and_left _ _).mpr ⟨houter', hbody⟩)

/-- A function whose nested function is assigned, tested, passed, listed and called:
`x = retSource(); k = (() => k); if ((() => k) && x) run((() => k), [(() => k)]);
(() => k)(); sink(x)`. -/
def Walk.nesting : Graph := ⟨#[
  ⟨1, .function "f" [] [some 1, some 5, some 8, some 14, some 15] []⟩,
  ⟨1, .assignment "=" (some 2) (some 3)⟩, ⟨1, .name "x"⟩,
  ⟨1, .call (some 4) [] false⟩, ⟨1, .name "retSource"⟩,
  ⟨2, .assignment "=" (some 6) (some 7)⟩, ⟨2, .name "k"⟩,
  ⟨2, .function "" [] [some 6] []⟩,
  ⟨3, .conditional .branch none (some 9) none none (some 10) none⟩,
  ⟨3, .operation "&&" [some 7, some 2]⟩,
  ⟨3, .call (some 11) [some 7, some 12] false⟩, ⟨3, .name "run"⟩,
  ⟨3, .composite true [some 7]⟩,
  ⟨5, .function "g" [some 2] [some 15, some 13] ["x"]⟩,
  ⟨4, .call (some 7) [] false⟩,
  ⟨4, .call (some 16) [some 2] false⟩, ⟨4, .name "sink"⟩]⟩

/-- The function with another one nested in it, that has a sink and holds itself; the
condition names a third one. -/
def Walk.nestingOther : Graph :=
  ⟨(Walk.nesting.nodes.set! 7 ⟨2, .function "h" [some 2] [some 15, some 7] ["x"]⟩).set! 9
    ⟨3, .operation "&&" [some 13, some 2]⟩⟩

theorem Walk.nestingOther_replaces : nesting.ReplacesNested nestingOther 0 where
  function := ⟨_, _, _, _, _, _, _, _, rfl, rfl, .nil, List.forall₂_same.mpr fun c _ => .same c⟩
  outer id _ := by
    by_cases hid : id = 7 ∨ id = 9
    · rcases hid with rfl | rfl
      · exact Or.inr ⟨_, _, rfl, rfl, .function⟩
      · have hoperand : nesting.Refilled nestingOther 0 (some 7) (some 13) :=
          .nested (by decide) (by decide) ⟨_, _, _, _, _, rfl⟩ ⟨_, _, _, _, _, rfl⟩
        exact Or.inr ⟨_, _, rfl, rfl, .operation (.cons hoperand (.cons (.same _) .nil))⟩
    · have hsame : nestingOther.node? id = nesting.node? id := by
        unfold nestingOther Graph.node?
        simp only [Array.set!_eq_setIfInBounds]
        rw [Array.getElem?_setIfInBounds_ne (fun h => hid (Or.inr h.symm)),
          Array.getElem?_setIfInBounds_ne (fun h => hid (Or.inl h.symm))]
      cases hn : nesting.node? id with
      | none => exact Or.inl ⟨rfl, hsame.trans hn⟩
      | some n => exact Or.inr ⟨n, n, rfl, hsame.trans hn, .refl .same n⟩

/-- The sink and the loop of the function put in are not seen. -/
theorem Walk.nested_functions_opaque_nesting :
    nesting.ReplacesNested nestingOther 0 ∧
      analyzeFunction { graph := nesting } (some 0) =
        analyzeFunction { graph := nestingOther } (some 0) :=
  ⟨nestingOther_replaces, nested_functions_opaque (E := { graph := nesting }) nestingOther_replaces⟩

end TaintReach
