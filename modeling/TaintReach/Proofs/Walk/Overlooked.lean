import TaintReach.Proofs.Walk.Look

/-! What a run does not look at.

What stands below a node is looked at, but for nested functions, for branches that never
run, for names that a rule reads itself, and for a few fields that no rule reads
(`overlooked`). Some nodes are passed through: a pattern or a member that is assigned to,
and the clauses of a switch. They are not entered, and their own fields count as fields
of the node above. Nothing else is left out (`shown_covered`). -/
namespace TaintReach.Walk

/-- The targets that an assignment does not enter. -/
def passedTarget (g : Graph) (target : Option NodeId) : List (Option NodeId) :=
  match g.at? target with
  | some ⟨_, .pattern ..⟩ => [target]
  | some ⟨_, .member ..⟩ => if (g.root? target).isSome then [target] else []
  | _ => []

/-- The sub-nodes that are not entered, but whose fields count as those of the node. -/
def passedThrough (g : Graph) (form : Form) : Mode → List (Option NodeId)
  | .visit _ =>
    match form with
    | .binding target _ | .assignment _ target _ => passedTarget g target
    | .switch _ clauses => clauses.map some
    | _ => []
  | _ => []

/-- What stands below a node: its sub-nodes, and those of what is passed through. -/
def shown (g : Graph) (form : Form) (mode : Mode) : List (Option NodeId) :=
  form.children ++ (passedThrough g form mode).flatMap fun t => (g.at? t).elim [] (·.form.children)

/-- What an assignment leaves out: names, all but the own computed property of a member
with a base, and a value that no name receives. -/
def overlookedSides (g : Graph) (target value : Option NodeId) : List (Option NodeId) :=
  match g.at? target with
  | some ⟨_, .name _⟩ => [target]
  | some ⟨_, .pattern names _⟩ =>
    names.map some ++
      if names ≠ [] ∧ names.filterMap (fun n => g.name? (some n)) = [] then [value] else []
  | some ⟨_, .member object property _ computed⟩ =>
    if (g.root? target).isSome then
      object :: (if computed then [] else [property]) ++
        if (g.name? value).isSome then [value] else []
    else []
  | _ => []

/-- What a clause of a switch is compared with, or all of what is no clause. -/
def overlookedClause (g : Graph) (clause : NodeId) : List (Option NodeId) :=
  match g.node? clause with
  | some ⟨_, .clause test _⟩ => [test]
  | some n => n.form.children
  | none => []

/-- What a visit leaves out. -/
def overlookedVisit (E : Setting) (path : List NodeId) (s : State) : Form → List (Option NodeId)
  | .function _ params body _ => params ++ body
  | .binding target value | .assignment _ target value => overlookedSides E.graph target value
  | .call callee args isNew =>
    match (if isNew then none else E.graph.name? callee) with
    | some (ident, _) =>
      callee :: if ident = E.endpoints.source ∨ ident = E.endpoints.sink then args else []
    | none => []
  | .conditional kind init test update each body otherwise =>
    let start := opened (walk E path) kind init s
    let guard := guardOf E path kind test start
    (if kind = .forLoop then [] else [init]) ++
      (if kind = .forIn ∨ kind = .forOf then [test] else []) ++
      (if start.ambient.meet guard.reach = .never then [each, body, update] else []) ++
      if start.ambient.meet guard.reach.negate = .never then [otherwise] else []
  | .switch discriminant clauses => discriminant :: clauses.flatMap (overlookedClause E.graph)
  | _ => []

/-- What is left out though it stands below the node. -/
def overlooked (E : Setting) (path : List NodeId) (form : Form) : Mode → List (Option NodeId)
  | .visit s => overlookedVisit E path s form
  | .test _ =>
    match form with
    | .function _ params body _ => params ++ body
    | .other "sequence" nodes => nodes.dropLast
    | _ => []
  | .part _ =>
    match form with
    | .function _ params body _ => params ++ body
    | _ => []

/-! ### All else is looked at -/

theorem shown_of_passedThrough {g : Graph} {form : Form} {mode : Mode}
    (h : passedThrough g form mode = []) : shown g form mode = form.children := by
  rw [shown, h, List.flatMap_nil, List.append_nil]

section
variable {E : Setting} {path : List NodeId} {visit : Visit} {s : State}

/-- Which fields a loop looks at does not depend on the states it goes through. -/
theorem fields_over {α : Type} {round : State → α → State} {looks : State → α → List Look}
    {f : α → List (Option NodeId)} (h : ∀ s x, (looks s x).map Look.field = f x) (xs : List α)
    (s : State) : (gather round looks xs s).map Look.field = xs.flatMap f := by
  induction xs generalizing s with
  | nil => rfl
  | cons x rest ih => rw [gather, List.map_append, h, ih, List.flatMap_cons]

theorem fields_all (cs : List (Option NodeId)) (s : State) :
    (looksAll visit cs s).map Look.field = cs := by
  unfold looksAll
  rw [fields_over (f := fun c => [c]) fun _ _ => rfl]
  simp

theorem fields_pattern {target value : Option NodeId} {line : Int} {names : List NodeId}
    {defaults : List (Option NodeId)}
    (hat : E.graph.at? target = some ⟨line, .pattern names defaults⟩) :
    (assignLooks E visit target value s).map Look.field = (if names = [] then [value] else []) ++
      (names.filterMap fun n => E.graph.name? (some n)).flatMap (fun _ => [value]) ++ defaults := by
  unfold assignLooks
  rw [hat]
  simp only [List.map_append]
  rw [fields_over (f := fun _ => [value]), fields_over (f := fun d => [d])]
  · split <;> simp
  · exact fun _ _ => rfl
  · exact fun _ _ => rfl

/-- Names of a pattern are bound, not looked at; its defaults are. -/
theorem pattern_covered {target value : Option NodeId} {line : Int} {names : List NodeId}
    {defaults : List (Option NodeId)} {c : NodeId}
    (hat : E.graph.at? target = some ⟨line, .pattern names defaults⟩)
    (hc : some c = value ∨ some c ∈ names.map some ++ defaults) :
    some c ∈ (assignLooks E visit target value s).map Look.field ∨
      some c ∈ overlookedSides E.graph target value := by
  rw [fields_pattern hat, overlookedSides, hat]
  simp only [List.mem_append] at hc ⊢
  rcases hc with rfl | hname | hdefault
  · -- The value is visited by itself, for some name, or not at all.
    by_cases hnames : names = []
    · exact Or.inl (Or.inl (Or.inl (by simp [hnames])))
    · cases hreceived : names.filterMap fun n => E.graph.name? (some n) with
      | nil => exact Or.inr (Or.inr (by simp [hnames]))
      | cons x rest => exact Or.inl (Or.inl (Or.inr (by simp)))
  · exact Or.inr (Or.inl hname)
  · exact Or.inl (Or.inr hdefault)

/-- Of a member with a base only a computed property is looked at. -/
theorem member_covered {target value object property : Option NodeId} {line : Int}
    {propName : String} {computed : Bool} {c : NodeId}
    (hat : E.graph.at? target = some ⟨line, .member object property propName computed⟩)
    (hroot : (E.graph.root? target).isSome)
    (hc : some c = value ∨ some c ∈ [object, property]) :
    some c ∈ (assignLooks E visit target value s).map Look.field ∨
      some c ∈ overlookedSides E.graph target value := by
  obtain ⟨⟨ident, rootLine⟩, hbase⟩ := Option.isSome_iff_exists.mp hroot
  simp only [assignLooks, overlookedSides, hat, hbase, Option.isSome_some, if_true,
    List.map_append, apply_ite (List.map Look.field), List.map_cons, List.map_nil]
  simp only [List.mem_cons, List.not_mem_nil, or_false] at hc
  rcases hc with rfl | rfl | rfl
  · cases E.graph.name? (some c) <;> simp
  · simp
  · cases computed <;> simp

/-- The two sides of an assignment, and what is in a target that is passed through. -/
theorem sides_covered {target value : Option NodeId} {c : NodeId}
    (hc : some c ∈ present [target, value] ++
      (passedTarget E.graph target).flatMap fun t => (E.graph.at? t).elim [] (·.form.children)) :
    some c ∈ (assignLooks E visit target value s).map Look.field ∨
      some c ∈ passedTarget E.graph target ∨ some c ∈ overlookedSides E.graph target value := by
  simp only [List.mem_append, Graph.mem_present, List.mem_cons, List.not_mem_nil, or_false] at hc
  rcases hat : E.graph.at? target with _ | ⟨line, form⟩
  · left
    simpa [assignLooks, passedTarget, hat] using hc
  cases form with
  | name ident =>
    have hpassed : passedTarget E.graph target = [] := by rw [passedTarget, hat]
    rw [hpassed, List.flatMap_nil] at hc
    rcases hc with (rfl | rfl) | hc
    · exact Or.inr (Or.inr (by simp [overlookedSides, hat]))
    · exact Or.inl (by simp [assignLooks, hat])
    · cases hc
  | pattern names defaults =>
    have hpassed : passedTarget E.graph target = [target] := by rw [passedTarget, hat]
    rw [hpassed, List.flatMap_singleton, hat] at hc
    rcases hc with (rfl | hvalue) | hc
    · exact Or.inr (Or.inl (by simp [hpassed]))
    · exact (pattern_covered hat (Or.inl hvalue)).imp_right Or.inr
    · exact (pattern_covered hat (Or.inr hc)).imp_right Or.inr
  | member object property propName computed =>
    by_cases hroot : (E.graph.root? target).isSome
    · have hpassed : passedTarget E.graph target = [target] := by
        simp only [passedTarget, hat, hroot, if_true]
      rw [hpassed, List.flatMap_singleton, hat] at hc
      rcases hc with (rfl | hvalue) | hc
      · exact Or.inr (Or.inl (by simp [hpassed]))
      · exact (member_covered hat hroot (Or.inl hvalue)).imp_right Or.inr
      · exact (member_covered hat hroot (Or.inr (Graph.mem_present.mp hc))).imp_right Or.inr
    · left
      have hbase : E.graph.root? target = none := by simpa using hroot
      simpa [assignLooks, passedTarget, hat, hbase] using hc
  | _ =>
    left
    simpa [assignLooks, passedTarget, hat] using hc

theorem call_covered {callee : Option NodeId} {args : List (Option NodeId)} {isNew : Bool}
    {c : NodeId} (hc : some c ∈ callee :: args) :
    some c ∈ (callLooks E visit callee args isNew s).map Look.field ∨
      some c ∈ overlookedVisit E path s (.call callee args isNew) := by
  simp only [callLooks, overlookedVisit]
  generalize (if isNew then none else E.graph.name? callee) = plain
  rcases plain with _ | ⟨ident, line⟩
  · left
    rw [List.map_cons, fields_all]
    exact hc
  · simp only
    split
    · exact Or.inr hc
    · rw [fields_all]
      rcases List.mem_cons.mp hc with rfl | hc
      · exact Or.inr (List.mem_singleton_self _)
      · exact Or.inl hc

/-- Which branch is left out goes by the class of the condition; the test of a loop over
something is never looked at. -/
theorem conditional_covered {line : Int} {kind : CondKind}
    {init test update each body otherwise : Option NodeId} {c : NodeId}
    (hc : some c ∈ [init, test, each, body, update, otherwise]) :
    some c ∈ (conditionalLooks E path (walk E path) line kind init test update each body otherwise
        s).map Look.field ∨
      some c ∈ overlookedVisit E path s
        (.conditional kind init test update each body otherwise) := by
  simp only [conditionalLooks, overlookedVisit, List.map_append, List.mem_append,
    apply_ite (List.map Look.field), fields_all, List.map_cons, List.map_nil]
  generalize (opened (walk E path) kind init s) = start
  simp only [List.mem_cons, List.not_mem_nil, or_false] at hc
  rcases hc with rfl | rfl | rfl | rfl | rfl | rfl
  all_goals grind

theorem clause_covered {g : Graph} {clause c : NodeId}
    (hc : some c ∈ (g.at? (some clause)).elim [] (·.form.children)) :
    some c ∈ clauseBody g clause ∨ some c ∈ overlookedClause g clause := by
  change some c ∈ (g.node? clause).elim [] (·.form.children) at hc
  unfold clauseBody overlookedClause
  rcases hn : g.node? clause with _ | ⟨line, form⟩
  · rw [hn] at hc
    cases hc
  rw [hn] at hc
  cases form with
  | clause test body =>
    refine (List.mem_append.mp hc).symm.imp_right fun htest => ?_
    exact Graph.mem_present.mp htest
  | _ => exact Or.inr hc

/-- A clause itself is passed through: its body is looked at, what it is compared with is not. -/
theorem switch_covered {discriminant : Option NodeId} {clauses : List NodeId} {c : NodeId}
    (hc : some c ∈ shown E.graph (.switch discriminant clauses) (.visit s)) :
    some c ∈ (switchLooks E visit clauses s).map Look.field ∨
      some c ∈ passedThrough E.graph (.switch discriminant clauses) (.visit s) ∨
      some c ∈ overlookedVisit E path s (.switch discriminant clauses) := by
  unfold switchLooks
  rw [fields_over (f := clauseBody E.graph) fun s clause => fields_all _ s]
  rcases List.mem_append.mp hc with hc | hc
  · rcases List.mem_append.mp hc with hc | hc
    · have hdiscriminant : some c = discriminant := List.mem_singleton.mp (Graph.mem_present.mp hc)
      exact Or.inr (Or.inr (hdiscriminant ▸ List.mem_cons_self))
    · exact Or.inr (Or.inl hc)
  · obtain ⟨t, ht, hc⟩ := List.mem_flatMap.mp hc
    obtain ⟨clause, hclause, rfl⟩ := List.mem_map.mp ht
    rcases clause_covered hc with hc | hc
    · exact Or.inl (List.mem_flatMap.mpr ⟨clause, hclause, hc⟩)
    · exact Or.inr (Or.inr (List.mem_cons_of_mem _ (List.mem_flatMap.mpr ⟨clause, hclause, hc⟩)))

theorem visit_covered {n : Node} {c : NodeId} (hc : some c ∈ shown E.graph n.form (.visit s)) :
    some c ∈ (visitLooks E path (walk E path) n s).map Look.field ∨
      some c ∈ passedThrough E.graph n.form (.visit s) ∨
      some c ∈ overlookedVisit E path s n.form := by
  obtain ⟨line, form⟩ := n
  cases form with
  | function name params body locals =>
    rw [shown_of_passedThrough rfl] at hc
    exact Or.inr (Or.inr hc)
  | declaration kind bindings =>
    rw [shown_of_passedThrough rfl] at hc
    have hfields : (declarationLooks E (walk E path) kind bindings s).map Look.field =
        bindings.map some := by
      unfold declarationLooks
      rw [fields_over (f := fun b => [some b]) fun _ _ => rfl, List.map_eq_flatMap]
    exact Or.inl (hfields ▸ hc)
  | binding target value => exact sides_covered hc
  | assignment operator target value => exact sides_covered hc
  | call callee args isNew =>
    rw [shown_of_passedThrough rfl] at hc
    exact (call_covered hc).imp_right Or.inr
  | conditional kind init test update each body otherwise =>
    rw [shown_of_passedThrough rfl] at hc
    exact (conditional_covered (Graph.mem_present.mp hc)).imp_right Or.inr
  | switch discriminant clauses => exact switch_covered hc
  | _ =>
    rw [shown_of_passedThrough rfl] at hc
    exact Or.inl ((fields_all _ s).symm ▸ hc)

/-- Of a sequence only the last expression decides. -/
theorem test_covered {consts : Consts} {form : Form} {c : NodeId} (hc : some c ∈ form.children) :
    some c ∈ (testLooks consts form).map Look.field ∨
      some c ∈ overlooked E path form (.test consts) := by
  unfold testLooks
  by_cases hconst : (constant? consts form).isSome
  · cases form with
    | function => exact Or.inr hc
    | name => cases hc
    | literal => cases hc
    | _ => cases hconst
  · rw [if_neg hconst]
    split
    · exact Or.inl hc
    · exact Or.inl hc
    · exact Or.inl hc
    · exact Or.inl hc
    · rename_i first rest
      have hsplit := List.dropLast_append_getLast (List.cons_ne_nil first rest)
      rw [List.getLast_eq_getLastD] at hsplit
      rw [Form.children, ← hsplit] at hc
      exact (List.mem_append.mp hc).symm
    · left
      simpa using hc

theorem part_covered {consts : Consts} {form : Form} {c : NodeId} (hc : some c ∈ form.children) :
    some c ∈ (partLooks consts form).map Look.field ∨
      some c ∈ overlooked E path form (.part consts) := by
  unfold partLooks
  by_cases hsettled : settled consts form = true
  · cases form with
    | function => exact Or.inr hc
    | name => cases hc
    | literal => cases hc
    | thisRef => cases hc
    | _ => cases hsettled
  · left
    rw [if_neg hsettled]
    simpa using hc

/-- Whatever stands below a node is looked at, passed through or overlooked. -/
theorem shown_covered {n : Node} {mode : Mode} {c : NodeId}
    (hc : some c ∈ shown E.graph n.form mode) :
    some c ∈ (looks E path n mode).map Look.field ∨ some c ∈ passedThrough E.graph n.form mode ∨
      some c ∈ overlooked E path n.form mode := by
  cases mode with
  | visit s => exact visit_covered hc
  | test consts =>
    rw [shown_of_passedThrough rfl] at hc
    exact (test_covered hc).imp_right Or.inr
  | part consts =>
    rw [shown_of_passedThrough rfl] at hc
    exact (part_covered hc).imp_right Or.inr

end

end TaintReach.Walk
