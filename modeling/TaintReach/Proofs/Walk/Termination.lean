import TaintReach.Proofs.Walk.Analysed

/-! Every analysis ends, and fails only on a cycle.

A graph may be cyclic, so what bounds the recursion is the path: no node is entered
twice on it. The procedures are given here once more by what a single call does, with
the calls it makes left to another procedure, and each of them is shown to need no
more calls nested in each other than there are nodes, plus one, whatever deeper calls
would answer (`AnswersWithin`). A chain of members is followed up to its base or to a
member already seen, and has a base exactly if it ends in a name
(`Graph.root?_eq_some_iff`). Put together with what is known of the steps of a walk
this gives `Walk.analysis_ends`. -/
namespace TaintReach

/-- A recursive procedure on paths, one call of which is `step`, gives `answer` on
`path` with at most `calls` calls nested in each other: what a deeper one would answer
makes no difference. -/
def AnswersWithin {γ : Type} (step : (List NodeId → γ) → List NodeId → γ) (calls : Nat)
    (path : List NodeId) (answer : γ) : Prop :=
  ∀ deeper : List NodeId → γ, Nat.repeat step calls deeper path = answer

namespace Graph

variable {g : Graph}

theorem room_le_size (path : List NodeId) : g.room path ≤ g.size := by
  unfold room
  exact Nat.le_trans (List.length_filter_le _ _) (Nat.le_of_eq List.length_range)

/-- What holds of an answer if it holds of those to the calls made where less room is
left holds of every answer, once more calls are nested than there are nodes. -/
theorem repeat_induction {γ : Type} {step : (List NodeId → γ) → List NodeId → γ}
    {P : List NodeId → γ → Prop}
    (hstep : ∀ (next : List NodeId → γ) (path : List NodeId),
      (∀ path', g.room path' < g.room path → P path' (next path')) → P path (step next path))
    (deeper : List NodeId → γ) (path : List NodeId) :
    P path (Nat.repeat step (g.size + 1) deeper path) := by
  have hcalls : ∀ (n : Nat) (path : List NodeId), g.room path < n →
      P path (Nat.repeat step n deeper path) := by
    intro n
    induction n with
    | zero => exact fun _ h => absurd h (Nat.not_lt_zero _)
    | succ n ih =>
      intro path hroom
      exact hstep _ path fun path' hless => ih path' (by omega)
  exact hcalls _ path (Nat.lt_succ_of_le (room_le_size path))

/-- Where every node comes before those it holds there is no cycle. -/
theorem not_cyclic_of_forward {id : NodeId}
    (h : ∀ p < g.size, ∀ c ∈ (g.node? p).elim [] (·.form.children), ∀ d ∈ c, p < d) :
    ¬ g.Cyclic id := by
  rintro ⟨d, _, hloop⟩
  have hless : ∀ {a b}, g.Below a b → a < b := by
    intro a b hbelow
    have hchild : ∀ {a b}, g.Child a b → a < b := by
      rintro a b ⟨n, hn, hb⟩
      exact h a (lt_size_of_node? hn) (some b) (by rw [hn]; exact hb) b rfl
    induction hbelow with
    | single hab => exact hchild hab
    | tail _ hbc ih => exact Nat.lt_trans ih (hchild hbc)
  exact Nat.lt_irrefl d (hless hloop)

/-! ### Chains of members -/

/-- The chain of members that starts at a field ends in a name. -/
inductive RootOf (g : Graph) : Option NodeId → String × Int → Prop
  | name {c : Option NodeId} {line : Int} {ident : String}
    (h : g.at? c = some ⟨line, .name ident⟩) : RootOf g c (ident, line)
  | member {c : Option NodeId} {line : Int} {object property : Option NodeId} {propName : String}
    {computed : Bool} {x : String × Int}
    (h : g.at? c = some ⟨line, .member object property propName computed⟩)
    (hroot : RootOf g object x) : RootOf g c x

/-- The object of the member at a field. -/
def ObjectOf (g : Graph) (c object : Option NodeId) : Prop :=
  ∃ line property propName computed,
    g.at? c = some ⟨line, .member object property propName computed⟩

theorem rootWithin_succ_eq_some {n : Nat} {c : Option NodeId} {x : String × Int} :
    g.rootWithin (n + 1) c = some x ↔ g.at? c = some ⟨x.2, .name x.1⟩ ∨
      ∃ object, g.ObjectOf c object ∧ g.rootWithin n object = some x := by
  obtain ⟨ident, line⟩ := x
  unfold ObjectOf
  rw [rootWithin]
  split
  · rename_i hat
    simp [hat, and_comm, eq_comm]
  · rename_i hat
    simp [hat]
  · rename_i hname hmember
    simp only [reduceCtorEq, false_iff, not_or, not_exists, not_and]
    exact ⟨hname _ _, fun _ ⟨_, _, _, _, hat⟩ => (hmember _ _ _ _ _ hat).elim⟩

theorem rootWithin_mono {n m : Nat} {c : Option NodeId} {x : String × Int}
    (h : g.rootWithin n c = some x) (hle : n ≤ m) : g.rootWithin m c = some x := by
  induction n generalizing m c with
  | zero => cases h
  | succ n ih =>
    obtain ⟨m, rfl⟩ : ∃ k, m = k + 1 := ⟨m - 1, by omega⟩
    refine rootWithin_succ_eq_some.mpr ((rootWithin_succ_eq_some.mp h).imp_right ?_)
    rintro ⟨object, hobject, hroot⟩
    exact ⟨object, hobject, ih hroot (by omega)⟩

/-- A base that is found in any number of steps is found in as many as there is room,
and one more. -/
theorem rootWithin_room {n : Nat} {path : List NodeId} {c : Option NodeId} {x : String × Int}
    (h : g.rootWithin n c = some x) (hpath : ∀ p ∈ path, g.rootWithin n (some p) = none) :
    g.rootWithin (g.room path + 1) c = some x := by
  induction n generalizing path c with
  | zero => cases h
  | succ n ih =>
    have hbefore : ∀ p ∈ path, g.rootWithin n (some p) = none := by
      intro p hp
      refine Option.eq_none_iff_forall_ne_some.mpr fun y hy => ?_
      exact absurd (rootWithin_mono hy (Nat.le_succ n)) (by rw [hpath p hp]; simp)
    rcases hless : g.rootWithin n c with _ | y
    · -- the last of the steps is needed: the node is not on the path, and not met again
      refine rootWithin_succ_eq_some.mpr ((rootWithin_succ_eq_some.mp h).imp_right ?_)
      rintro ⟨object, ⟨line, property, propName, computed, hat⟩, hroot⟩
      obtain ⟨id, rfl, hn⟩ := node?_of_at? hat
      have hfresh : id ∉ path := fun hid => by rw [hpath id hid] at h; cases h
      have hlonger : ∀ p ∈ id :: path, g.rootWithin n (some p) = none :=
        List.forall_mem_cons.mpr ⟨hless, hbefore⟩
      have hfound := ih hroot hlonger
      exact ⟨object, ⟨line, property, propName, computed, hat⟩,
        rootWithin_mono hfound (room_cons_lt hn hfresh)⟩
    · obtain rfl : y = x := Option.some.inj ((rootWithin_mono hless (Nat.le_succ n)).symm.trans h)
      exact ih hless hbefore

theorem root?_of_rootWithin {n : Nat} {c : Option NodeId} {x : String × Int}
    (h : g.rootWithin n c = some x) : g.root? c = some x := by
  have hnil : ∀ p ∈ [], g.rootWithin n (some p) = none := fun _ hp => by cases hp
  exact rootWithin_mono (rootWithin_room h hnil) (Nat.succ_le_succ (room_le_size []))

/-- **A chain has a base exactly if it ends in a name.** -/
theorem root?_eq_some_iff {c : Option NodeId} {x : String × Int} :
    g.root? c = some x ↔ g.RootOf c x := by
  constructor
  · intro h
    unfold root? at h
    revert h
    generalize g.size + 1 = n
    intro h
    induction n generalizing c with
    | zero => cases h
    | succ n ih =>
      rcases rootWithin_succ_eq_some.mp h with hat | ⟨object, ⟨line, _, _, _, hat⟩, hroot⟩
      · exact .name hat
      · exact .member hat (ih hroot)
  · intro h
    have hsteps : ∃ n, g.rootWithin n c = some x := by
      induction h with
      | name h => exact ⟨1, rootWithin_succ_eq_some.mpr (.inl h)⟩
      | member h _ ih =>
        obtain ⟨n, hn⟩ := ih
        exact ⟨n + 1, rootWithin_succ_eq_some.mpr (.inr ⟨_, ⟨_, _, _, _, h⟩, hn⟩)⟩
    obtain ⟨n, hn⟩ := hsteps
    exact root?_of_rootWithin hn

/-- More steps than there are nodes find no more. -/
theorem rootWithin_of_le {n : Nat} (h : g.size + 1 ≤ n) (c : Option NodeId) :
    g.rootWithin n c = g.root? c := by
  ext x
  exact ⟨root?_of_rootWithin, fun hx => rootWithin_mono hx h⟩

theorem root?_of_objectOf {c object : Option NodeId} (h : g.ObjectOf c object) :
    g.root? c = g.root? object := by
  obtain ⟨line, property, propName, computed, hat⟩ := h
  ext x
  rw [root?_eq_some_iff, root?_eq_some_iff]
  refine ⟨fun hroot => ?_, .member hat⟩
  cases hroot with
  | name hname => rw [hat] at hname; cases hname
  | member hmember hroot =>
    rw [hat] at hmember
    cases hmember
    exact hroot

/-- A chain that comes back to where it starts has no base. -/
theorem root?_of_loop {c : Option NodeId} (h : Relation.TransGen g.ObjectOf c c) :
    g.root? c = none := by
  refine Option.eq_none_iff_forall_ne_some.mpr fun x hx => ?_
  have hroot := root?_eq_some_iff.mp hx
  clear hx
  induction hroot with
  | name hname =>
    obtain ⟨_, ⟨_, _, _, _, hat⟩, _⟩ := Relation.TransGen.head'_iff.mp h
    rw [hname] at hat
    cases hat
  | member hmember _ ih =>
    obtain ⟨_, ⟨_, _, _, _, hat⟩, hback⟩ := Relation.TransGen.head'_iff.mp h
    rw [hmember] at hat
    cases hat
    exact ih (Relation.TransGen.tail' hback ⟨_, _, _, _, hmember⟩)

/-- One step along a chain of members, with those already seen. -/
def rootCall (g : Graph) (next : List NodeId → Option NodeId → Option (String × Int))
    (seen : List NodeId) (child : Option NodeId) : Option (String × Int) :=
  match child with
  | none => none
  | some id =>
    match g.node? id with
    | some ⟨line, .name ident⟩ => some (ident, line)
    | some ⟨_, .member object _ _ _⟩ => if id ∈ seen then none else next (id :: seen) object
    | _ => none

/-- Following a chain comes to an end, at its base if it has one. -/
theorem root?_answersWithin : AnswersWithin g.rootCall (g.size + 1) [] g.root? := by
  intro deeper
  funext c
  -- every member seen has led to the field that is looked at
  refine g.repeat_induction (P := fun seen answer => ∀ c,
    (∀ p ∈ seen, Relation.TransGen g.ObjectOf (some p) c) → answer c = g.root? c)
    (fun next seen ih c hseen => ?_) deeper [] c (fun _ h => by cases h)
  unfold rootCall
  cases c with
  | none => rfl
  | some id =>
    simp only
    split
    · rename_i hn
      have hat : g.at? (some id) = some ⟨_, .name _⟩ := hn
      exact (root?_eq_some_iff.mpr (.name hat)).symm
    · rename_i line object property propName computed hn
      have hobject : g.ObjectOf (some id) object := ⟨line, property, propName, computed, hn⟩
      split
      · rename_i hmem
        exact (root?_of_loop (hseen id hmem)).symm
      · rename_i hfresh
        rw [root?_of_objectOf hobject]
        refine ih _ (room_cons_lt hn hfresh) object (List.forall_mem_cons.mpr ⟨.single hobject, ?_⟩)
        exact fun p hp => (hseen p hp).tail hobject
    · rename_i hname hmember
      refine (Option.eq_none_iff_forall_ne_some.mpr fun x hx => ?_).symm
      cases root?_eq_some_iff.mp hx with
      | name hat => exact hname _ _ hat
      | member hat _ => exact hmember _ _ _ _ _ hat

end Graph

namespace Walk

variable {E : Setting} {g : Graph} {consts : Consts}

/-! ### One call of each procedure -/

/-- One call on a part of an expression. -/
def operandCall (g : Graph) (consts : Consts)
    (next : List NodeId → Option NodeId → Classified) (path : List NodeId)
    (child : Option NodeId) : Classified :=
  match child with
  | none => ⟨.always, none⟩
  | some id =>
    match g.node? id with
    | none => ⟨.always, none⟩
    | some n =>
      if (constant? consts n.form).isSome then ⟨.always, none⟩ else
      match n.form with
      | .name _ | .thisRef => ⟨.maybe, none⟩
      | form =>
        if id ∈ path then ⟨.never, some n.line⟩
        else foldParts (next (id :: path)) ⟨.always, none⟩ form.children

/-- The class of a condition that is no constant, by those of its operands and parts. -/
def judge (operand part : Option NodeId → Classified) : Form → Classified
  | .name _ | .thisRef => ⟨.maybe, none⟩
  | .operation "!" [a] => (operand a).negate
  | .operation "&&" [a, b] => (operand a).combine .meet (operand b)
  | .operation "||" [a, b] | .operation "??" [a, b] => (operand a).combine .either (operand b)
  | .other "sequence" (first :: rest) =>
    operand ((first :: rest).getLast (List.cons_ne_nil first rest))
  | form => foldParts part ⟨.always, none⟩ form.children

/-- How the class of a condition that is no constant comes about. -/
inductive JudgedBy (form : Form) : Prop
  | unknown (h : ∀ operand part, judge operand part form = ⟨.maybe, none⟩)
  | negation {a : Option NodeId} (ha : a ∈ form.children)
    (h : ∀ operand part, judge operand part form = (operand a).negate)
  | combination {op : Reachable → Reachable → Reachable} {a b : Option NodeId}
    (ha : a ∈ form.children) (hb : b ∈ form.children)
    (h : ∀ operand part, judge operand part form = (operand a).combine op (operand b))
  | last {a : Option NodeId} (ha : a ∈ form.children)
    (h : ∀ operand part, judge operand part form = operand a)
  | parts (h : ∀ operand part,
      judge operand part form = foldParts part ⟨.always, none⟩ form.children)

theorem judgedBy (form : Form) : JudgedBy form := by
  fun_cases judge (fun _ => ⟨.maybe, none⟩) (fun _ => ⟨.maybe, none⟩) form with
  | case1 | case2 => exact .unknown fun _ _ => rfl
  | case3 a => exact .negation List.mem_cons_self fun _ _ => rfl
  | case4 a b | case5 a b | case6 a b =>
    exact .combination List.mem_cons_self (List.mem_cons_of_mem a List.mem_cons_self) fun _ _ => rfl
  | case7 first rest =>
    exact .last (List.getLast_mem (List.cons_ne_nil first rest)) fun _ _ => rfl
  | case8 =>
    rename_i hname hthis hnot hand hor hnull hlast
    exact .parts fun _ _ => judge.eq_8 _ _ _ hname hthis hnot hand hor hnull hlast

/-- One call on a condition. -/
def classifyCall (g : Graph) (consts : Consts)
    (next : List NodeId → Option NodeId → Classified) (path : List NodeId)
    (child : Option NodeId) : Classified :=
  match child with
  | none => ⟨.always, none⟩
  | some id =>
    match g.node? id with
    | none => ⟨.always, none⟩
    | some n =>
      if id ∈ path then ⟨.never, some n.line⟩ else
      match constant? consts n.form with
      | some truthy => ⟨if truthy then .always else .never, none⟩
      | none => judge (next (id :: path)) (operand g consts (id :: path)) n.form

/-- One call of the walk. -/
def walkCall (E : Setting) (next : List NodeId → Visit) (path : List NodeId) : Visit :=
  fun child s =>
    match child with
    | none => s
    | some id =>
      if s.fault.isSome then s else
      match E.graph.node? id with
      | none => s
      | some n =>
        if id ∈ path then s.failCyclic n.line
        else visitNode E (id :: path) (next (id :: path)) n s

theorem operand_eq (path : List NodeId) (c : Option NodeId) :
    operand g consts path c = operandCall g consts (operand g consts) path c := by
  rw [operand.eq_def]
  unfold operandCall
  cases c with
  | none => rfl
  | some id =>
    simp only
    split
    · rename_i hn
      rw [hn]
    · rename_i n hn
      rw [hn]
      rfl

theorem classify_eq (path : List NodeId) (c : Option NodeId) :
    classify g consts path c = classifyCall g consts (classify g consts) path c := by
  rw [classify.eq_def]
  unfold classifyCall
  cases c with
  | none => rfl
  | some id =>
    simp only
    split
    · rename_i hn
      rw [hn]
    · rename_i n hn
      rw [hn]
      rfl

theorem operand_answersWithin (path : List NodeId) :
    AnswersWithin (operandCall g consts) (g.size + 1) path (operand g consts path) := by
  intro deeper
  refine g.repeat_induction (P := fun path answer => answer = operand g consts path)
    (fun next path ih => ?_) deeper path
  funext c
  rw [operand_eq]
  unfold operandCall
  cases c with
  | none => rfl
  | some id =>
    simp only
    split
    · rfl
    · rename_i n hn
      by_cases hp : id ∈ path
      · simp only [hp, if_true]
      · rw [ih _ (g.room_cons_lt hn hp)]

theorem classify_answersWithin (path : List NodeId) :
    AnswersWithin (classifyCall g consts) (g.size + 1) path (classify g consts path) := by
  intro deeper
  refine g.repeat_induction (P := fun path answer => answer = classify g consts path)
    (fun next path ih => ?_) deeper path
  funext c
  rw [classify_eq]
  unfold classifyCall
  cases c with
  | none => rfl
  | some id =>
    simp only
    split
    · rfl
    · rename_i n hn
      by_cases hp : id ∈ path
      · rw [if_pos hp, if_pos hp]
      · rw [ih _ (g.room_cons_lt hn hp)]

theorem walk_answersWithin (path : List NodeId) :
    AnswersWithin (walkCall E) (E.graph.size + 1) path (walk E path) := by
  intro deeper
  refine E.graph.repeat_induction (P := fun path answer => answer = walk E path)
    (fun next path ih => ?_) deeper path
  funext c s
  unfold walkCall
  cases c with
  | none => rw [walk_none]
  | some id =>
    simp only
    split
    · exact (walk_of_fault _ ‹_›).symm
    · rename_i hs
      rw [Bool.not_eq_true, Option.isSome_eq_false_iff, Option.isNone_iff_eq_none] at hs
      split
      · exact (walk_missing ‹_›).symm
      · rename_i n hn
        split
        · exact (walk_cyclic hs hn ‹_›).symm
        · rename_i hp
          rw [walk_some hs hn hp, ih _ (E.graph.room_cons_lt hn hp)]

/-! ### Faults -/

/-- A field that holds no function cannot be analysed, and the reason is another. -/
theorem analyzeFunction_of_missing {fn : Option NodeId}
    (h : ∀ id, fn = some id → ¬ E.graph.IsFunction id) :
    (analyzeFunction E fn).result = .error (.malformed unnamedScope 0 "nil function") := by
  unfold analyzeFunction
  split
  · rename_i hfn
    exact absurd ⟨_, _, _, _, _, hfn⟩ (h _ rfl)
  · rfl

/-- **Every analysis ends, and fails only on a cycle.** The walk, the classification of
a condition and of its parts, and the search for the base of a chain nest no more
calls than the graph has nodes, and one. If a function is said to be cyclic, some node
from it down stands below itself; where none does, the function is analysed, however
its nodes are shared. -/
theorem analysis_ends (E : Setting) (fn : Option NodeId) :
    (∀ path, AnswersWithin (walkCall E) (E.graph.size + 1) path (walk E path)) ∧
    (∀ consts path, AnswersWithin (classifyCall E.graph consts) (E.graph.size + 1) path
      (classify E.graph consts path)) ∧
    (∀ consts path, AnswersWithin (operandCall E.graph consts) (E.graph.size + 1) path
      (operand E.graph consts path)) ∧
    AnswersWithin E.graph.rootCall (E.graph.size + 1) [] E.graph.root? ∧
    (∀ f, (analyzeFunction E fn).result = .error f → f.reason = "cyclic syntax tree" →
      ∃ id, fn = some id ∧ E.graph.Cyclic id) ∧
    ∀ id, fn = some id → E.graph.IsFunction id → ¬ E.graph.Cyclic id →
      ∃ scope, (analyzeFunction E fn).result = .ok scope := by
  refine ⟨walk_answersWithin, fun _ => classify_answersWithin, fun _ => operand_answersWithin,
    Graph.root?_answersWithin, fun f hf hreason => ?_, ?_⟩
  · by_cases hfn : ∃ id, fn = some id ∧ E.graph.IsFunction id
    · obtain ⟨id, rfl, line, name, params, body, locals, hn⟩ := hfn
      refine ⟨id, rfl, Classical.byContradiction fun hacyclic => ?_⟩
      obtain ⟨scope, hscope⟩ := exists_analyzeFunction hn hacyclic
      rw [hscope] at hf
      cases hf
    · rw [analyzeFunction_of_missing fun id hid h => hfn ⟨id, hid, h⟩] at hf
      obtain rfl := Except.error.inj hf
      exact absurd hreason (by decide)
  · rintro id rfl ⟨line, name, params, body, locals, hn⟩ hacyclic
    exact exists_analyzeFunction hn hacyclic

/-- The code `a = s; b = s;`, with one node for both reads of `s`. -/
def sharing : Setting := { graph := ⟨#[
  ⟨1, .function "f" [] [some 1, some 2] []⟩,
  ⟨1, .assignment "=" (some 3) (some 5)⟩,
  ⟨1, .assignment "=" (some 4) (some 5)⟩,
  ⟨1, .name "a"⟩,
  ⟨1, .name "b"⟩,
  ⟨1, .name "s"⟩]⟩ }

/-- A block that holds itself. -/
def looping : Setting := { graph := ⟨#[
  ⟨1, .function "f" [] [some 1] []⟩,
  ⟨2, .other "block" [some 1]⟩]⟩ }

theorem analysis_ends_sharing :
    ¬ sharing.graph.Cyclic 0 ∧ (∃ scope, (analyzeFunction sharing (some 0)).result = .ok scope) ∧
    (analyzeFunction looping (some 0)).result =
      .error (.malformed "f@1" 2 "cyclic syntax tree") ∧ looping.graph.Cyclic 0 := by
  have hacyclic : ¬ sharing.graph.Cyclic 0 := Graph.not_cyclic_of_forward (by decide)
  have hfunction : sharing.graph.IsFunction 0 := ⟨_, _, _, _, _, rfl⟩
  have hfails : (analyzeFunction looping (some 0)).result =
      .error (.malformed "f@1" 2 "cyclic syntax tree") := by decide +kernel
  obtain ⟨_, _, _, _, _, haccepts⟩ := analysis_ends sharing (some 0)
  obtain ⟨_, _, _, _, htells, _⟩ := analysis_ends looping (some 0)
  obtain ⟨id, hid, hcyclic⟩ := htells _ hfails rfl
  obtain rfl := Option.some.inj hid
  exact ⟨hacyclic, haccepts 0 rfl hfunction hacyclic, hfails, hcyclic⟩

end Walk

end TaintReach
