import Mathlib.Logic.Relation
import TaintReach.Proofs.Walk.Overlooked

/-! Which cycles are reported.

A function is reported as cyclic exactly if the looks of its run return to a node they have
come through (`cycles_reported`). Whether a field is looked at hangs on the run in one way
only: a branch is left out where its condition rules it out. `Follows` says of two nodes
that the second is looked at from the first in every run, and in which way; it takes a
branch only if no run can rule it out. Looks go along such routes (`Follows.look`), so a
cycle that the routes from a function lead to is reported whatever the run knows. A cycle
through a field that is overlooked goes unnoticed (`discriminant_cycle_unreported`), and so
does one through the function itself where that is a part of a condition
(`Mode.Notices`). -/
namespace TaintReach.Walk

/-! ### The class of the current point -/

section
variable {E : Setting} {visit : Visit} (hv : ∀ c s, (visit c s).ambient = s.ambient)
include hv

omit hv in
theorem ambient_foldl {α : Type} {round : State → α → State}
    (h : ∀ s x, (round s x).ambient = s.ambient) (xs : List α) (s : State) :
    (xs.foldl round s).ambient = s.ambient := by
  induction xs generalizing s with
  | nil => rfl
  | cons x xs ih => exact (ih (round s x)).trans (h s x)

omit hv in
theorem ambient_lookup (s : State) (declared : Option (String → Bool)) (ident : String)
    (line : Int) : (s.lookup declared ident line).ambient = s.ambient :=
  (sameBeside_lookup s declared ident line).ambient

theorem ambient_visitAll (cs : List (Option NodeId)) (s : State) :
    (visitAll visit cs s).ambient = s.ambient :=
  ambient_foldl (fun s c => hv c s) cs s

theorem ambient_assign (target value : Option NodeId) (s : State) :
    (assign E visit target value s).2.ambient = s.ambient := by
  have hboth : (visit value (visit target s)).ambient = s.ambient :=
    (hv value _).trans (hv target s)
  have hreceive : ∀ (s : State) (ident : String) (line : Int),
      ((s.bind E.declared ident line).route (some ident) (visit value)).ambient = s.ambient :=
    fun s ident line => (hv value _).trans (ambient_lookup _ E.declared ident line)
  have hroute : ∀ (s : State) (c : Option NodeId), (s.route none (visit c)).ambient = s.ambient :=
    fun s c => hv c _
  unfold assign
  rcases E.graph.at? target with _ | ⟨line, form⟩
  · exact hboth
  cases form with
  | name ident => exact hreceive s ident line
  | pattern names defaults =>
    refine (ambient_foldl hroute defaults _).trans ?_
    refine (ambient_foldl (fun s n => ?_) names _).trans ?_
    · rcases E.graph.name? (some n) with _ | ⟨ident, line⟩
      · rfl
      · exact hreceive s ident line
    · split
      · exact hv value _
      · rfl
  | member object property propName computed =>
    rcases E.graph.root? target with _ | ⟨ident, rootLine⟩
    · exact hboth
    have hstart : (if computed then (s.lookup E.declared ident rootLine).route none (visit property)
        else s.lookup E.declared ident rootLine).ambient = s.ambient := by
      split
      · exact (hv property _).trans (ambient_lookup s E.declared ident rootLine)
      · exact ambient_lookup s E.declared ident rootLine
    simp only
    rcases E.graph.name? value with _ | ⟨on, onLine⟩
    · exact (hv value _).trans hstart
    · exact (ambient_lookup _ E.declared on onLine).trans hstart
  | _ => exact hboth

omit hv in
theorem ambient_methodCall (callee : Option NodeId) (args : List (Option NodeId)) (s : State) :
    (methodCall E callee args s).ambient = s.ambient := by
  unfold methodCall
  split
  · refine (ambient_foldl (fun s a => ?_) args _).trans (ambient_lookup s E.declared _ _)
    split
    · exact ambient_lookup s E.declared _ _
    · rfl
  · rfl

theorem ambient_call (line : Int) (callee : Option NodeId) (args : List (Option NodeId))
    (isNew : Bool) (s : State) : (call E visit line callee args isNew s).ambient = s.ambient := by
  unfold call
  split
  · split
    · split
      · exact (sameBeside_markSource s line).ambient
      · rfl
    split
    · split
      · split
        · exact (sameBeside_sink _ _ line).ambient.trans (ambient_lookup s E.declared _ _)
        · rfl
      · rfl
    · exact ambient_visitAll hv args s
  · have hcallee := (hv callee _).trans (ambient_methodCall (E := E) callee args s)
    exact (ambient_visitAll hv args _).trans hcallee

theorem ambient_opened (kind : CondKind) (init : Option NodeId) (s : State) :
    (opened visit kind init s).ambient = s.ambient := by
  unfold opened
  split
  · exact hv init s
  · rfl

omit hv in
theorem ambient_conditional (path : List NodeId) (line : Int) (kind : CondKind)
    (init test update each body otherwise : Option NodeId) (s : State) :
    (conditional E path visit line kind init test update each body otherwise s).ambient =
      (opened visit kind init s).ambient := by
  unfold conditional
  simp only
  split <;> rfl

theorem ambient_visitNode (path : List NodeId) (n : Node) (s : State) :
    (visitNode E path visit n s).ambient = s.ambient := by
  obtain ⟨line, form⟩ := n
  unfold visitNode
  cases form with
  | function _ _ _ _ => rfl
  | declaration kind bindings =>
    refine ambient_foldl (fun s b => ?_) bindings s
    simp only
    split
    · obtain ⟨_, hrecord⟩ := recordConst_eq E.graph b (visit (some b) s)
      rw [hrecord]
      exact hv (some b) s
    · exact hv (some b) s
  | binding target value => exact ambient_assign hv target value s
  | assignment _ target value =>
    have hassign := ambient_assign (E := E) hv target value s
    simp only
    split
    · rename_i v t heq
      rw [heq] at hassign
      unfold State.dependDefining
      split <;> exact hassign
    · rename_i t heq
      rw [heq] at hassign
      exact hassign
  | name ident =>
    simp only
    split
    · rfl
    · unfold State.dependDefining
      split <;> exact ambient_lookup s E.declared ident line
  | call callee args isNew => exact ambient_call hv line callee args isNew s
  | conditional kind init test update each body otherwise =>
    exact (ambient_conditional path line kind init test update each body otherwise s).trans
      (ambient_opened hv kind init s)
  | switch _ clauses => rfl
  | _ => exact ambient_visitAll hv _ s

end

/-- A walk leaves the point it stands at as it found it. -/
theorem ambient_walk (E : Setting) (path : List NodeId) (c : Option NodeId) (s : State) :
    (walk E path c s).ambient = s.ambient := by
  fun_induction walk E path c s with
  | case1 | case2 | case3 | case4 => rfl
  | case5 path s id _ n hn hp ih => exact ambient_visitNode ih (id :: path) n s

/-! ### Ways of looking -/

/-- The ways in which a node is looked at. -/
inductive Way where
  | visit
  | test
  | part
deriving DecidableEq

/-- The modes of a way. What is visited is not ruled out. -/
def Way.Admits : Way → Mode → Prop
  | .visit, .visit s => s.ambient ≠ .never
  | .test, .test _ => True
  | .part, .part _ => True
  | _, _ => False

theorem Way.admits_visit {mode : Mode} (h : Way.visit.Admits mode) :
    ∃ s : State, mode = .visit s ∧ s.ambient ≠ .never := by
  cases mode with
  | visit s => exact ⟨s, rfl, h⟩
  | _ => cases h

theorem Way.admits_test {mode : Mode} (h : Way.test.Admits mode) :
    ∃ consts, mode = .test consts := by
  cases mode with
  | test consts => exact ⟨consts, rfl⟩
  | _ => cases h

theorem Way.admits_part {mode : Mode} (h : Way.part.Admits mode) :
    ∃ consts, mode = .part consts := by
  cases mode with
  | part consts => exact ⟨consts, rfl⟩
  | _ => cases h

/-- The way in which the field `c` of a node is looked at, if the node is looked at in the
way `w`. -/
def Way.below (w : Way) (form : Form) (c : Option NodeId) : Way :=
  match w with
  | .visit =>
    match form with
    | .conditional _ _ guard _ _ _ _ => if c = guard then .test else .visit
    | _ => .visit
  | .test =>
    match form with
    | .operation "!" [_] => .test
    | .operation "&&" [_, _] | .operation "||" [_, _] | .operation "??" [_, _] => .test
    | .other "sequence" (_ :: _) => .test
    | _ => .part
  | .part => .part

theorem meet_ne_never {a b : Reachable} (ha : a ≠ .never) (hb : b ≠ .never) :
    a.meet b ≠ .never := fun h => (meet_eq_never h).elim ha hb

/-- Rounds that keep the class of a point visit at points of that class. -/
theorem gather_admits {α : Type} {round : State → α → State} {looks : State → α → List Look}
    (hround : ∀ s x, (round s x).ambient = s.ambient)
    (hlooks : ∀ s x, s.ambient ≠ .never → ∀ look ∈ looks s x, Way.visit.Admits look.mode)
    (xs : List α) {s : State} (hs : s.ambient ≠ .never) :
    ∀ look ∈ gather round looks xs s, Way.visit.Admits look.mode := by
  induction xs generalizing s with
  | nil => exact fun _ h => nomatch h
  | cons x xs ih =>
    intro look hlook
    rcases List.mem_append.mp hlook with hlook | hlook
    · exact hlooks s x hs look hlook
    · exact ih ((hround s x).symm ▸ hs) look hlook

section
variable {E : Setting} {path : List NodeId} {s : State} (hs : s.ambient ≠ .never)
include hs

theorem looksAll_admits (cs : List (Option NodeId)) :
    ∀ look ∈ looksAll (walk E path) cs s, Way.visit.Admits look.mode := by
  refine gather_admits (fun s c => ambient_walk E path c s) (fun s c hs look hlook => ?_) cs hs
  obtain rfl := List.mem_singleton.mp hlook
  exact hs

theorem looksAll_looked (E : Setting) (path : List NodeId) {cs : List (Option NodeId)} {c : NodeId}
    (hc : some c ∈ cs) :
    ∃ mode, ⟨some c, mode⟩ ∈ looksAll (walk E path) cs s ∧ Way.visit.Admits mode := by
  have hfields : (looksAll (walk E path) cs s).map (·.field) = cs := fields_all cs s
  rw [← hfields] at hc
  obtain ⟨⟨_, mode⟩, hlook, rfl⟩ := List.mem_map.mp hc
  exact ⟨mode, hlook, looksAll_admits hs cs _ hlook⟩

theorem assignLooks_admits (target value : Option NodeId) :
    ∀ look ∈ assignLooks E (walk E path) target value s, Way.visit.Admits look.mode := by
  have hreceiving : ∀ {s : State} (x : String × Int), s.ambient ≠ .never →
      (receiving E s x).ambient ≠ .never := fun {s} x hs =>
    (ambient_lookup { s with consts := s.consts.forget x.1 } E.declared x.1 x.2).symm ▸ hs
  have hround : ∀ (s : State) (x : String × Int),
      ((s.bind E.declared x.1 x.2).route (some x.1) (walk E path value)).ambient = s.ambient :=
    fun s x => (ambient_walk E path value _).trans (ambient_lookup _ E.declared x.1 x.2)
  have hboth : ∀ look ∈ [(⟨target, .visit s⟩ : Look), ⟨value, .visit (walk E path target s)⟩],
      Way.visit.Admits look.mode := by
    have htarget : (walk E path target s).ambient ≠ .never :=
      (ambient_walk E path target s).symm ▸ hs
    simp only [List.forall_mem_cons, List.not_mem_nil, false_imp_iff, implies_true, and_true]
    exact ⟨hs, htarget⟩
  unfold assignLooks
  rcases E.graph.at? target with _ | ⟨line, form⟩
  · exact hboth
  cases form with
  | name ident =>
    intro look hlook
    obtain rfl := List.mem_singleton.mp hlook
    exact hreceiving (ident, line) hs
  | pattern names defaults =>
    have hstart : (if names = [] then s.route none (walk E path value) else s).ambient ≠
        .never := by
      split
      · exact (ambient_walk E path value _).symm ▸ hs
      · exact hs
    simp only [List.mem_append]
    rintro look ((hlook | hlook) | hlook)
    · split at hlook
      · obtain rfl := List.mem_singleton.mp hlook
        exact hs
      · cases hlook
    · refine gather_admits hround (fun s x hs look hlook => ?_) _ hstart look hlook
      obtain rfl := List.mem_singleton.mp hlook
      exact hreceiving x hs
    · have hroute : ∀ (s : State) (d : Option NodeId),
          (s.route none (walk E path d)).ambient = s.ambient := fun s d => ambient_walk E path d _
      refine gather_admits hroute (fun s d hs look hlook => ?_) defaults
        ((ambient_foldl hround _ _).symm ▸ hstart) look hlook
      obtain rfl := List.mem_singleton.mp hlook
      exact hs
  | member object property propName computed =>
    rcases E.graph.root? target with _ | ⟨ident, rootLine⟩
    · exact hboth
    have hlookup : (s.lookup E.declared ident rootLine).ambient ≠ .never :=
      (ambient_lookup s E.declared ident rootLine).symm ▸ hs
    simp only [List.mem_append]
    rintro look (hlook | hlook)
    · split at hlook
      · obtain rfl := List.mem_singleton.mp hlook
        exact hlookup
      · cases hlook
    · split at hlook
      · cases hlook
      · obtain rfl := List.mem_singleton.mp hlook
        change (if computed then
          (s.lookup E.declared ident rootLine).route none (walk E path property)
          else s.lookup E.declared ident rootLine).ambient ≠ .never
        split
        · exact (ambient_walk E path property _).symm ▸ hlookup
        · exact hlookup
  | _ => exact hboth

theorem callLooks_admits (callee : Option NodeId) (args : List (Option NodeId)) (isNew : Bool) :
    ∀ look ∈ callLooks E (walk E path) callee args isNew s, Way.visit.Admits look.mode := by
  have hstart : (methodCall E callee args s).ambient ≠ .never :=
    (ambient_methodCall callee args s).symm ▸ hs
  have hcallee : (walk E path callee (methodCall E callee args s)).ambient ≠ .never :=
    (ambient_walk E path callee _).symm ▸ hstart
  unfold callLooks
  split
  · split
    · exact fun _ h => nomatch h
    · exact looksAll_admits hs args
  · intro look hlook
    rcases List.mem_cons.mp hlook with rfl | hlook
    · exact hstart
    · exact looksAll_admits hcallee args look hlook

omit hs in
/-- Unless the loop enumerates, its condition is judged. -/
theorem test_looked {line : Int} {kind : CondKind}
    {init test update each body otherwise : Option NodeId}
    (hkind : ¬ (kind = .forIn ∨ kind = .forOf)) :
    ⟨test, .test (opened (walk E path) kind init s).consts⟩ ∈
      conditionalLooks E path (walk E path) line kind init test update each body otherwise s := by
  refine List.mem_append_left _ (List.mem_append_left _ (List.mem_append_right _ ?_))
  rw [if_neg hkind]
  exact List.mem_singleton_self _

theorem conditionalLooks_admits (line : Int) (kind : CondKind)
    (init test update each body otherwise : Option NodeId) :
    ∀ look ∈ conditionalLooks E path (walk E path) line kind init test update each body otherwise s,
      look.field = test ∨ Way.visit.Admits look.mode := by
  unfold conditionalLooks
  simp only [List.mem_append]
  rintro look (((hlook | hlook) | hlook) | hlook)
  · split at hlook
    · obtain rfl := List.mem_singleton.mp hlook
      exact .inr hs
    · cases hlook
  · split at hlook
    · cases hlook
    · obtain rfl := List.mem_singleton.mp hlook
      exact .inl rfl
  · split at hlook
    · cases hlook
    · rename_i hinner
      exact .inr (looksAll_admits (s := (guarded _ _ _ _).enter _) hinner _ look hlook)
  · split at hlook
    · cases hlook
    · rename_i hother
      obtain rfl := List.mem_singleton.mp hlook
      exact .inr fun hnever => hother (.inr hnever)

theorem declarationLooks_admits (kind : DeclKind) (bindings : List NodeId) :
    ∀ look ∈ declarationLooks E (walk E path) kind bindings s, Way.visit.Admits look.mode := by
  refine gather_admits (fun s b => ?_) (fun s b hs look hlook => ?_) bindings hs
  · simp only
    split
    · obtain ⟨_, hrecord⟩ := recordConst_eq E.graph b (walk E path (some b) s)
      rw [hrecord]
      exact ambient_walk E path (some b) s
    · exact ambient_walk E path (some b) s
  · obtain rfl := List.mem_singleton.mp hlook
    exact hs

theorem switchLooks_admits (clauses : List NodeId) :
    ∀ look ∈ switchLooks E (walk E path) clauses s, Way.visit.Admits look.mode := by
  have hinner : (s.enter (s.ambient.meet .maybe)).ambient ≠ .never :=
    meet_ne_never hs (by decide)
  exact gather_admits (fun s c => ambient_visitAll (ambient_walk E path) _ s)
    (fun s c hs => looksAll_admits hs _) clauses hinner

/-- A field of a node that is visited is looked at in the way that belongs to it. -/
theorem visitLooks_admits {n : Node} {c : NodeId}
    (hc : some c ∈ (visitLooks E path (walk E path) n s).map Look.field)
    (hseen : some c ∉ overlookedVisit E path s n.form) :
    ∃ mode, ⟨some c, mode⟩ ∈ visitLooks E path (walk E path) n s ∧
      (Way.visit.below n.form (some c)).Admits mode := by
  obtain ⟨line, form⟩ := n
  obtain ⟨⟨_, mode⟩, hlook, rfl⟩ := List.mem_map.mp hc
  cases form with
  | conditional kind init test update each body otherwise =>
    by_cases htest : some c = test
    · -- A node that is both the condition and another field is looked at as the condition too.
      have hkind : ¬ (kind = .forIn ∨ kind = .forOf) := by
        intro hkind
        refine hseen (List.mem_append_left _ (List.mem_append_left _ (List.mem_append_right _ ?_)))
        rw [if_pos hkind, htest]
        exact List.mem_singleton_self _
      refine ⟨.test (opened (walk E path) kind init s).consts, htest ▸ test_looked hkind, ?_⟩
      simp only [Way.below, if_pos htest]
      trivial
    · refine ⟨mode, hlook, ?_⟩
      simp only [Way.below, if_neg htest]
      exact (conditionalLooks_admits hs line kind init test update each body otherwise _
        hlook).resolve_left htest
  | function name params body locals => cases hlook
  | declaration kind bindings =>
    exact ⟨mode, hlook, declarationLooks_admits hs kind bindings _ hlook⟩
  | binding target value => exact ⟨mode, hlook, assignLooks_admits hs target value _ hlook⟩
  | assignment operator target value =>
    exact ⟨mode, hlook, assignLooks_admits hs target value _ hlook⟩
  | call callee args isNew => exact ⟨mode, hlook, callLooks_admits hs callee args isNew _ hlook⟩
  | switch discriminant clauses => exact ⟨mode, hlook, switchLooks_admits hs clauses _ hlook⟩
  | _ => exact ⟨mode, hlook, looksAll_admits hs _ _ hlook⟩

omit hs in
theorem testLooks_admits (consts : Consts) (form : Form) :
    ∀ look ∈ testLooks consts form, (Way.test.below form look.field).Admits look.mode := by
  intro look hlook
  unfold testLooks at hlook
  split at hlook
  · cases hlook
  split at hlook
  · obtain rfl := List.mem_singleton.mp hlook
    trivial
  · rcases List.mem_pair.mp hlook with rfl | rfl <;> trivial
  · rcases List.mem_pair.mp hlook with rfl | rfl <;> trivial
  · rcases List.mem_pair.mp hlook with rfl | rfl <;> trivial
  · obtain rfl := List.mem_singleton.mp hlook
    trivial
  · obtain ⟨c, -, rfl⟩ := List.mem_map.mp hlook
    -- The other forms are those that lead to parts.
    have hbelow : Way.test.below form c = .part := by simp only [Way.below]
    rw [hbelow]
    trivial

omit hs in
theorem partLooks_admits (consts : Consts) (form : Form) :
    ∀ look ∈ partLooks consts form, Way.part.Admits look.mode := by
  intro look hlook
  unfold partLooks at hlook
  split at hlook
  · cases hlook
  · obtain ⟨c, -, rfl⟩ := List.mem_map.mp hlook
    trivial

omit hs in
/-- A field that is looked at is looked at in the way that belongs to it. -/
theorem looks_admits {n : Node} {w : Way} {mode : Mode} (hmode : w.Admits mode) {c : NodeId}
    (hc : some c ∈ (looks E path n mode).map Look.field)
    (hseen : some c ∉ overlooked E path n.form mode) :
    ∃ mode', ⟨some c, mode'⟩ ∈ looks E path n mode ∧ (w.below n.form (some c)).Admits mode' := by
  obtain ⟨⟨_, mode'⟩, hlook, rfl⟩ := List.mem_map.mp hc
  cases w with
  | visit =>
    obtain ⟨s, rfl, hs⟩ := Way.admits_visit hmode
    exact visitLooks_admits hs hc hseen
  | test =>
    obtain ⟨consts, rfl⟩ := Way.admits_test hmode
    exact ⟨mode', hlook, testLooks_admits consts n.form _ hlook⟩
  | part =>
    obtain ⟨consts, rfl⟩ := Way.admits_part hmode
    exact ⟨mode', hlook, partLooks_admits consts n.form _ hlook⟩

end

/-! ### Routes -/

/-- No knowledge of constants rules a branch out. An enumerating loop has no condition, and
one that stands below itself is not judged. -/
def StaysOpen (g : Graph) (kind : CondKind) (test : Option NodeId) (side : Reachable → Reachable) :
    Prop :=
  ¬ (kind = .forIn ∨ kind = .forOf) → ∀ consts path,
    (classify g consts path test).loopLine = none →
      side (classify g consts path test).reach ≠ .never

/-- Whoever looks at the first node in the first way looks at the second in the second way. -/
inductive Follows (E : Setting) : NodeId × Way → NodeId × Way → Prop
  | field {p c : NodeId} {n : Node} {w : Way} (hn : E.graph.node? p = some n)
    (hshown : ∀ mode, w.Admits mode →
      some c ∈ shown E.graph n.form mode ∧ some c ∉ passedThrough E.graph n.form mode)
    (hseen : ∀ path mode, w.Admits mode → some c ∉ overlooked E path n.form mode) :
    Follows E (p, w) (c, w.below n.form (some c))
  | body {p c : NodeId} {line : Int} {kind : CondKind}
    {init test update each body otherwise : Option NodeId}
    (hn : E.graph.node? p = some ⟨line, .conditional kind init test update each body otherwise⟩)
    (hc : some c ∈ [each, body, update]) (hopen : StaysOpen E.graph kind test id) :
    Follows E (p, .visit) (c, .visit)
  | otherwise {p c : NodeId} {line : Int} {kind : CondKind}
    {init test update each body : Option NodeId}
    (hn : E.graph.node? p = some ⟨line, .conditional kind init test update each body (some c)⟩)
    (hopen : StaysOpen E.graph kind test Reachable.negate) :
    Follows E (p, .visit) (c, .visit)

section
variable {E : Setting} {path : List NodeId}

theorem Way.exists_admits (w : Way) : ∃ mode, w.Admits mode := by
  cases w
  · exact ⟨.visit {}, fun h => nomatch h⟩
  · exact ⟨.test [], trivial⟩
  · exact ⟨.part [], trivial⟩

/-- What a route leads on from is a node with something below it. -/
theorem Follows.unsettled {x y : NodeId × Way} (h : Follows E x y) :
    ∃ n, E.graph.node? x.1 = some n ∧ ∀ consts, settled consts n.form = false := by
  cases h with
  | body hn _ _ => exact ⟨_, hn, fun _ => rfl⟩
  | otherwise hn _ => exact ⟨_, hn, fun _ => rfl⟩
  | @field p c n w hn hshown hseen =>
    refine ⟨n, hn, fun consts => ?_⟩
    obtain ⟨mode, hmode⟩ := Way.exists_admits w
    have hbelow := (hshown mode hmode).1
    have hleft := hseen [] mode hmode
    obtain ⟨line, form⟩ := n
    cases form with
    | function name params body locals =>
      -- All that is below a nested function is overlooked.
      have hall : some c ∈ params ++ body := by
        rw [shown_of_passedThrough (by cases mode <;> rfl)] at hbelow
        exact hbelow
      cases mode <;> exact absurd hall hleft
    | name ident => cases mode <;> cases hbelow
    | literal value => cases mode <;> cases hbelow
    | thisRef => cases mode <;> cases hbelow
    | _ => rfl

/-- The condition of a branch that stays open is found to be cyclic, or the branch is not
ruled out. -/
theorem StaysOpen.returns_or_ne_never {kind : CondKind} {test : Option NodeId}
    {side : Reachable → Reachable} (h : StaysOpen E.graph kind test side)
    (path : List NodeId) (hmaybe : side .maybe ≠ .never) {s : State} (hs : s.ambient ≠ .never) :
    (¬ (kind = .forIn ∨ kind = .forOf) ∧ Returns E path ⟨test, .test s.consts⟩) ∨
      s.ambient.meet (side (guardOf E path kind test s).reach) ≠ .never := by
  unfold guardOf
  by_cases hkind : kind = .forIn ∨ kind = .forOf
  · rw [if_pos hkind]
    exact .inr (meet_ne_never hs hmaybe)
  · rw [if_neg hkind]
    cases hloop : (classify E.graph s.consts path test).loopLine with
    | none => exact .inr (meet_ne_never hs (h hkind s.consts path hloop))
    | some line =>
      have hreturns := (classify_returns (E := E) path test).mp (Option.isSome_of_mem hloop)
      exact .inl ⟨hkind, hreturns⟩

section
variable {s : State} (hs : s.ambient ≠ .never) {line : Int} {kind : CondKind}
  {init test update each body otherwise : Option NodeId}
include hs

theorem body_looked {c : NodeId} (hc : some c ∈ [each, body, update])
    (hopen : StaysOpen E.graph kind test id) :
    (∃ look ∈ conditionalLooks E path (walk E path) line kind init test update each body otherwise
      s, Returns E path look) ∨
    ∃ mode, ⟨some c, mode⟩ ∈ conditionalLooks E path (walk E path) line kind init test update each
      body otherwise s ∧ Way.visit.Admits mode := by
  have hstart : (opened (walk E path) kind init s).ambient ≠ .never :=
    (ambient_opened (ambient_walk E path) kind init s).symm ▸ hs
  rcases hopen.returns_or_ne_never path (by decide) hstart with ⟨hkind, hreturns⟩ | hinner
  · exact .inl ⟨_, test_looked hkind, hreturns⟩
  · right
    have hwithin : ((guarded line kind (guardOf E path kind test (opened (walk E path) kind init s))
        (opened (walk E path) kind init s)).enter _).ambient ≠ .never := hinner
    obtain ⟨mode, hlook, hmode⟩ := looksAll_looked hwithin E path hc
    refine ⟨mode, List.mem_append_left _ (List.mem_append_right _ ?_), hmode⟩
    exact if_neg hinner ▸ hlook

theorem otherwise_looked {c : NodeId} (hopen : StaysOpen E.graph kind test Reachable.negate) :
    (∃ look ∈ conditionalLooks E path (walk E path) line kind init test update each body (some c) s,
      Returns E path look) ∨
    ∃ mode, ⟨some c, mode⟩ ∈ conditionalLooks E path (walk E path) line kind init test update each
      body (some c) s ∧ Way.visit.Admits mode := by
  have hstart : (opened (walk E path) kind init s).ambient ≠ .never :=
    (ambient_opened (ambient_walk E path) kind init s).symm ▸ hs
  rcases hopen.returns_or_ne_never path (by decide) hstart with ⟨hkind, hreturns⟩ | hother
  · exact .inl ⟨_, test_looked hkind, hreturns⟩
  · have hafter : ((afterBody E path (walk E path) line kind init test update each body s).enter
        _).ambient ≠ .never := hother
    refine .inr ⟨.visit _, List.mem_append_right _ ?_, hafter⟩
    rw [if_neg (not_or.mpr ⟨by simp, hother⟩)]
    exact List.mem_singleton_self _

end

/-- One step of a route: looking at the first node leads to a look at the second, unless it
returns before. -/
theorem Follows.look {x y : NodeId × Way} (h : Follows E x y) (path : List NodeId) {n : Node}
    (hn : E.graph.node? x.1 = some n) {mode : Mode} (hmode : x.2.Admits mode) :
    (∃ look ∈ looks E path n mode, Returns E path look) ∨
      ∃ mode', ⟨some y.1, mode'⟩ ∈ looks E path n mode ∧ y.2.Admits mode' := by
  cases h with
  | field hn' hshown hseen =>
    obtain rfl := Option.some.inj (hn'.symm.trans hn)
    obtain ⟨hbelow, hentered⟩ := hshown mode hmode
    have hunseen := hseen path mode hmode
    have hfield := (shown_covered hbelow).resolve_right (not_or.mpr ⟨hentered, hunseen⟩)
    exact .inr (looks_admits hmode hfield hunseen)
  | body hn' hc hopen =>
    obtain rfl := Option.some.inj (hn'.symm.trans hn)
    obtain ⟨s, rfl, hs⟩ := Way.admits_visit hmode
    exact body_looked hs hc hopen
  | otherwise hn' hopen =>
    obtain rfl := Option.some.inj (hn'.symm.trans hn)
    obtain ⟨s, rfl, hs⟩ := Way.admits_visit hmode
    exact otherwise_looked hs hopen

/-- However the node is looked at in the given way, the looks return. -/
def Caught (E : Setting) (path : List NodeId) (x : NodeId × Way) : Prop :=
  ∀ mode, x.2.Admits mode → Returns E path ⟨some x.1, mode⟩

theorem caught_onPath {d : NodeId} {n : Node} {w : Way} (hn : E.graph.node? d = some n)
    (hpath : d ∈ path) (hnoticed : w = .part → ∀ consts, settled consts n.form = false) :
    Caught E path (d, w) := by
  intro mode hmode
  refine .onPath hn hpath ?_
  cases w with
  | visit =>
    obtain ⟨s, rfl, -⟩ := Way.admits_visit hmode
    trivial
  | test =>
    obtain ⟨consts, rfl⟩ := Way.admits_test hmode
    trivial
  | part =>
    obtain ⟨consts, rfl⟩ := Way.admits_part hmode
    exact hnoticed rfl consts

/-- A node is caught if what follows it is, or if it is on the path itself. -/
theorem Follows.caught {x y : NodeId × Way} (h : Follows E x y)
    (hy : x.1 ∉ path → Caught E (x.1 :: path) y) : Caught E path x := by
  obtain ⟨n, hn, hunsettled⟩ := h.unsettled
  by_cases hpath : x.1 ∈ path
  · exact caught_onPath hn hpath fun _ => hunsettled
  · intro mode hmode
    rcases h.look (x.1 :: path) hn hmode with ⟨look, hlook, hreturns⟩ | ⟨mode', hlook, hway⟩
    · exact .deeper hn hpath hlook hreturns
    · exact .deeper hn hpath hlook (hy hpath mode' hway)

/-- A route is caught if its end is, on all paths that hold the same nodes. -/
theorem caught_of_route {x y : NodeId × Way} (hroute : Relation.ReflTransGen (Follows E) x y)
    {d : NodeId} (hy : ∀ path, d ∈ path → Caught E path y) (hd : d ∈ path) :
    Caught E path x := by
  induction hroute using Relation.ReflTransGen.head_induction_on generalizing path with
  | refl => exact hy path hd
  | head hstep _ ih => exact hstep.caught fun _ => ih (List.mem_cons_of_mem _ hd)

/-- A node on a cycle is caught on every path. -/
theorem caught_of_cycle {d : NodeId} {w w' : Way}
    (hcycle : Relation.TransGen (Follows E) (d, w) (d, w')) : Caught E path (d, w) := by
  obtain ⟨y, hstep, hback⟩ := Relation.TransGen.head'_iff.mp hcycle
  obtain ⟨n, hn, hunsettled⟩ := hstep.unsettled
  have hagain : ∀ path, d ∈ path → Caught E path (d, w') := fun _ hd =>
    caught_onPath hn hd fun _ => hunsettled
  exact hstep.caught fun _ => caught_of_route hback hagain List.mem_cons_self

/-- A route leads back: into the function it is in, but not as a part of a condition, or
to a node that it comes to again. -/
def LeadsBack (E : Setting) (root : NodeId) (x : NodeId × Way) : Prop :=
  x.1 = root ∧ x.2 ≠ .part ∨ ∃ w, Relation.TransGen (Follows E) x (x.1, w)

theorem LeadsBack.caught {root : NodeId} {n : Node} (hroot : E.graph.node? root = some n)
    {x y : NodeId × Way} (hback : LeadsBack E root y)
    (hroute : Relation.ReflTransGen (Follows E) x y) : Caught E [root] x := by
  refine caught_of_route hroute (fun path hpath => ?_) (List.mem_singleton_self root)
  rcases hback with ⟨hy, hway⟩ | ⟨w, hcycle⟩
  · exact caught_onPath (hy ▸ hroot) (hy ▸ hpath) fun hpart => absurd hpart hway
  · exact caught_of_cycle hcycle

end

/-! ### Reported cycles -/

section
variable {E : Setting}

/-- A fault that steps raise tells of a cycle. -/
theorem Steps.fault_eq {root : NodeId} {s t : State} (hsteps : Steps E root s t)
    (h : s.scope.WellFormed) : t.fault = s.fault ∨
      ∃ line, t.fault = some (.malformed s.scope.name line "cyclic syntax tree") := by
  induction hsteps with
  | refl => exact .inl rfl
  | tail hbefore hstep ih =>
    cases hstep with
    | fail line _ =>
      have hname := (Steps.extends hbefore h).grows.name
      exact .inr ⟨line, by rw [State.failCyclic, hname]⟩
    | register ident line => rwa [(sameBeside_lookup _ E.declared ident line).fault]
    | mark line => rwa [(sameBeside_markSource _ line).fault]
    | sink x line => rwa [(sameBeside_sink _ x line).fault]
    | _ => exact ih

/-- **A cycle is reported exactly if it is come upon.** The analysis of a function fails if
the looks of its run return to a node they have come through, and only then. All the
parameters and statements are looked at, and from there on all that stands below a node
that is looked at, unless it is passed through or overlooked. So a route through the graph
that starts at one of them, goes through no field that can be left out and leads back is
reported. -/
theorem cycles_reported {fn : NodeId} {line : Int} {name : String}
    {params body : List (Option NodeId)} {locals : List String}
    (hfn : E.graph.node? fn = some ⟨line, .function name params body locals⟩) :
    ((∃ look ∈ functionLooks E fn name line params body, Returns E [fn] look) →
      ∃ l, (analyzeFunction E (some fn)).result =
        .error (.malformed (idText name line) l "cyclic syntax tree")) ∧
    ((¬ ∃ look ∈ functionLooks E fn name line params body, Returns E [fn] look) →
      ∃ scope, (analyzeFunction E (some fn)).result = .ok scope) ∧
    (functionLooks E fn name line params body).map Look.field = params ++ body ∧
    (∀ path n mode c, some c ∈ shown E.graph n.form mode →
      some c ∈ (looks E path n mode).map Look.field ∨ some c ∈ passedThrough E.graph n.form mode ∨
        some c ∈ overlooked E path n.form mode) ∧
    ∀ c x, some c ∈ params ++ body → Relation.ReflTransGen (Follows E) (c, .visit) x →
      LeadsBack E fn x →
      ∃ l, (analyzeFunction E (some fn)).result =
        .error (.malformed (idText name line) l "cyclic syntax tree") := by
  have hfails := visitAll_failsBy (walk_failsBy E [fn]) (params ++ body) (opening name line)
  have hfault := (function_steps hfn (opening name line)).fault_eq (Scope.wellFormed_of_empty rfl)
  have hresult := analyzeFunction_result hfn
  rw [visitAll_append] at hfails
  have hreported : (∃ look ∈ functionLooks E fn name line params body, Returns E [fn] look) →
      ∃ l, (analyzeFunction E (some fn)).result =
        .error (.malformed (idText name line) l "cyclic syntax tree") := by
    intro hreturns
    have hsome := hfails.mpr (Or.inr hreturns)
    rcases hfault with hfault | ⟨l, hfault⟩
    · rw [hfault] at hsome
      cases hsome
    · rw [hfault] at hresult
      exact ⟨l, hresult⟩
  refine ⟨hreported, fun hnever => ?_, fields_all _ _, fun _ _ _ _ => shown_covered,
    fun c x hc hroute hback => ?_⟩
  · rcases hfault with hfault | ⟨l, hfault⟩
    · rw [hfault] at hresult
      exact ⟨_, hresult⟩
    · have hsome := hfails.mp (by rw [hfault]; rfl)
      exact absurd (hsome.resolve_left fun hstart => by cases hstart) hnever
  · have hopening : (opening name line).ambient ≠ .never := fun h => nomatch h
    obtain ⟨mode, hlook, hmode⟩ := looksAll_looked hopening E [fn] hc
    exact hreported ⟨_, hlook, hback.caught hfn hroute mode hmode⟩

end

/-- A loop whose condition has the loop itself as a part, and one that is its own body. -/
def circling : Setting := { graph := ⟨#[
  ⟨1, .function "f" [] [some 1, some 4] []⟩,
  ⟨2, .conditional .whileLoop none (some 2) none none none none⟩,
  ⟨2, .operation "<" [some 3, some 1]⟩,
  ⟨2, .name "x"⟩,
  ⟨3, .conditional .whileLoop none (some 5) none none (some 4) none⟩,
  ⟨3, .thisRef⟩]⟩ }

theorem cycles_reported_circling :
    (∃ look ∈ functionLooks circling 0 "f" 1 [] [some 1, some 4], Returns circling [0] look) ∧
    LeadsBack circling 0 (1, .visit) ∧ LeadsBack circling 0 (4, .visit) ∧
    ∃ l, (analyzeFunction circling (some 0)).result =
      .error (.malformed "f@1" l "cyclic syntax tree") := by
  have hfn : circling.graph.node? 0 = some ⟨1, .function "f" [] [some 1, some 4] []⟩ := rfl
  have hpart : Returns circling [2, 1, 0] ⟨some 1, .part []⟩ := .onPath rfl (by decide) rfl
  have htest : Returns circling [1, 0] ⟨some 2, .test []⟩ :=
    .deeper rfl (by decide) (List.mem_cons_of_mem _ List.mem_cons_self) hpart
  have hloop : Returns circling [0] ⟨some 1, .visit (opening "f" 1)⟩ := by
    refine .deeper rfl (by decide) ?_ htest
    exact List.mem_append_left _
      (List.mem_append_left _ (List.mem_append_right _ (List.mem_singleton_self _)))
  -- The same cycle in the graph: from the loop to its condition and back as a part of that.
  have hcondition : Follows circling (1, .visit) (2, .test) := by
    refine .field (n := ⟨2, .conditional .whileLoop none (some 2) none none none none⟩) rfl
      (fun mode hmode => ?_) (fun path mode hmode => ?_)
    · obtain ⟨s, rfl, -⟩ := Way.admits_visit hmode
      exact ⟨List.mem_append_left _ List.mem_cons_self, List.not_mem_nil⟩
    · obtain ⟨s, rfl, -⟩ := Way.admits_visit hmode
      simp [overlooked, overlookedVisit]
  have hback : Follows circling (2, .test) (1, .part) := by
    refine .field (n := ⟨2, .operation "<" [some 3, some 1]⟩) rfl (fun mode hmode => ?_)
      (fun path mode hmode => ?_)
    · obtain ⟨consts, rfl⟩ := Way.admits_test hmode
      exact ⟨List.mem_append_left _ (List.mem_cons_of_mem _ List.mem_cons_self), List.not_mem_nil⟩
    · obtain ⟨consts, rfl⟩ := Way.admits_test hmode
      exact List.not_mem_nil
  have hbody : Follows circling (4, .visit) (4, .visit) := by
    have hnode : circling.graph.node? 4 =
        some ⟨3, .conditional .whileLoop none (some 5) none none (some 4) none⟩ := rfl
    refine .body hnode (by decide) fun _ consts path hloop => ?_
    have hthis : classify circling.graph consts path (some 5) =
        if 5 ∈ path then ⟨.never, some 3⟩ else ⟨.maybe, none⟩ := by
      rw [classify]
      rfl
    rw [hthis] at hloop ⊢
    split at hloop
    · cases hloop
    · rename_i hfresh
      rw [if_neg hfresh]
      decide
  have hleads : LeadsBack circling 0 (1, .visit) := .inr ⟨.part, .tail (.single hcondition) hback⟩
  obtain ⟨_, _, _, _, hroutes⟩ := cycles_reported hfn
  exact ⟨⟨_, List.mem_cons_self, hloop⟩, hleads, .inr ⟨.visit, .single hbody⟩,
    hroutes 1 (1, .visit) (by decide) .refl hleads⟩

/-- A switch over a block that holds itself. -/
def switching : Setting := { graph := ⟨#[
  ⟨1, .function "f" [] [some 1] []⟩,
  ⟨1, .switch (some 2) []⟩,
  ⟨1, .other "block" [some 2]⟩]⟩ }

/-- The cycle goes unnoticed, though there is no other function and no branch on the way to
it. -/
theorem discriminant_cycle_unreported :
    switching.graph.Within 0 2 ∧ switching.graph.Below 2 2 ∧
    switching.graph.nodes.toList.map (·.form.tag) = ["function", "switch", "other"] ∧
    (analyzeFunction switching (some 0)).fault? = none := by
  have hswitch : switching.graph.Child 0 1 := ⟨_, rfl, by decide⟩
  have hblock : switching.graph.Child 1 2 := ⟨_, rfl, by decide⟩
  have hloop : switching.graph.Child 2 2 := ⟨_, rfl, by decide⟩
  exact ⟨.tail (.single hswitch) hblock, .single hloop, rfl, by decide +kernel⟩

/-- The block that holds itself is a discriminant, a clause's test, an argument of a source
and of a sink, the start of an `if`, what a loop enumerates, a property in a chain that is
assigned to and the first part of a sequence; and the function is a part of a condition. -/
def hidden : Setting := { graph := ⟨#[
  ⟨1, .function "f" [] [some 2, some 4, some 6, some 8, some 10, some 11, some 14] []⟩,
  ⟨1, .other "block" [some 1]⟩,
  ⟨1, .switch (some 1) [3]⟩, ⟨1, .clause (some 1) []⟩,
  ⟨2, .call (some 5) [some 1] false⟩, ⟨2, .name "retSource"⟩,
  ⟨3, .call (some 7) [some 1] false⟩, ⟨3, .name "sink"⟩,
  ⟨4, .conditional .branch (some 1) (some 9) none none none none⟩,
  ⟨4, .other "sequence" [some 1, some 16]⟩,
  ⟨5, .conditional .forIn none (some 1) none none none none⟩,
  ⟨6, .assignment "=" (some 12) (some 16)⟩, ⟨6, .member (some 13) none "p" false⟩,
  ⟨6, .member (some 16) (some 1) "" true⟩,
  ⟨7, .conditional .whileLoop none (some 15) none none none none⟩,
  ⟨7, .operation "<" [some 0, some 16]⟩, ⟨7, .name "x"⟩]⟩ }

example : (analyzeFunction hidden (some 0)).fault? = none := by decide +kernel

end TaintReach.Walk
