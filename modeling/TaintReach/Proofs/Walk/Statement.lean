import TaintReach.Proofs.Script.Scoping
import TaintReach.Proofs.Walk.Fading

/-! What a walk over a statement leaves of the constants.

A statement stands at a node if the graph shows its tree there (`At`). Where trees
stand there is no cycle, so a walk goes through them without a fault. A walk over a
statement forgets the names that the statement binds, and what it learns is what is
declared in the statement, in its scope or in one inside (`stmt_leaves`): blocks
that end are not undone, and functions and classes leave no mark. -/
namespace TaintReach.Walk

open Script (Stmt Expr Pattern Binding Declared bindingIdents innerOfAll)

variable {E : Setting} {g : Graph}

/-! ### Statements in a graph -/

theorem fresh_of_shows {t : Tree} {id : NodeId} {path : List NodeId} (h : g.Shows t id)
    (hp : g.Leads path id) : id ∉ path :=
  fun hmem => h.founded.not_cyclic (hp.cyclic hmem)

/-- Where a tree stands no fault is raised. -/
theorem fault_walk {t : Tree} {id : NodeId} {path : List NodeId} (h : E.graph.Shows t id)
    (hp : E.graph.Leads path id) (s : State) : (walk E path (some id) s).fault = s.fault := by
  have hsteps : Steps E id s (walk E path (some id) s) :=
    walk_steps (fun _ hid => by cases hid; exact ⟨.refl, hp⟩) s
  exact hsteps.fault h.founded.not_cyclic

theorem fault_visitAll {ts : List Tree} {ids : List (Option NodeId)} {path : List NodeId}
    (h : E.graph.ShowsAll ts ids) (hleads : ∀ id, some id ∈ ids → E.graph.Leads path id)
    (s : State) : (visitAll (walk E path) ids s).fault = s.fault := by
  induction ts generalizing ids s with
  | nil =>
    obtain rfl : ids = [] := h
    rfl
  | cons t ts ih =>
    obtain ⟨id, rest, rfl, ht, hrest⟩ := h
    refine (ih hrest (fun c hc => hleads c (List.mem_cons_of_mem _ hc)) _).trans ?_
    exact fault_walk ht (hleads id List.mem_cons_self) s

/-- A statement stands at a node that a path leads to. -/
structure At (g : Graph) (stmt : Stmt) (path : List NodeId) (id : NodeId) : Prop where
  plain : stmt.Plain
  shown : ∃ t, stmt.tree? = some t ∧ g.Shows t id
  leads : g.Leads path id

/-- Statements stand at nodes, one at each. -/
def Placed (g : Graph) (path : List NodeId) : List Stmt → List (Option NodeId) → Prop :=
  List.Forall₂ fun stmt c => ∃ id, c = some id ∧ At g stmt path id

theorem exists_tree {stmt : Stmt} (h : stmt.Plain) : ∃ t, stmt.tree? = some t := by
  cases h <;> exact ⟨_, rfl⟩

theorem placed_of_shows {path : List NodeId} {list : List Stmt} {nodes : List (Option NodeId)}
    (hplain : ∀ stmt ∈ list, stmt.Plain) (hshows : g.ShowsAll (Stmt.trees list) nodes)
    (hleads : ∀ id, some id ∈ nodes → g.Leads path id) : Placed g path list nodes := by
  induction list generalizing nodes with
  | nil =>
    obtain rfl : nodes = [] := hshows
    exact .nil
  | cons stmt list ih =>
    obtain ⟨t, ht⟩ := exists_tree (hplain stmt List.mem_cons_self)
    rw [Stmt.trees, ht] at hshows
    obtain ⟨id, rest, rfl, hshown, hrest⟩ := hshows
    refine .cons ⟨id, rfl, hplain stmt List.mem_cons_self, ⟨t, ht, hshown⟩,
      hleads id List.mem_cons_self⟩ (ih ?_ hrest ?_)
    · exact fun s hs => hplain s (List.mem_cons_of_mem _ hs)
    · exact fun id hid => hleads id (List.mem_cons_of_mem _ hid)

namespace At

variable {stmt : Stmt} {path : List NodeId} {id : NodeId} {s : State}

theorem walk_eq (h : At E.graph stmt path id) (hs : s.fault = none) {n : Node}
    (hn : E.graph.node? id = some n) :
    walk E path (some id) s = visitNode E (id :: path) (walk E (id :: path)) n s := by
  obtain ⟨t, _, ht⟩ := h.shown
  exact walk_some hs hn (fresh_of_shows ht h.leads)

theorem fault (h : At E.graph stmt path id) (hs : s.fault = none) :
    (walk E path (some id) s).fault = none := by
  obtain ⟨t, _, ht⟩ := h.shown
  rw [fault_walk ht h.leads, hs]

theorem leads_below (h : At g stmt path id) {n : Node} (hn : g.node? id = some n) {c : NodeId}
    (hc : some c ∈ n.form.children) : g.Leads (id :: path) c :=
  h.leads.below (.single ⟨n, hn, hc⟩)

/-- The statements of a block stand below it. -/
theorem block {pos : Script.Pos} {list : List Stmt} (h : At g (.block pos list) path id) :
    ∃ line kind nodes, g.node? id = some ⟨line, .other kind nodes⟩ ∧
      Placed g (id :: path) list nodes := by
  obtain ⟨t, ht, hshown⟩ := h.shown
  cases ht
  obtain ⟨nodes, hn, hnodes⟩ := hshown
  refine ⟨_, _, nodes, hn, placed_of_shows ?_ hnodes fun c hc => h.leads_below hn hc⟩
  cases h.plain with
  | block _ hlist => exact hlist

/-- The test of an `if` and what it guards stand below it. -/
theorem ifElse {test : Expr} {yes : Stmt} {no : Option Stmt}
    (h : At g (.ifElse test yes no) path id) :
    ∃ c body otherwise, g.node? id = some ⟨test.pos.line,
        .conditional .branch none (some c) none none (some body) otherwise⟩ ∧
      g.Shows (test.tree Script.anonymous) c ∧ g.Leads (id :: path) c ∧
      At g yes (id :: path) body ∧
      (no = none ∧ otherwise = none ∨
        ∃ stmt d, no = some stmt ∧ otherwise = some d ∧ At g stmt (id :: path) d) := by
  obtain ⟨t, ht, hshown⟩ := h.shown
  cases ht
  obtain ⟨_, _, _, _, body, otherwise, hn, rfl, ⟨c, rfl, htest⟩, rfl, rfl, hbody, hotherwise⟩ :=
    hshown
  -- a statement in one of the fields stands at the node there
  have hfield : ∀ {stmt : Stmt} {field : Option NodeId}, stmt.Plain →
      g.Shows? stmt.tree? field → field ∈ [none, some c, none, body, none, otherwise] →
      ∃ d, field = some d ∧ At g stmt (id :: path) d := by
    intro stmt field hplain hshows hmem
    obtain ⟨t, ht⟩ := exists_tree hplain
    rw [ht] at hshows
    obtain ⟨d, rfl, hd⟩ := hshows
    exact ⟨d, rfl, hplain, ⟨t, ht, hd⟩, h.leads_below hn (List.mem_filter.mpr ⟨hmem, rfl⟩)⟩
  have hleads : g.Leads (id :: path) c :=
    h.leads_below hn (List.mem_filter.mpr ⟨by simp, rfl⟩)
  cases h.plain with
  | ifThen _ hyes =>
    obtain ⟨b, rfl, hb⟩ := hfield hyes hbody (by simp)
    exact ⟨c, b, otherwise, hn, htest, hleads, hb, .inl ⟨rfl, hotherwise⟩⟩
  | ifElse _ hyes hno =>
    obtain ⟨b, rfl, hb⟩ := hfield hyes hbody (by simp)
    obtain ⟨d, rfl, hd⟩ := hfield hno hotherwise (by simp)
    exact ⟨c, b, some d, hn, htest, hleads, hb, .inr ⟨_, d, rfl, rfl, hd⟩⟩

end At

/-! ### What a walk over a statement leaves -/

/-- Of the constants known behind a walk, each was known before it and is not bound in
it, or it is learned there. -/
def Leaves (binds : List String) (learned : List (String × Declared)) (s t : State) : Prop :=
  ∀ x b, t.consts.truth? x = some b →
    s.consts.truth? x = some b ∧ x ∉ binds ∨ (x, .literal b) ∈ learned

namespace Leaves

variable {binds binds' : List String} {learned learned' : List (String × Declared)}
  {s t u : State}

theorem of_fades (h : Fades s t) : Leaves [] learned s t :=
  fun _ _ hx => .inl ⟨h.truth hx, List.not_mem_nil⟩

theorem of_same (h : t.consts = s.consts) : Leaves [] learned s t :=
  fun _ _ hx => .inl ⟨h ▸ hx, List.not_mem_nil⟩

theorem mono (h : Leaves binds learned s t) (hbinds : binds' ⊆ binds)
    (hlearned : learned ⊆ learned') : Leaves binds' learned' s t := fun x b hx =>
  (h x b hx).imp (fun ⟨hs, hnot⟩ => ⟨hs, fun hmem => hnot (hbinds hmem)⟩) fun hl => hlearned hl

theorem trans (h : Leaves binds learned s t) (k : Leaves binds' learned' t u) :
    Leaves (binds ++ binds') (learned ++ learned') s u := by
  intro x b hx
  rcases k x b hx with ⟨ht, hnot'⟩ | hlearned
  · rcases h x b ht with ⟨hs, hnot⟩ | hlearned
    · exact .inl ⟨hs, fun hmem => (List.mem_append.mp hmem).elim hnot hnot'⟩
    · exact .inr (List.mem_append_left _ hlearned)
  · exact .inr (List.mem_append_right _ hlearned)

end Leaves

/-! ### Declarations -/

/-- The tree of a binding. -/
def bindingTree : Binding → Tree
  | .mk target init =>
    .binding target.pos.line (some target.tree) (init.map (Expr.tree target.label))

theorem trees_cons (b : Binding) (bs : List Binding) :
    Binding.trees (b :: bs) = bindingTree b :: Binding.trees bs := by
  obtain ⟨target, init⟩ := b
  cases init <;> rfl

theorem quiet_bindingTree (b : Binding) : (bindingTree b).Quiet := by
  obtain ⟨target, init⟩ := b
  refine ⟨target.quiet_tree, ?_⟩
  cases init with
  | none => trivial
  | some e => exact e.quiet_tree _

theorem quiet_bindings (bs : List Binding) : QuietAll (Binding.trees bs) := by
  induction bs with
  | nil => trivial
  | cons b bs ih =>
    rw [trees_cons]
    exact ⟨quiet_bindingTree b, ih⟩

theorem quiet_restTree (rest : Option Pattern) : QuietAll (Script.restTree rest) := by
  cases rest with
  | none => trivial
  | some p => exact ⟨⟨p.quiet_tree, trivial⟩, trivial⟩

theorem exists_name_of_shows {names : List (Int × String)} {ns : List NodeId} {x : String}
    (h : g.ShowsNames names ns) (hx : x ∈ names.map Prod.snd) :
    ∃ n ∈ ns, ∃ line, g.name? (some n) = some (x, line) := by
  induction h with
  | nil => cases hx
  | @cons name n _ _ hn _ ih =>
    rcases List.mem_cons.mp hx with rfl | hx
    · refine ⟨n, List.mem_cons_self, name.1, ?_⟩
      simp only [Graph.name?, Graph.at?, Option.bind_some, hn]
    · obtain ⟨m, hm, hname⟩ := ih hx
      exact ⟨m, List.mem_cons_of_mem _ hm, hname⟩

/-- A target binds the names that are declared with it. -/
theorem targetNames_of_shows {p : Pattern} {id : NodeId} (h : g.Shows p.tree id)
    (hp : ∀ e, p ≠ .member e) {x : String} (hx : x ∈ p.idents) :
    ∃ line, (x, line) ∈ g.targetNames (some id) := by
  have hpattern : ∀ {line ns ds} {names : List (Int × String)},
      g.node? id = some ⟨line, .pattern ns ds⟩ → g.ShowsNames names ns → x ∈ names.map Prod.snd →
      ∃ line, (x, line) ∈ g.targetNames (some id) := by
    intro line ns ds names hn hnames hx
    obtain ⟨n, hmem, xLine, hname⟩ := exists_name_of_shows hnames hx
    refine ⟨xLine, ?_⟩
    simp only [Graph.targetNames, Graph.at?, Option.bind_some, hn]
    exact List.mem_filterMap.mpr ⟨n, hmem, hname⟩
  cases p with
  | member e => exact absurd rfl (hp e)
  | name pos ident =>
    have hn : g.node? id = some ⟨pos.line, .name ident⟩ := h
    obtain rfl := List.mem_singleton.mp hx
    refine ⟨pos.line, ?_⟩
    simp only [Graph.targetNames, Graph.at?, Option.bind_some, hn]
    exact List.mem_singleton_self _
  | withDefault _ _ | array _ _ _ | object _ _ _ =>
    obtain ⟨_, _, hn, hnames, _⟩ := h
    exact hpattern hn hnames hx

/-- A binding forgets its names, and learns none. -/
theorem binding_leaves {b : Binding} {path : List NodeId} {id : NodeId} {s : State}
    (h : E.graph.Shows (bindingTree b) id) (hp : E.graph.Leads path id) (hb : b.Named)
    (hs : s.fault = none) : Leaves b.idents [] s (walk E path (some id) s) := by
  have hfades : Fades s (walk E path (some id) s) := walk_fades (h.silent (quiet_bindingTree b)) s
  have hfresh := fresh_of_shows h hp
  intro x truthy hx
  refine .inl ⟨hfades.truth hx, fun hmem => ?_⟩
  obtain ⟨target, init⟩ := b
  obtain ⟨htargetQuiet, hinitQuiet⟩ := quiet_bindingTree (.mk target init)
  obtain ⟨_, i, hn, ⟨t, rfl, htarget⟩, hinit⟩ := h
  obtain ⟨line, hline⟩ := targetNames_of_shows htarget (by rintro e rfl; exact hb) hmem
  have hnone : (assign E (walk E (id :: path)) (some t) i s).2.consts.truth? x = none :=
    assign_forgets (fun _ hc s => walk_fades hc s) (htarget.silent htargetQuiet)
      (hinit.silent hinitQuiet) hline s
  rw [walk_some hs hn hfresh] at hx
  exact absurd (hx.symm.trans hnone) (by simp)

/-- Only a literal stands where a node is one. -/
theorem literal_of_shows {t : Tree} {id : NodeId} {line : Int} {kind : LiteralKind} {raw : String}
    {truthy : Bool} (h : g.Shows t id) (hn : g.node? id = some ⟨line, .literal kind raw truthy⟩) :
    t = .literal line kind raw truthy := by
  cases t with
  | literal =>
    obtain ⟨rfl, heq⟩ := Node.mk.inj (Option.some.inj (hn.symm.trans h))
    cases heq
    rfl
  | name | thisRef => cases hn.symm.trans h
  | declaration | composite | operation | other =>
    obtain ⟨_, hnode, _⟩ := h
    cases hn.symm.trans hnode
  | function | binding | assignment | pattern | call | member | switch | clause =>
    obtain ⟨_, _, hnode, _⟩ := h
    cases hn.symm.trans hnode
  | tryCatch =>
    obtain ⟨_, _, _, hnode, _⟩ := h
    cases hn.symm.trans hnode
  | conditional =>
    obtain ⟨_, _, _, _, _, _, hnode, _⟩ := h
    cases hn.symm.trans hnode

/-- What is recorded for a binding of a constant is what it declares. -/
theorem recordConst_leaves {b : Binding} {id : NodeId} (h : E.graph.Shows (bindingTree b) id)
    (hb : b.Named) (s : State) :
    Leaves [] (b.declarations .const) s (recordConst E.graph id s) := by
  obtain ⟨target, init⟩ := b
  obtain ⟨_, i, hn, ⟨t, rfl, htarget⟩, hinit⟩ := h
  unfold recordConst
  simp only [hn]
  split
  · rename_i ident line lLine kind raw truthy hname hliteral
    -- the target is a name and the value a literal
    obtain ⟨pos, rfl⟩ : ∃ pos, target = .name pos ident := by
      have hnode : E.graph.node? t = some ⟨line, .name ident⟩ := Graph.at?_of_name? hname
      cases target with
      | name pos y =>
        cases hnode.symm.trans htarget
        exact ⟨pos, rfl⟩
      | member e => exact hb.elim
      | withDefault _ _ | array _ _ _ | object _ _ _ =>
        obtain ⟨_, _, hpattern, _⟩ := htarget
        cases hnode.symm.trans hpattern
    obtain ⟨e, rfl, htruth⟩ : ∃ e, init = some e ∧ e.truth? = some truthy := by
      cases init with
      | none =>
        obtain rfl : i = none := hinit
        cases hliteral
      | some e =>
        obtain ⟨d, rfl, hd⟩ := hinit
        exact ⟨e, rfl, e.truth?_of_tree (literal_of_shows hd hliteral)⟩
    intro x c hx
    rcases Consts.truth?_of_record hx with ⟨rfl, rfl⟩ | ⟨_, hx⟩
    · refine .inr ?_
      simp [Binding.declarations, htruth]
    · exact .inl ⟨hx, List.not_mem_nil⟩
  · exact .of_same rfl

theorem recordConst_keeps (g : Graph) (id : NodeId) (s : State) :
    (recordConst g id s).fault = s.fault ∧ (recordConst g id s).events = s.events := by
  obtain ⟨_, hrecord⟩ := recordConst_eq g id s
  rw [hrecord]
  exact ⟨rfl, rfl⟩

/-- A declaration forgets its names, and learns of its constants what they declare. -/
theorem declaration_leaves {kind : DeclKind} {path : List NodeId} {bindings : List Binding}
    {ids : List NodeId} {s : State} (hnamed : ∀ b ∈ bindings, b.Named)
    (hshown : E.graph.ShowsAll (Binding.trees bindings) (ids.map some))
    (hleads : ∀ id ∈ ids, E.graph.Leads path id) (hs : s.fault = none) :
    Leaves (bindingIdents bindings)
      (if kind = .const then bindings.flatMap (Binding.declarations .const) else []) s
      (declaration E (walk E path) kind ids s) := by
  induction bindings generalizing ids s with
  | nil =>
    obtain rfl : ids = [] := List.map_eq_nil_iff.mp hshown
    exact .of_same rfl
  | cons b bindings ih =>
    rw [trees_cons] at hshown
    obtain ⟨id, rest, hids, hb, hrest⟩ := hshown
    obtain ⟨ids, rfl, rfl⟩ : ∃ ids', ids = id :: ids' ∧ rest = ids'.map some := by
      cases ids with
      | nil => cases hids
      | cons a as =>
        cases hids
        exact ⟨as, rfl, rfl⟩
    obtain ⟨hnamedb, hnamed⟩ := List.forall_mem_cons.mp hnamed
    obtain ⟨hleadsid, hleads⟩ := List.forall_mem_cons.mp hleads
    have hvisit := binding_leaves hb hleadsid hnamedb hs
    have hfault := (fault_walk hb hleadsid s).trans hs
    have hfold : ∀ {t : State} {learned : List (String × Declared)},
        Leaves b.idents learned s t → t.fault = none →
        Leaves (bindingIdents (b :: bindings)) (learned ++ (if kind = .const then
          bindings.flatMap (Binding.declarations .const) else [])) s
          (declaration E (walk E path) kind ids t) := fun h ht => h.trans (ih hnamed hrest hleads ht)
    by_cases hkind : kind = .const
    · subst hkind
      have hrecord := hvisit.trans (recordConst_leaves hb hnamedb (walk E path (some id) s))
      rw [List.append_nil] at hrecord
      have hrecorded := (recordConst_keeps E.graph id (walk E path (some id) s)).1.trans hfault
      exact hfold hrecord hrecorded
    · have hskip : declaration E (walk E path) kind (id :: ids) s =
          declaration E (walk E path) kind ids (walk E path (some id) s) := by
        simp only [declaration, List.foldl_cons, if_neg hkind]
      rw [hskip]
      simpa only [if_neg hkind, List.nil_append] using hfold hvisit hfault

/-! ### Branches -/

/-- The state behind the guarded statement of an `if` whose test is classified `r`. -/
def afterThen (E : Setting) (path : List NodeId) (line : Int) (r : Reachable)
    (body : Option NodeId) (s : State) : State :=
  branch (s.ambient.meet r) s.ambient (walk E path body) (s.tell (.guardClassified .branch line r))

/-- An `if` classifies its test and goes through what it guards. -/
theorem At.walk_if {path : List NodeId} {id : NodeId} {test : Expr} {yes : Stmt} {no : Option Stmt}
    {s : State} (h : At E.graph (.ifElse test yes no) path id) (hs : s.fault = none) {c : NodeId}
    {line : Int} {body otherwise : Option NodeId} {t : Tree}
    (hn : E.graph.node? id =
      some ⟨line, .conditional .branch none (some c) none none body otherwise⟩)
    (hc : E.graph.Shows t c) (hleads : E.graph.Leads (id :: path) c) :
    ∃ r, classify E.graph s.consts (id :: path) (some c) = ⟨r, none⟩ ∧
      walk E path (some id) s =
        if otherwise.isNone then afterThen E (id :: path) line r body s
        else branch (s.ambient.meet r.negate) s.ambient (walk E (id :: path) otherwise)
          (afterThen E (id :: path) line r body s) := by
  have hloop : (classify E.graph s.consts (id :: path) (some c)).loopLine = none := by
    rw [← Option.not_isSome_iff_eq_none]
    intro hsome
    obtain ⟨d, hd, hcyclic⟩ := classify_cyclic (fun d hd => by cases hd; exact hleads) hsome
    cases hd
    exact hc.founded.not_cyclic hcyclic
  obtain ⟨r, hr⟩ : ∃ r, classify E.graph s.consts (id :: path) (some c) = ⟨r, none⟩ :=
    ⟨_, congrArg (Classified.mk _) hloop⟩
  refine ⟨r, hr, ?_⟩
  rw [h.walk_eq hs hn]
  simp only [visitNode, conditional, reduceCtorEq, if_false, or_self, hr, Option.elim_none,
    walk_none, afterThen]

section
variable {inner outer : Reachable} {step : State → State} {s : State}

theorem branch_leaves {learned : List (String × Declared)}
    (h : ∀ t : State, t.fault = s.fault → Leaves [] learned t (step t)) :
    Leaves [] learned s (branch inner outer step s) := by
  unfold branch
  simp only
  split
  · exact .of_same rfl
  · exact h (s.enter inner) rfl

theorem fault_branch (h : ∀ t : State, t.fault = s.fault → (step t).fault = s.fault) :
    (branch inner outer step s).fault = s.fault := by
  unfold branch
  simp only
  split
  · rfl
  · exact h (s.enter inner) rfl

end

/-- A walk over `stmt`, wherever it stands, forgets what the statement binds, and learns
what is declared in it. -/
def LeavesDeclared (E : Setting) (stmt : Stmt) : Prop :=
  ∀ {path : List NodeId} {id : NodeId} {s : State}, At E.graph stmt path id → s.fault = none →
    Leaves stmt.binds (stmt.lexical ++ stmt.inner) s (walk E path (some id) s)

theorem afterThen_leaves {yes : Stmt} {path : List NodeId} {body : NodeId} {line : Int}
    {r : Reachable} {s : State} (h : LeavesDeclared E yes) (hat : At E.graph yes path body)
    (hs : s.fault = none) :
    Leaves [] (yes.lexical ++ yes.inner) s (afterThen E path line r (some body) s) := by
  change Leaves [] _ (s.tell (.guardClassified .branch line r)) (branch _ _ _ _)
  exact branch_leaves fun t ht =>
    (h hat (ht.trans hs)).mono (List.nil_subset _) (List.Subset.refl _)

theorem At.fault_afterThen {yes : Stmt} {path : List NodeId} {body : NodeId} {line : Int}
    {r : Reachable} {s : State} (h : At E.graph yes path body) (hs : s.fault = none) :
    (afterThen E path line r (some body) s).fault = none := by
  refine Eq.trans (b := (s.tell (.guardClassified .branch line r)).fault) ?_ hs
  exact fault_branch fun t ht => (h.fault (ht.trans hs)).trans hs.symm

/-! ### Statements -/

theorem visitAll_leaves {list : List Stmt} {path : List NodeId} {nodes : List (Option NodeId)}
    {s : State} (h : ∀ stmt ∈ list, LeavesDeclared E stmt) (hp : Placed E.graph path list nodes)
    (hs : s.fault = none) : Leaves [] (innerOfAll list) s (visitAll (walk E path) nodes s) := by
  induction hp generalizing s with
  | nil => exact .of_same rfl
  | @cons stmt _ list nodes hat _ ih =>
    obtain ⟨id, rfl, hat⟩ := hat
    obtain ⟨hfirst, hrest⟩ := List.forall_mem_cons.mp h
    exact ((hfirst hat hs).trans (ih hrest (hat.fault hs))).mono (List.nil_subset _)
      (List.Subset.refl _)

/-- A statement that is quiet binds and learns nothing. -/
theorem quiet_leaves {stmt : Stmt} {t : Tree} (hbinds : stmt.binds = [])
    (ht : stmt.tree? = some t) (htree : t.Quiet) : LeavesDeclared E stmt := by
  intro path id s hat _
  obtain ⟨u, hu, hshown⟩ := hat.shown
  obtain rfl := Option.some.inj (ht.symm.trans hu)
  rw [hbinds]
  exact .of_fades (walk_fades (hshown.silent htree) s)

theorem stmt_leaves {stmt : Stmt} (h : stmt.Plain) : LeavesDeclared E stmt := by
  induction h with
  | expression e => exact quiet_leaves rfl rfl (e.quiet_tree _)
  | function f => exact quiet_leaves rfl rfl (Expr.quiet_tree _ (.function f))
  | classDecl c => exact quiet_leaves rfl rfl c.quiet_tree
  | declare pos kind hnamed =>
    intro path id s hat hs
    obtain ⟨t, ht, hshown⟩ := hat.shown
    cases ht
    obtain ⟨ids, hn, hids⟩ := hshown
    rw [hat.walk_eq hs hn]
    refine (declaration_leaves hnamed hids (fun c hc => ?_) hs).mono (List.Subset.refl _) ?_
    · exact hat.leads_below hn (List.mem_map_of_mem hc)
    · cases kind with
      | const => exact List.subset_append_left _ _
      | var | lexical => exact List.nil_subset _
  | block pos hlist ih =>
    intro path id s hat hs
    obtain ⟨line, kind, nodes, hn, hplaced⟩ := hat.block
    rw [hat.walk_eq hs hn]
    exact visitAll_leaves ih hplaced hs
  | ifThen test hyes ih =>
    intro path id s hat hs
    obtain ⟨c, body, otherwise, hn, hc, hleads, hbody, hno⟩ := hat.ifElse
    obtain ⟨r, _, hwalk⟩ := hat.walk_if hs hn hc hleads
    rcases hno with ⟨_, rfl⟩ | ⟨_, _, hno, _⟩
    · rw [hwalk]
      exact (afterThen_leaves ih hbody hs).mono (List.Subset.refl _)
        (List.subset_append_left _ _)
    · cases hno
  | ifElse test hyes hno ihyes ihno =>
    intro path id s hat hs
    obtain ⟨c, body, otherwise, hn, hc, hleads, hbody, hotherwise⟩ := hat.ifElse
    obtain ⟨r, _, hwalk⟩ := hat.walk_if hs hn hc hleads
    rcases hotherwise with ⟨hno, _⟩ | ⟨no, d, hno, rfl, hd⟩
    · cases hno
    · cases hno
      rw [hwalk]
      refine (afterThen_leaves ihyes hbody hs).trans (branch_leaves fun t ht => ?_)
      exact (ihno hd (ht.trans (hbody.fault_afterThen hs))).mono (List.nil_subset _)
        (List.Subset.refl _)

end TaintReach.Walk
