import TaintReach.Proofs.Walk.Cycle
import TaintReach.Proofs.Walk.Stamping

/-! What a walk can do to its state, one step at a time.

`Step` lists the changes a walk is made of, with what is known when they happen:
a fault is raised only for a cycle, and a constant recorded only for a binding
that declares it. Every rule is a sequence of such steps, so every walk is
(`walk_steps`), over any graph and from any state, and an invariant of all walks
follows from ten small cases. Drawn from it here are that steps keep the scope
well formed and only add to it (`Steps.extends`), that they raise no fault where
there is no cycle (`Steps.fault`), and that they come to know no constant that is
not declared (`Steps.truth?_eq_none`). -/
namespace TaintReach

/-- The declaration `d` binds the constant `x` to a literal of this truth. -/
def Graph.BindsConst (g : Graph) (d : NodeId) (x : String) (truthy : Bool) : Prop :=
  ∃ line bindings, g.node? d = some ⟨line, .declaration .const bindings⟩ ∧
    ∃ b ∈ bindings, ∃ bLine target init, g.node? b = some ⟨bLine, .binding target init⟩ ∧
      (∃ xLine, g.name? target = some (x, xLine)) ∧
      ∃ lLine kind raw, g.at? init = some ⟨lLine, .literal kind raw truthy⟩

namespace Walk

/-- One change to the state of a walk over what stands below `root`. -/
inductive Step (E : Setting) (root : NodeId) : State → State → Prop
  | register (s : State) (ident : String) (line : Int) :
    Step E root s (s.lookup E.declared ident line)
  | forget (s : State) (ident : String) :
    Step E root s { s with consts := s.consts.forget ident }
  | record (s : State) {d : NodeId} {ident : String} {truthy : Bool} (hd : E.graph.Within root d)
    (hconst : E.graph.BindsConst d ident truthy) :
    Step E root s { s with consts := s.consts.record ident truthy }
  | depend (s : State) (x y : String) : Step E root s (s.depend x y)
  | mark (s : State) (line : Int) : Step E root s (s.markSource line)
  | sink (s : State) (x : String) (line : Int) : Step E root s (s.sink x line)
  | fail (s : State) (line : Int) (hcyclic : E.graph.Cyclic root) :
    Step E root s (s.failCyclic line)
  | tell (s : State) (kind : CondKind) (line : Int) (reach : Reachable) :
    Step E root s (s.tell (.guardClassified kind line reach))
  | enter (s : State) (r : Reachable) : Step E root s (s.enter r)
  | define (s : State) (x : Option String) : Step E root s { s with defining := x }

/-- Changes one after the other. -/
def Steps (E : Setting) (root : NodeId) : State → State → Prop :=
  Relation.ReflTransGen (Step E root)

namespace Steps

variable {E : Setting} {root : NodeId} {s t u : State}

theorem refl (s : State) : Steps E root s s := Relation.ReflTransGen.refl

theorem trans (h : Steps E root s t) (k : Steps E root t u) : Steps E root s u :=
  Relation.ReflTransGen.trans h k

theorem step (h : Steps E root s t) (k : Step E root t u) : Steps E root s u :=
  Relation.ReflTransGen.tail h k

theorem single (h : Step E root s t) : Steps E root s t := Relation.ReflTransGen.single h

/-- Binding a name forgets it as a constant and then asks for it. -/
theorem bind (h : Steps E root s t) (ident : String) (line : Int) :
    Steps E root s (t.bind E.declared ident line) :=
  (h.step (.forget t ident)).step (.register _ ident line)

theorem dependDefining (h : Steps E root s t) (y : String) :
    Steps E root s (t.dependDefining y) := by
  unfold State.dependDefining
  split
  · exact h
  · exact h.step (.depend t _ y)

/-- What is being defined is set before and put back after, which are two steps more. -/
theorem route (h : Steps E root s t) (x : Option String) {f : State → State}
    (hf : ∀ s, Steps E root s (f s)) : Steps E root s (t.route x f) :=
  ((h.step (.define t x)).trans (hf _)).step (.define _ t.defining)

theorem branch (h : Steps E root s t) (inner outer : Reachable) {f : State → State}
    (hf : ∀ s, Steps E root s (f s)) : Steps E root s (Walk.branch inner outer f t) := by
  unfold Walk.branch
  have hin := h.step (.enter t inner)
  simp only
  split
  · exact hin.step (.enter _ outer)
  · exact (hin.trans (hf _)).step (.enter _ outer)

theorem foldl {α : Type} (h : Steps E root s t) (xs : List α) {f : State → α → State}
    (hf : ∀ s, ∀ x ∈ xs, Steps E root s (f s x)) : Steps E root s (xs.foldl f t) := by
  induction xs generalizing t with
  | nil => exact h
  | cons x xs ih =>
    exact ih (h.trans (hf t x List.mem_cons_self)) fun s y hy => hf s y (List.mem_cons_of_mem x hy)

end Steps

/-! ### The rules are made of steps -/

section
variable {E : Setting} {root p : NodeId} {visit : Visit}
  (hv : ∀ c, E.graph.Holds p c → ∀ s, Steps E root s (visit c s))
include hv

theorem visitAll_steps {children : List (Option NodeId)}
    (hc : ∀ c ∈ children, E.graph.Holds p c) (s : State) :
    Steps E root s (visitAll visit children s) :=
  (Steps.refl s).foldl children fun s c h => hv c (hc c h) s

/-- No target takes more than names that are asked for, dependencies and visits. -/
theorem assign_steps {target value : Option NodeId} (ht : E.graph.Holds p target)
    (hval : E.graph.Holds p value) (s : State) :
    Steps E root s (assign E visit target value s).2 := by
  have hvalue := hv value hval
  have hboth : Steps E root s (visit value (visit target s)) :=
    (hv target ht s).trans (hvalue _)
  unfold assign
  rcases hat : E.graph.at? target with _ | ⟨line, form⟩
  · exact hboth
  cases form with
  | name ident => exact ((Steps.refl s).bind ident line).route _ hvalue
  | pattern names defaults =>
    have hempty : Steps E root s (if names = [] then s.route none (visit value) else s) := by
      split
      · exact (Steps.refl s).route none hvalue
      · exact Steps.refl s
    refine Steps.foldl (hempty.foldl names fun s n _ => ?_) defaults fun s d hd =>
      (Steps.refl s).route none (hv d ?_)
    · rcases E.graph.name? (some n) with _ | ⟨ident, line⟩
      · exact Steps.refl s
      · exact ((Steps.refl s).bind ident line).route _ hvalue
    · exact ht.at? hat fun id hn => Graph.holds_child hn (List.mem_append_right _ hd)
  | member object property propName computed =>
    rcases E.graph.root? target with _ | ⟨ident, rootLine⟩
    · exact hboth
    have hproperty : E.graph.Holds p property :=
      ht.at? hat fun id hn => Graph.holds_present hn (fun _ h => h) (by simp)
    have hroot : Steps E root s
        (if computed then (s.lookup E.declared ident rootLine).route none (visit property)
          else s.lookup E.declared ident rootLine) := by
      have hlook : Steps E root s (s.lookup E.declared ident rootLine) :=
        .single (.register s ident rootLine)
      split
      · exact hlook.route none (hv property hproperty)
      · exact hlook
    simp only
    rcases E.graph.name? value with _ | ⟨on, onLine⟩
    · exact hroot.route _ hvalue
    · exact (hroot.step (.register _ on onLine)).step (.depend _ ident on)
  | _ => exact hboth

omit hv in
/-- Recording a constant touches nothing but the constants. -/
theorem recordConst_eq (g : Graph) (b : NodeId) (s : State) :
    ∃ consts, recordConst g b s = { s with consts } := by
  unfold recordConst
  split
  · split
    · exact ⟨_, rfl⟩
    · exact ⟨s.consts, rfl⟩
  · exact ⟨s.consts, rfl⟩

omit hv in
/-- A constant is recorded only for a binding of the declaration, which is what the step asks. -/
theorem recordConst_steps {line : Int} {bindings : List NodeId} {b : NodeId}
    (hp : E.graph.Within root p) (hn : E.graph.node? p = some ⟨line, .declaration .const bindings⟩)
    (hb : b ∈ bindings) (s : State) : Steps E root s (recordConst E.graph b s) := by
  unfold recordConst
  split
  · rename_i hbinding
    split
    · rename_i hname hlit
      exact .single (.record s hp
        ⟨line, bindings, hn, b, hb, _, _, _, hbinding, ⟨_, hname⟩, _, _, _, hlit⟩)
    · exact Steps.refl s
  · exact Steps.refl s

theorem declaration_steps {line : Int} {kind : DeclKind} {bindings : List NodeId}
    (hp : E.graph.Within root p) (hn : E.graph.node? p = some ⟨line, .declaration kind bindings⟩)
    (s : State) : Steps E root s (declaration E visit kind bindings s) := by
  refine (Steps.refl s).foldl bindings fun s b hb => ?_
  have hvisit := hv (some b) (Graph.holds_child hn (List.mem_map_of_mem hb)) s
  simp only
  split
  · rename_i hkind
    subst hkind
    exact hvisit.trans (recordConst_steps hp hn hb _)
  · exact hvisit

omit hv in
theorem methodCall_steps (callee : Option NodeId) (args : List (Option NodeId)) (s : State) :
    Steps E root s (methodCall E callee args s) := by
  unfold methodCall
  split
  · rename_i ident line _ _
    refine (Steps.single (.register s ident line)).foldl args fun s a _ => ?_
    split
    · exact (Steps.single (.register s _ _)).step (.depend _ ident _)
    · exact Steps.refl s
  · exact Steps.refl s

theorem call_steps {callee : Option NodeId} {args : List (Option NodeId)}
    (hcallee : E.graph.Holds p callee) (hargs : ∀ a ∈ args, E.graph.Holds p a) (line : Int)
    (isNew : Bool) (s : State) : Steps E root s (call E visit line callee args isNew s) := by
  unfold call
  split
  · split
    · split
      · exact .single (.mark s line)
      · exact Steps.refl s
    split
    · split
      · split
        · exact (Steps.single (.register s _ _)).step (.sink _ _ line)
        · exact Steps.refl s
      · exact Steps.refl s
    · exact visitAll_steps hv hargs s
  · exact ((methodCall_steps callee args s).trans (hv callee hcallee _)).trans
      (visitAll_steps hv hargs _)

/-- The class of a condition tells of a cycle only if there is one, so the fault that it raises
is a step. -/
theorem conditional_steps {path : List NodeId} {line : Int} {kind : CondKind}
    {init test update each body otherwise : Option NodeId} (hp : E.graph.Within root p)
    (hpath : E.graph.Leads path p)
    (hn : E.graph.node? p = some ⟨line, .conditional kind init test update each body otherwise⟩)
    (s : State) : Steps E root s
      (conditional E (p :: path) visit line kind init test update each body otherwise s) := by
  have hfield : ∀ c ∈ [init, test, each, body, update, otherwise], E.graph.Holds p c :=
    fun c hc => Graph.holds_present hn (fun _ h => h) hc
  simp only [List.forall_mem_cons, List.not_mem_nil, false_imp_iff, implies_true, and_true]
    at hfield
  obtain ⟨hinit, htest, heach, hbody, hupdate, hotherwise⟩ := hfield
  unfold conditional
  have hinit : Steps E root s (if kind = .forLoop then visit init s else s) := by
    split
    · exact hv init hinit s
    · exact Steps.refl s
  simp only
  generalize (if kind = .forLoop then visit init s else s) = t at hinit
  have hguard : (if kind = .forIn ∨ kind = .forOf then (⟨.maybe, none⟩ : Classified)
      else classify E.graph t.consts (p :: path) test).loopLine.isSome → E.graph.Cyclic root := by
    split
    · intro h
      cases h
    · intro h
      obtain ⟨d, hd, hcyclic⟩ := classify_cyclic (fun d hd => hpath.below (htest d hd)) h
      obtain ⟨e, he, hloop⟩ := hcyclic.above (htest d hd)
      exact ⟨e, hp.trans he, hloop⟩
  generalize (if kind = .forIn ∨ kind = .forOf then (⟨.maybe, none⟩ : Classified)
    else classify E.graph t.consts (p :: path) test) = guard at hguard
  have hfail : Steps E root s
      (guard.loopLine.elim t fun line => t.failCyclic line) := by
    cases hloop : guard.loopLine with
    | none => exact hinit
    | some line => exact hinit.step (.fail t line (hguard (by rw [hloop]; rfl)))
  have hthen := (hfail.step (.tell _ kind line guard.reach)).branch
    (t.ambient.meet guard.reach) t.ambient (f := fun s => visit update (visit body (visit each s)))
    fun s => ((hv each heach s).trans (hv body hbody _)).trans (hv update hupdate _)
  split
  · exact hthen
  · exact hthen.branch _ _ (hv otherwise hotherwise)

theorem switch_steps {clauses : List NodeId} (hc : ∀ c ∈ clauses, E.graph.Holds p (some c))
    (s : State) : Steps E root s (switch E visit clauses s) := by
  unfold switch
  refine ((Steps.single (.enter s _)).foldl clauses fun s c hmem => ?_).step (.enter _ s.ambient)
  split
  · rename_i hclause
    refine visitAll_steps hv (fun a ha => (hc c hmem).at? hclause fun id hn => ?_) s
    exact Graph.holds_child hn (List.mem_append_right _ ha)
  · exact Steps.refl s

/-- One case for each rule of the walk, given that the visits below are steps. -/
theorem visitNode_steps {path : List NodeId} {n : Node} (hp : E.graph.Within root p)
    (hpath : E.graph.Leads path p) (hn : E.graph.node? p = some n) (s : State) :
    Steps E root s (visitNode E (p :: path) visit n s) := by
  obtain ⟨line, form⟩ := n
  have hchild : ∀ c ∈ form.children, E.graph.Holds p c := fun c hc => Graph.holds_child hn hc
  unfold visitNode
  cases form with
  | function _ _ _ _ => exact Steps.refl s
  | declaration kind bindings => exact declaration_steps hv hp hn s
  | binding target init =>
    obtain ⟨htarget, hinit⟩ := Graph.holds_sides hn rfl
    exact assign_steps hv htarget hinit s
  | assignment _ target value =>
    obtain ⟨htarget, hvalue⟩ := Graph.holds_sides hn rfl
    have hassign := assign_steps hv htarget hvalue s
    simp only
    split
    · rename_i v t heq
      rw [heq] at hassign
      exact hassign.dependDefining v
    · rename_i t heq
      rw [heq] at hassign
      exact hassign
  | name ident =>
    simp only
    split
    · exact Steps.refl s
    · exact (Steps.single (.register s ident line)).dependDefining ident
  | call callee args isNew =>
    exact call_steps hv (hchild callee List.mem_cons_self)
      (fun a ha => hchild a (List.mem_cons_of_mem _ ha)) line isNew s
  | conditional kind init test update each body otherwise => exact conditional_steps hv hp hpath hn s
  | switch _ clauses =>
    exact switch_steps hv
      (fun c hc => hchild _ (List.mem_append_right _ (List.mem_map_of_mem hc))) s
  | _ => exact visitAll_steps hv hchild s

end

/-- **A walk is made of steps.** Below the node the walk starts from, that is. -/
theorem walk_steps {E : Setting} {root : NodeId} {path : List NodeId} {c : Option NodeId}
    (hc : ∀ id, c = some id → E.graph.Within root id ∧ E.graph.Leads path id) (s : State) :
    Steps E root s (walk E path c s) := by
  induction hroom : E.graph.room path using Nat.strongRecOn generalizing path c s with
  | _ n ih =>
    cases c with
    | none =>
      rw [walk_none]
      exact Steps.refl s
    | some id =>
      obtain ⟨hwithin, hpath⟩ := hc id rfl
      rcases hs : s.fault with _ | f
      · rcases hn : E.graph.node? id with _ | node
        · rw [walk_missing hn]
          exact Steps.refl s
        by_cases hp : id ∈ path
        · rw [walk_cyclic hs hn hp]
          exact .single (.fail s node.line ⟨id, hwithin, hpath id hp⟩)
        · rw [walk_some hs hn hp]
          have hless := E.graph.room_cons_lt hn hp
          refine visitNode_steps (fun c hheld s => ?_) hwithin hpath hn s
          exact ih _ (hroom ▸ hless)
            (fun d hd => ⟨hwithin.below (hheld d hd), hpath.below (hheld d hd)⟩) s rfl
      · rw [walk_of_fault _ (by rw [hs]; rfl)]
        exact Steps.refl s

/-! ### What every step keeps -/

/-- A scope is well formed and has grown out of another. -/
structure Extends (s t : Scope) : Prop where
  wellFormed : t.WellFormed
  grows : s.Grows t

namespace Extends

variable {s t u : Scope}

theorem refl (h : s.WellFormed) : Extends s s := ⟨h, .refl s⟩

theorem trans (h : Extends s t) (k : Extends t u) : Extends s u :=
  ⟨k.wellFormed, h.grows.trans k.grows⟩

end Extends

/-- A name is registered only if it is not there yet, so names stay apart. -/
theorem lookup_extends {s : State} (h : s.scope.WellFormed) (declared : Option (String → Bool))
    (ident : String) (line : Int) : Extends s.scope (s.lookup declared ident line).scope := by
  unfold State.lookup
  cases hx : s.scope.lookup? ident with
  | some _ => exact .refl h
  | none => exact ⟨h.add hx rfl, Scope.grows_add s.scope _⟩

theorem markSource_extends {s : State} (h : s.scope.WellFormed) (line : Int) :
    Extends s.scope (s.markSource line).scope := by
  unfold State.markSource
  cases s.defining.bind s.scope.lookup? with
  | none => exact .refl h
  | some v =>
    exact ⟨h.update v.name (fun _ => rfl) fun _ => rfl,
      Scope.grows_update v.name fun u _ _ =>
        ⟨rfl, rfl, fun _ => rfl, Int.le_refl _, List.prefix_refl _⟩⟩

/-- A sink promotes registered variables one after the other, and registers none. -/
theorem sink_induction {P : State → Prop} {s : State} (x : String) (line : Int) (hs : P s)
    (hstep : ∀ (t : State) (y : String) (v : Variable) (r : Reachable) (e : Variable → Event),
      t.scope.lookup? y = some v → (∀ w id, e w ≠ .registered id) → P t → P (t.promote r v e)) :
    P (s.sink x line) := by
  unfold State.sink
  cases hx : s.scope.lookup? x with
  | none => exact hs
  | some v =>
    have hself : P (s.promote v.reachable v fun v => .sinkMet line v.id v.taint) :=
      hstep s x v _ _ hx nofun hs
    simp only
    revert hself
    generalize s.promote v.reachable v _ = t
    generalize v.dependents = ds
    intro ht
    induction ds generalizing t with
    | nil => exact ht
    | cons d ds ih =>
      rw [List.foldl_cons]
      refine ih _ ?_
      cases hd : t.scope.lookup? d.name with
      | none => exact ht
      | some dv =>
        simp only
        split
        · exact hstep t d.name dv _ _ hd nofun ht
        · exact ht

/-- The raised variable is put in the place of the one with its name, which is itself. -/
theorem promote_extends {s : State} (h : s.scope.WellFormed) {x : String} {v : Variable}
    (hv : s.scope.lookup? x = some v) (r : Reachable) (e : Variable → Event) :
    Extends s.scope (s.promote r v e).scope := by
  have hone : ∀ u ∈ s.scope.vars, u.name = v.name → u = v := fun u hu hname =>
    h.eq_of_name hu (Scope.mem_of_lookup? hv) hname
  -- the variable put in place is the one found under its name, raised
  have hraise : s.scope.update v.name (fun _ => v.raise r.taint) =
      s.scope.update v.name (Variable.raise r.taint) :=
    Scope.update_congr v.name fun u hu hname => by rw [hone u hu hname]
  rcases State.promote_eq s r v e with ⟨hsame, _⟩ | ⟨ev, hrise⟩
  · rw [hsame]
    exact .refl h
  · rw [hrise]
    simp only [State.tell, hraise]
    exact ⟨h.update v.name (fun u => u.ref_raise _) fun u => u.dependents_raise _,
      Scope.grows_update v.name fun u _ _ => u.grows_raise _⟩

theorem sink_extends {s : State} (h : s.scope.WellFormed) (x : String) (line : Int) :
    Extends s.scope (s.sink x line).scope :=
  sink_induction (P := fun t => Extends s.scope t.scope) x line (.refl h)
    fun _ _ _ r e hv _ ht => ht.trans (promote_extends ht.wellFormed hv r e)

/-- Each kind of step keeps a scope well formed and takes nothing away. -/
theorem Step.extends {E : Setting} {root : NodeId} {s t : State} (hstep : Step E root s t)
    (h : s.scope.WellFormed) : Extends s.scope t.scope := by
  cases hstep with
  | register ident line => exact lookup_extends h E.declared ident line
  | depend x y => exact ⟨h.depend x y, Scope.grows_depend s.scope x y⟩
  | mark line => exact markSource_extends h line
  | sink x line => exact sink_extends h x line
  | enter r => exact ⟨h.stamp r, Scope.grows_stamp s.scope r⟩
  | forget _ => exact .refl h
  | record _ _ => exact .refl h
  | fail _ _ => exact .refl h
  | tell _ _ _ => exact .refl h
  | define _ => exact .refl h

theorem Steps.extends {E : Setting} {root : NodeId} {s t : State} (hsteps : Steps E root s t)
    (h : s.scope.WellFormed) : Extends s.scope t.scope := by
  induction hsteps with
  | refl => exact .refl h
  | tail _ hstep ih => exact ih.trans (hstep.extends ih.wellFormed)

/-- Two states differ in their scopes and events at most. -/
structure State.SameBeside (s t : State) : Prop where
  defining : t.defining = s.defining
  ambient : t.ambient = s.ambient
  consts : t.consts = s.consts
  fault : t.fault = s.fault

namespace State.SameBeside

theorem refl (s : State) : SameBeside s s := ⟨rfl, rfl, rfl, rfl⟩

theorem trans {s t u : State} (h : SameBeside s t) (k : SameBeside t u) : SameBeside s u :=
  ⟨k.defining.trans h.defining, k.ambient.trans h.ambient, k.consts.trans h.consts,
    k.fault.trans h.fault⟩

end State.SameBeside

theorem sameBeside_lookup (s : State) (declared : Option (String → Bool)) (ident : String)
    (line : Int) : s.SameBeside (s.lookup declared ident line) := by
  unfold State.lookup
  split
  · exact .refl s
  · exact ⟨rfl, rfl, rfl, rfl⟩

theorem sameBeside_markSource (s : State) (line : Int) : s.SameBeside (s.markSource line) := by
  unfold State.markSource
  split
  · exact .refl s
  · exact ⟨rfl, rfl, rfl, rfl⟩

theorem sameBeside_promote (s : State) (r : Reachable) (v : Variable) (e : Variable → Event) :
    s.SameBeside (s.promote r v e) := by
  unfold State.promote
  split
  · exact .refl s
  · exact ⟨rfl, rfl, rfl, rfl⟩

theorem sameBeside_sink (s : State) (x : String) (line : Int) : s.SameBeside (s.sink x line) :=
  sink_induction (P := s.SameBeside) x line (.refl s)
    fun t _ v r e _ _ ht => ht.trans (sameBeside_promote t r v e)

/-- Where there is no cycle, no fault is raised. -/
theorem Steps.fault {E : Setting} {root : NodeId} {s t : State} (hsteps : Steps E root s t)
    (hacyclic : ¬ E.graph.Cyclic root) : t.fault = s.fault := by
  induction hsteps with
  | refl => rfl
  | tail _ hstep ih =>
    rw [← ih]
    cases hstep with
    | fail _ hcyclic => exact absurd hcyclic hacyclic
    | register ident line => exact (sameBeside_lookup _ E.declared ident line).fault
    | mark line => exact (sameBeside_markSource _ line).fault
    | sink x line => exact (sameBeside_sink _ x line).fault
    | _ => rfl

theorem Consts.truth?_forget {c : Consts} {x : String} (h : c.truth? x = none) (y : String) :
    (c.forget y).truth? x = none := by
  unfold truth? forget at *
  rw [List.lookup_eq_none_iff] at h ⊢
  exact fun p hp => h p (List.mem_of_mem_filter hp)

/-- Recording one constant makes no other known. -/
theorem Consts.truth?_record {c : Consts} {x y : String} (h : c.truth? x = none) (hne : x ≠ y)
    (truthy : Bool) : (c.record y truthy).truth? x = none := by
  unfold record truth?
  rw [List.lookup_cons, beq_false_of_ne hne]
  exact truth?_forget h y

/-- A name that is nowhere bound as a constant stays unknown as one. -/
theorem Steps.truth?_eq_none {E : Setting} {root : NodeId} {s t : State}
    (hsteps : Steps E root s t) {x : String}
    (hx : ∀ d, E.graph.Within root d → ∀ truthy, ¬ E.graph.BindsConst d x truthy)
    (h : s.consts.truth? x = none) : t.consts.truth? x = none := by
  induction hsteps with
  | refl => exact h
  | tail _ hstep ih =>
    cases hstep with
    | forget ident => exact Consts.truth?_forget ih ident
    | record hd hconst => exact Consts.truth?_record ih (fun heq => hx _ hd _ (heq ▸ hconst)) _
    | register ident line =>
      rw [(sameBeside_lookup _ E.declared ident line).consts]
      exact ih
    | mark line =>
      rw [(sameBeside_markSource _ line).consts]
      exact ih
    | sink x line =>
      rw [(sameBeside_sink _ x line).consts]
      exact ih
    | _ => exact ih

end Walk

end TaintReach
