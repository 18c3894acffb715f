import TaintReach.Proofs.LoopFree.Steady

/-! What flows into a variable when a value is walked.

While a variable is defined, walking an expression gives it what every name read
in the expression carries, and marks it if the source is called (`expr_walk`).
An assignment then leaves carried what its target has on the path
(`assign_receives`), and so does a chain of assignments, which hands on what its
targets have (`value_walk`). -/
namespace TaintReach.LoopFree

open TaintReach.Graph (at?_of_name?)
open Walk (Setting Steps walk)
open Lexical (Site Agrees)

/-! ### Expressions -/

/-- What `x` was given when the value of an expression went into it. -/
structure Given (E : Setting) (x : String) (form : Form) (s t : Scope) : Prop where
  reads : ∀ y, ReadIn E.graph y form → ∀ z, s.Carries y z → t.Carries x z
  marked : CallsSource E form → t.Marked x

theorem Given.mono {E : Setting} {x : String} {form : Form} {s s' t t' : Scope}
    (h : Given E x form s' t) (hs : s.Grows s') (ht : t.Grows t') : Given E x form s t' :=
  ⟨fun y hy z hz => (h.reads y hy z (hz.mono hs)).mono ht, fun hcall => (h.marked hcall).mono ht⟩

/-- An expression that is neither a name nor a source call gives what its operands do. -/
theorem Given.of_operands {E : Setting} {x : String} {form : Form} {s t : Scope}
    (hname : ∀ y, form ≠ .name y)
    (hcall : ∀ callee line, form = .call callee [] false →
      E.graph.name? callee ≠ some (E.endpoints.source, line))
    (h : ∀ c ∈ operands form, ∀ n, E.graph.at? c = some n → Given E x n.form s t) :
    Given E x form s t := by
  constructor
  · intro y hy
    cases hy with
    | name => exact absurd rfl (hname y)
    | operand hc hn hread => exact (h _ hc _ hn).reads y hread
  · intro hsource
    cases hsource with
    | call hcallee => exact absurd hcallee (hcall _ _ rfl)
    | operand hc hn hcalls => exact (h _ hc _ hn).marked hcalls

theorem operands_of_isCompound {form : Form} (h : isCompound form = true) :
    operands form = form.children := by
  cases form with
  | call _ _ _ => cases h
  | _ => rfl

theorem visitNode_of_isCompound {form : Form} (h : isCompound form = true) (E : Setting)
    (path : List NodeId) (visit : Walk.Visit) (line : Int) (s : Walk.State) :
    Walk.visitNode E path visit ⟨line, form⟩ s = Walk.visitAll visit form.children s := by
  cases form with
  | member _ _ _ _ | composite _ _ | operation _ _ | other _ _ => rfl
  | _ => cases h

theorem not_isExpr_assignment {E : Setting} {operator : String} {t v : Option NodeId} :
    ¬ IsExpr E (.assignment operator t v) := by
  intro h
  cases h with
  | compound hform _ => cases hform

/-- A call of a plain name reads its arguments, and its callee if it constructs. -/
theorem call_of_name {E : Setting} {callee : Option NodeId} {f : String} {fLine : Int}
    (hcallee : E.graph.name? callee = some (f, fLine)) (hsource : f ≠ E.endpoints.source)
    (hsink : f ≠ E.endpoints.sink) (visit : Walk.Visit) (line : Int)
    (args : List (Option NodeId)) (isNew : Bool) (s : Walk.State) :
    Walk.call E visit line callee args isNew s =
      Walk.visitAll visit args (if isNew then visit callee s else s) := by
  cases isNew with
  | false => simp only [Walk.call, Bool.false_eq_true, if_false, hcallee, hsource, hsink]
  | true =>
    simp only [Walk.call, if_true, Walk.methodCall, Graph.isMember, at?_of_name? hcallee]

section
variable {E : Setting} {fn : NodeId} (hacyclic : ¬ E.graph.Cyclic fn)
include hacyclic

/-- If each part gives, visiting all parts gives what each does. -/
theorem visitAll_gives {site : Site} {s : Walk.State} {path : List NodeId}
    {cs : List (Option NodeId)} {x : String} (hs : Steady E fn site s)
    (hx : Registered s.scope x) (hc : ∀ c ∈ cs, Reached E.graph fn path c)
    (hgives : ∀ c ∈ cs, ∀ n, E.graph.at? c = some n → ∀ s, Steady E fn site s →
      Registered s.scope x → Given E x n.form s.scope (walk E path c s).scope) :
    ∀ c ∈ cs, ∀ n, E.graph.at? c = some n →
      Given E x n.form s.scope (Walk.visitAll (walk E path) cs s).scope := by
  induction cs generalizing s with
  | nil => exact fun c hc => absurd hc List.not_mem_nil
  | cons d ds ih =>
    have hd := hc d List.mem_cons_self
    have hds := fun c h => hc c (List.mem_cons_of_mem d h)
    have hone := hs.visit hacyclic hd
    have hgrow := hs.grows (Walk.walk_steps hd s)
    have hrest := (hone.visits hacyclic hds).2
    intro c hmem n hn
    rcases List.mem_cons.mp hmem with rfl | hmem
    · exact (hgives c List.mem_cons_self n hn s hs hx).mono (.refl _) hrest
    · exact (ih hone (hx.mono hgrow) hds (fun c h => hgives c (List.mem_cons_of_mem d h)) c hmem n
        hn).mono hgrow (.refl _)

theorem name_gives {site : Site} {s : Walk.State} {x y : String} (hs : Steady E fn site s)
    (hx : Registered s.scope x) (line : Int) {z : String} (hz : s.scope.Carries y z) :
    ((s.lookup E.declared y line).depend x y).scope.Carries x z := by
  have hone := hs.register hacyclic y line
  have hgrow := hs.grows (.single (.register s y line))
  obtain ⟨v, hv⟩ := hx.mono hgrow
  obtain ⟨o, ho⟩ := registered_lookup s E.declared y line
  exact Scope.Carries.depend hone.wellFormed hv ho (hz.mono hgrow)

omit hacyclic in
theorem marked_markSource {s : Walk.State} {x : String} (hdefining : s.defining = some x)
    (hx : Registered s.scope x) (line : Int) : (s.markSource line).scope.Marked x := by
  obtain ⟨v, hv⟩ := hx
  have hname : ∀ v : Variable, ({ v with source := true } : Variable).name = v.name :=
    fun _ => rfl
  unfold Walk.State.markSource
  simp only [hdefining, Option.bind_some, hv]
  refine ⟨{ v with source := true }, ?_, rfl⟩
  simp only [Walk.State.tell, Scope.name_of_lookup? hv, Scope.lookup?_update x x hname, if_true, hv,
    Option.map_some]

/-- Walking an expression gives what it reads to the variable being defined. -/
theorem expr_walk {form : Form} (he : IsExpr E form) {path : List NodeId} {c : Option NodeId}
    {line : Int} (hn : E.graph.at? c = some ⟨line, form⟩) (hc : Reached E.graph fn path c)
    {site : Site} {s : Walk.State} {x : String} (hs : Steady E fn site s)
    (hdefining : site.defining = some x) (hx : Registered s.scope x) :
    Given E x form s.scope (walk E path c s).scope := by
  induction he generalizing path c line s with
  | name y =>
    obtain ⟨id, rfl, hnode, heq⟩ := walk_at hacyclic hs hc hn
    obtain ⟨u, hu⟩ := hs.agrees
    have hwalk : walk E path (some id) s = (s.lookup E.declared y line).depend x y := by
      have hkept := (Walk.sameBeside_lookup s E.declared y line).defining
      rw [heq]
      simp only [Walk.visitNode, hu.defining, hdefining, Option.isNone_some, Bool.false_eq_true,
        if_false, Walk.State.dependDefining, hkept]
    rw [hwalk]
    constructor
    · intro w hw z hz
      cases hw with
      | name => exact name_gives hacyclic hs hx line hz
      | operand hmem => cases hmem
    · intro hcalls
      cases hcalls with
      | operand hmem => cases hmem
  | literal _ _ _ | thisRef =>
    exact .of_operands (fun _ h => by cases h) (fun _ _ h => by cases h)
      fun _ hmem => absurd hmem List.not_mem_nil
  | source hcallee =>
    obtain ⟨id, rfl, hnode, heq⟩ := walk_at hacyclic hs hc hn
    obtain ⟨u, hu⟩ := hs.agrees
    have hwalk : walk E path (some id) s = s.markSource line := by
      rw [heq]
      simp only [Walk.visitNode, Walk.call, Bool.false_eq_true, if_false, hcallee, if_true]
    rw [hwalk]
    constructor
    · intro y hy
      cases hy with
      | operand hmem => cases hmem
    · exact fun _ => marked_markSource (hu.defining.trans hdefining) hx line
  | @call callee args isNew f _ hcallee hsource hsink _ ih =>
    obtain ⟨id, rfl, hnode, heq⟩ := walk_at hacyclic hs hc hn
    have hheld : ∀ a ∈ callee :: args, Reached E.graph fn (id :: path) a :=
      fun a ha => hc.child (Graph.holds_child hnode ha)
    have hargs := fun a ha => hheld a (List.mem_cons_of_mem callee ha)
    have hgives : ∀ a ∈ args, ∀ n, E.graph.at? a = some n → ∀ s, Steady E fn site s →
        Registered s.scope x → Given E x n.form s.scope (walk E (id :: path) a s).scope :=
      fun a ha n hat s hs hx => ih a ha n hat hat (hargs a ha) hs hx
    refine .of_operands (fun _ h => by cases h) ?_ fun a ha n hat => ?_
    · intro callee' line' hform hname
      cases hform
      rw [hname] at hcallee
      exact hsource (congrArg Prod.fst (Option.some.inj hcallee)).symm
    · have hcalled : Steady E fn site (if isNew then walk E (id :: path) callee s else s) ∧
          s.scope.Grows (if isNew then walk E (id :: path) callee s else s).scope := by
        split
        · have hc := hheld callee List.mem_cons_self
          exact ⟨hs.visit hacyclic hc, hs.grows (Walk.walk_steps hc s)⟩
        · exact ⟨hs, .refl _⟩
      rw [heq.trans (call_of_name hcallee hsource hsink _ line args isNew s)]
      exact (visitAll_gives hacyclic hcalled.1 (hx.mono hcalled.2) hargs hgives a ha n hat).mono
        hcalled.2 (.refl _)
  | compound hform hparts ih =>
    obtain ⟨id, rfl, hnode, heq⟩ := walk_at hacyclic hs hc hn
    have hheld : ∀ a ∈ _, Reached E.graph fn (id :: path) a :=
      fun a ha => hc.child (Graph.holds_child hnode ha)
    rw [heq, visitNode_of_isCompound hform]
    refine .of_operands ?_ ?_ ?_
    · rintro y rfl
      cases hform
    · rintro callee line rfl
      cases hform
    · rw [operands_of_isCompound hform]
      exact visitAll_gives hacyclic hs hx hheld fun a ha n hat s hs hx =>
        ih a ha n hat hat (hheld a ha) hs hx

/-! ### Assignments -/

/-- A value that is walked at a site leaves `O'` carried, and what it hands on goes
to the variable being defined. -/
def Delivers (E : Setting) (fn : NodeId) (path : List NodeId) (v : Option NodeId)
    (O O' : Origins) (h : Handed) : Prop :=
  ∀ site s, Steady E fn site s → Carried O s → Carried O' (walk E path v s) ∧
    ∀ x, site.defining = some x → Registered s.scope x →
      (∀ z ∈ h.origins, (walk E path v s).scope.Carries x z) ∧
        (h.fresh → (walk E path v s).scope.Marked x)

omit hacyclic in
theorem Carried.receive {O : Origins} {s : Walk.State} {target : Target} {h : Handed}
    (hO : Carried O s)
    (hnames : ∀ x ∈ target.names,
      (∀ z ∈ h.origins, s.scope.Carries x z) ∧ (h.fresh → s.scope.Marked x))
    (keep : Prop) : Carried (O.receive target keep h) s := by
  intro x z hz
  unfold Origins.receive at hz
  by_cases hx : x ∈ target.names
  · obtain ⟨horigins, hfresh⟩ := hnames x hx
    rw [if_pos hx] at hz
    rcases hz with ⟨_, hz⟩ | hz | ⟨hcalls, rfl⟩
    · exact hO x z hz
    · exact horigins z hz
    · exact ⟨hfresh hcalls, Or.inl rfl⟩
  · rw [if_neg hx] at hz
    exact hO x z hz

/-- What holds after a value went into `x`. -/
structure Received (E : Setting) (fn : NodeId) (site : Site) (O' : Origins) (h : Handed)
    (x : String) (s t : Walk.State) : Prop where
  steady : Steady E fn site t
  grows : s.scope.Grows t.scope
  carried : Carried O' t
  registered : Registered t.scope x
  origins : ∀ z ∈ h.origins, t.scope.Carries x z
  marked : h.fresh → t.scope.Marked x

omit hacyclic in
theorem Received.carries {site : Site} {O' : Origins} {h : Handed} {x : String} {s t : Walk.State}
    (hreceived : Received E fn site O' h x s t) {target : Target} (hnames : target.names = [x])
    (keep : Prop) : Carried (O'.receive target keep h) t := by
  refine hreceived.carried.receive (fun y hy => ?_) keep
  rw [hnames] at hy
  rw [List.mem_singleton.mp hy]
  exact ⟨hreceived.origins, hreceived.marked⟩

/-- A value is walked with `x` as the variable being defined. -/
theorem route_receives {path : List NodeId} {v : Option NodeId} {O O' : Origins} {h : Handed}
    (hdeliver : Delivers E fn path v O O' h) (hv : Reached E.graph fn path v) {site : Site}
    {s : Walk.State} {x : String} (hs : Steady E fn site s) (hO : Carried O s)
    (hx : Registered s.scope x) :
    Received E fn site O' h x s (s.route (some x) (walk E path v)) := by
  obtain ⟨hsteady, hgrow⟩ := hs.route hacyclic hv (some x)
  obtain ⟨hcarried, hgives⟩ := hdeliver _ _ (hs.define hacyclic (some x)) hO
  obtain ⟨horigins, hmarked⟩ := hgives x rfl hx
  exact ⟨hsteady, hgrow, hcarried, hx.mono hgrow, horigins, hmarked⟩

/-- A name is bound to a value. -/
theorem bind_receives {path : List NodeId} {v : Option NodeId} {O O' : Origins} {h : Handed}
    (hdeliver : Delivers E fn path v O O' h) (hv : Reached E.graph fn path v) {site : Site}
    {s : Walk.State} (hs : Steady E fn site s) (hO : Carried O s) (x : String) (line : Int) :
    Received E fn site O' h x s
      ((s.bind E.declared x line).route (some x) (walk E path v)) := by
  have hgrow := hs.grows ((Steps.refl s).bind x line)
  have hreceived := route_receives hacyclic hdeliver hv (hs.bind hacyclic x line) (hO.mono hgrow)
    (registered_lookup _ E.declared x line)
  exact { hreceived with grows := hgrow.trans hreceived.grows }

/-- A pattern binds its names to a value one after the other. -/
theorem pattern_receives {path : List NodeId} {v : Option NodeId} {O O' : Origins} {h : Handed}
    (hdeliver : Delivers E fn path v O O' h) (hv : Reached E.graph fn path v)
    (names : List NodeId) {site : Site} {s t : Walk.State} (hs : Steady E fn site s)
    (hO : Carried O s)
    (ht : t = names.foldl (fun s n =>
      match E.graph.name? (some n) with
      | some (ident, line) => (s.bind E.declared ident line).route (some ident) (walk E path v)
      | none => s) s) :
    s.scope.Grows t.scope ∧ ∀ n ∈ names, ∀ x line, E.graph.name? (some n) = some (x, line) →
      Carried O' t ∧ (∀ z ∈ h.origins, t.scope.Carries x z) ∧ (h.fresh → t.scope.Marked x) := by
  induction names generalizing s with
  | nil => exact ⟨ht ▸ .refl _, fun n hn => absurd hn List.not_mem_nil⟩
  | cons m ms ih =>
    rw [List.foldl_cons] at ht
    rcases hm : E.graph.name? (some m) with _ | ⟨y, yLine⟩
    · simp only [hm] at ht
      obtain ⟨hgrow, hrest⟩ := ih hs hO ht
      refine ⟨hgrow, fun n hn x line hx => ?_⟩
      rcases List.mem_cons.mp hn with rfl | hn
      · rw [hm] at hx
        cases hx
      · exact hrest n hn x line hx
    · simp only [hm] at ht
      have hone := bind_receives hacyclic hdeliver hv hs hO y yLine
      obtain ⟨hgrow, hrest⟩ := ih hone.steady (hO.mono hone.grows) ht
      refine ⟨hone.grows.trans hgrow, fun n hn x line hx => ?_⟩
      rcases List.mem_cons.mp hn with rfl | hn
      · rw [hm] at hx
        cases hx
        exact ⟨hone.carried.mono hgrow, fun z hz => (hone.origins z hz).mono hgrow,
          fun hcalls => (hone.marked hcalls).mono hgrow⟩
      · exact hrest n hn x line hx

/-- The variable that an assignment to the target gives on, if there is one. -/
def Target.receiver : Target → Option String
  | .name x => some x
  | .member x => some x
  | .pattern _ => none

omit hacyclic in
theorem mem_targetNames_pattern {g : Graph} {c : Option NodeId} {names : List NodeId}
    {defaults : List (Option NodeId)} {line : Int} {x : String}
    (hc : g.at? c = some ⟨line, .pattern names defaults⟩)
    (hx : x ∈ (g.targetNames c).map Prod.fst) :
    ∃ n ∈ names, ∃ xLine, g.name? (some n) = some (x, xLine) := by
  unfold Graph.targetNames at hx
  rw [hc] at hx
  obtain ⟨⟨y, yLine⟩, hmem, rfl⟩ := List.mem_map.mp hx
  obtain ⟨n, hn, hname⟩ := List.mem_filterMap.mp hmem
  exact ⟨n, hn, yLine, hname⟩

omit hacyclic in
theorem yields_name {passOn : Bool} {O O' : Origins} {y : String} {h : Handed}
    (hyields : Yields E passOn O (.name y) O' h) :
    O' = O ∧ (∀ z ∈ h.origins, z ∈ O y) ∧ ¬ h.fresh := by
  cases hyields with
  | expr _ =>
    refine ⟨rfl, ?_, ?_⟩
    · rintro z ⟨x, hread, hz⟩
      cases hread with
      | name => exact hz
      | operand hmem => cases hmem
    · intro hcalls
      cases hcalls with
      | operand hmem => cases hmem

/-- A value goes into the base of a member chain. -/
theorem member_receives {passOn : Bool} {path : List NodeId}
    {t v object property : Option NodeId} {propName x : String} {computed : Bool}
    {line xLine : Int} {n : Node} {O O' : Origins} {h : Handed}
    (hat : E.graph.at? t = some ⟨line, .member object property propName computed⟩)
    (hroot : E.graph.root? t = some (x, xLine)) (htr : Reached E.graph fn path t)
    (hn : E.graph.at? v = some n) (hvr : Reached E.graph fn path v)
    (hyields : Yields E passOn O n.form O' h) (hdeliver : Delivers E fn path v O O' h)
    {site : Site} {s : Walk.State} (hs : Steady E fn site s) (hO : Carried O s) :
    ∃ w, Walk.assign E (walk E path) t v s = (some x, w) ∧ Received E fn site O' h x s w := by
  have hproperty : Reached E.graph fn path property :=
    htr.below hat fun id hnode => Graph.holds_present hnode (fun _ h => h) (by simp)
  have hbase : ∃ u, (if computed then
        (s.lookup E.declared x xLine).route none (walk E path property)
      else s.lookup E.declared x xLine) = u ∧ Steady E fn site u ∧ s.scope.Grows u.scope ∧
        Registered u.scope x := by
    have hlook := hs.register hacyclic x xLine
    have hgrow := hs.grows (.single (.register s x xLine))
    have hx := registered_lookup s E.declared x xLine
    refine ⟨_, rfl, ?_⟩
    split
    · obtain ⟨hsteady, hmore⟩ := hlook.route hacyclic hproperty none
      exact ⟨hsteady, hgrow.trans hmore, hx.mono hmore⟩
    · exact ⟨hlook, hgrow, hx⟩
  obtain ⟨u, hu, hsteady, hgrow, hx⟩ := hbase
  simp only [Walk.assign, hat, hroot, hu]
  rcases hname : E.graph.name? v with _ | ⟨y, yLine⟩
  · have hrouted := route_receives hacyclic hdeliver hvr hsteady (hO.mono hgrow) hx
    exact ⟨_, rfl, { hrouted with grows := hgrow.trans hrouted.grows }⟩
  · -- a plain name flows into the base without being walked
    obtain rfl := Option.some.inj ((at?_of_name? hname).symm.trans hn)
    obtain ⟨rfl, horigins, hfresh⟩ := yields_name hyields
    have hdepend := (hsteady.register hacyclic y yLine).depend hacyclic x y
    have hmore := hsteady.grows (((Steps.refl u).step (.register u y yLine)).step
      (.depend _ x y))
    refine ⟨_, rfl, hdepend, hgrow.trans hmore, hO.mono (hgrow.trans hmore), hx.mono hmore,
      fun z hz => ?_, fun hcalls => absurd hcalls hfresh⟩
    exact name_gives hacyclic hsteady hx yLine ((hO y z (horigins z hz)).mono hgrow)

/-- An assignment leaves the origins carried that its target then has. -/
theorem assign_receives {passOn : Bool} {path : List NodeId} {t v : Option NodeId}
    {target : Target} {n : Node} {O O' : Origins} {h : Handed} (ht : IsTarget E t target)
    (htr : Reached E.graph fn path t) (hn : E.graph.at? v = some n)
    (hvr : Reached E.graph fn path v) (hyields : Yields E passOn O n.form O' h)
    (hdeliver : Delivers E fn path v O O' h) {site : Site} {s : Walk.State}
    (hs : Steady E fn site s) (hO : Carried O s) (keep : Prop) :
    (Walk.assign E (walk E path) t v s).1 = target.receiver ∧
      Carried (O'.receive target keep h) (Walk.assign E (walk E path) t v s).2 ∧
      ∀ x, target.receiver = some x →
        Registered (Walk.assign E (walk E path) t v s).2.scope x := by
  cases ht with
  | @name x line hname =>
    have hreceived := bind_receives hacyclic hdeliver hvr hs hO x line
    simp only [Walk.assign, at?_of_name? hname]
    exact ⟨rfl, hreceived.carries rfl keep,
      fun y hy => Option.some.inj hy ▸ hreceived.registered⟩
  | @pattern names line hat hnames =>
    simp only [Walk.assign, hat, List.foldl_nil]
    refine ⟨rfl, ?_, fun y hy => by cases hy⟩
    by_cases hempty : names = []
    · subst hempty
      simp only [if_true, List.foldl_nil]
      have hcarried := (hdeliver _ _ (hs.define hacyclic none) hO).1
      refine Carried.receive (s := s.route none (walk E path v)) hcarried (fun x hx => ?_) keep
      obtain ⟨m, hm, _⟩ := mem_targetNames_pattern hat hx
      cases hm
    · simp only [hempty, if_false]
      obtain ⟨_, hall⟩ := pattern_receives hacyclic hdeliver hvr names hs hO rfl
      obtain ⟨m, hm⟩ := List.exists_mem_of_ne_nil names hempty
      obtain ⟨⟨y, yLine⟩, hy⟩ := Option.isSome_iff_exists.mp (hnames m hm)
      refine (hall m hm y yLine hy).1.receive (fun x hx => ?_) keep
      obtain ⟨k, hk, xLine, hx⟩ := mem_targetNames_pattern hat hx
      exact (hall k hk x xLine hx).2
  | @member _ _ _ x _ _ _ hat _ hroot =>
    obtain ⟨w, hw, hreceived⟩ :=
      member_receives hacyclic hat hroot htr hn hvr hyields hdeliver hs hO
    rw [hw]
    exact ⟨rfl, hreceived.carries rfl keep,
      fun y hy => Option.some.inj hy ▸ hreceived.registered⟩

omit hacyclic in
/-- What `x` carries goes to the variable being defined. -/
theorem Steady.dependDefining_carries {site : Site} {s : Walk.State} {O : Origins} {x : String}
    (hs : Steady E fn site s) (hO : Carried O s) (hx : Registered s.scope x) :
    Carried O (s.dependDefining x) ∧ ∀ y, site.defining = some y → Registered s.scope y →
      ∀ z ∈ O x, (s.dependDefining x).scope.Carries y z := by
  refine ⟨hO.mono (hs.grows ((Steps.refl s).dependDefining x)), fun y hy hreg z hz => ?_⟩
  obtain ⟨u, hu⟩ := hs.agrees
  obtain ⟨v, hv⟩ := hreg
  obtain ⟨o, ho⟩ := hx
  simp only [Walk.State.dependDefining, hu.defining, hy]
  exact Scope.Carries.depend hs.wellFormed hv ho (hO x z hz)

omit hacyclic in
theorem visitNode_assignment (path : List NodeId) (visit : Walk.Visit) (line : Int)
    (operator : String) (t v : Option NodeId) (s : Walk.State) :
    Walk.visitNode E path visit ⟨line, .assignment operator t v⟩ s =
      (Walk.assign E visit t v s).1.elim (Walk.assign E visit t v s).2
        fun x => (Walk.assign E visit t v s).2.dependDefining x := by
  simp only [Walk.visitNode]
  rcases Walk.assign E visit t v s with ⟨_ | x, u⟩
  · rfl
  · rfl

/-- Walking a value leaves the origins carried that its evaluation leaves, and hands
on to the variable being defined what the evaluation hands on. -/
theorem value_walk {passOn : Bool} {form : Form} (hv : IsValue E passOn form) {path : List NodeId}
    {c : Option NodeId} {line : Int} (hn : E.graph.at? c = some ⟨line, form⟩)
    (hc : Reached E.graph fn path c) {O O' : Origins} {h : Handed}
    (hyields : Yields E passOn O form O' h) : Delivers E fn path c O O' h := by
  induction hv generalizing path c line O O' h with
  | expr he =>
    intro site s hs hO
    cases hyields with
    | expr _ =>
      refine ⟨hO.mono (hs.grows (Walk.walk_steps hc s)), fun x hdefining hx => ?_⟩
      have hgiven := expr_walk hacyclic he hn hc hs hdefining hx
      refine ⟨?_, hgiven.marked⟩
      rintro z ⟨y, hread, hz⟩
      exact hgiven.reads y hread z (hO y z hz)
    | assign _ _ _ => exact absurd he not_isExpr_assignment
  | @assign operator t v _ n _ hpass hvn _ ih =>
    intro site s hs hO
    cases hyields with
    | expr he => exact absurd he not_isExpr_assignment
    | assign ht hm hyields =>
      obtain rfl := Option.some.inj (hvn.symm.trans hm)
      obtain ⟨id, rfl, hnode, heq⟩ := walk_at hacyclic hs hc hn
      obtain ⟨hht, hhv⟩ := Graph.holds_sides hnode rfl
      have hvr := hc.child hhv
      obtain ⟨hfst, hcarried, hregistered⟩ := assign_receives hacyclic ht (hc.child hht) hm hvr
        hyields (ih hm hvr hyields) hs hO (operator ≠ "=")
      obtain ⟨hsteady, hgrow⟩ := hs.assign hacyclic hc hht hhv
      have hwalk := heq.trans (visitNode_assignment _ _ line operator t v s)
      revert hfst hcarried hregistered hsteady hgrow hwalk
      generalize Walk.assign E (walk E (id :: path)) t v s = r
      obtain ⟨w, u⟩ := r
      rintro rfl hcarried hregistered hsteady hgrow hwalk
      rw [hwalk]
      cases ht with
      | @name x _ _ =>
        have hflow := hsteady.dependDefining_carries hcarried (hregistered x rfl)
        exact ⟨hflow.1, fun y hy hreg => ⟨hflow.2 y hy (hreg.mono hgrow), False.elim⟩⟩
      | @member _ _ _ x _ _ _ _ _ _ =>
        have hflow := hsteady.dependDefining_carries hcarried (hregistered x rfl)
        exact ⟨hflow.1, fun y hy hreg => ⟨hflow.2 y hy (hreg.mono hgrow), False.elim⟩⟩
      | pattern hat _ =>
        refine ⟨hcarried, fun y _ _ => ?_⟩
        cases passOn with
        | true => exact absurd hat (hpass rfl _ _)
        | false => exact ⟨fun z hz => absurd hz (Set.notMem_empty z), False.elim⟩

end

end TaintReach.LoopFree
