import TaintReach.Proofs.Walk.Overlooked
import TaintReach.Proofs.Walk.Retelling
import TaintReach.Proofs.Walk.Stamping

/-! Branches that are never taken.

If the test of a conditional rules out one of its sides whatever constants are known,
that side is not walked, and what is in it does not count: with any other nodes put
there the function is analysed alike, fault or scope (`Walk.dead_side_unseen`). The side
may be seen by the test of another conditional that holds this one, so there must be
none. The two functions are compared as the lexical walk sees them, where nothing has to
be stamped or restored around the side that is skipped. -/
namespace TaintReach

/-- What the test of a conditional decides between. -/
inductive Side where
  | guarded
  | opposite
deriving DecidableEq, Repr

namespace Side

/-- The class of the test that rules the side out. -/
def deadAt : Side → Reachable
  | .guarded => .never
  | .opposite => .always

/-- What a node holds beside that side. -/
def others : Side → Form → List (Option NodeId)
  | .guarded, .conditional _ init test _ each _ otherwise => [init, test, each, otherwise]
  | .opposite, .conditional _ init test update each body _ => [init, test, each, body, update]
  | _, form => form.children

/-- Conditionals that are the same but for that side. -/
inductive Swaps : Side → Form → Form → Prop
  | guarded {kind : CondKind} {init test update update' each : Option NodeId}
    {body body' otherwise : Option NodeId} :
    Swaps .guarded (.conditional kind init test update each body otherwise)
      (.conditional kind init test update' each body' otherwise)
  | opposite {kind : CondKind} {init test update each body : Option NodeId}
    {otherwise otherwise' : Option NodeId} :
    Swaps .opposite (.conditional kind init test update each body otherwise)
      (.conditional kind init test update each body otherwise')

end Side

namespace Graph

/-- The nodes from `root` down, without what is only in that side of the conditional at
`cond`. -/
inductive Live (g : Graph) (root cond : NodeId) (side : Side) : NodeId → Prop
  | root : Live g root cond side root
  | child {p c : NodeId} (hp : Live g root cond side p) (hne : p ≠ cond) (hc : g.Child p c) :
    Live g root cond side c
  | beside {n : Node} {c : NodeId} (hcond : Live g root cond side cond)
    (hn : g.node? cond = some n) (hc : some c ∈ side.others n.form) : Live g root cond side c

/-- An `if`, a `for` or a `while` stands at `cond`, whose test rules the side out. It is
not in the test of another conditional. -/
structure RulesOut (g : Graph) (root cond : NodeId) (side : Side) : Prop where
  guard : ∃ line kind init test update each body otherwise,
    g.node? cond = some ⟨line, .conditional kind init test update each body otherwise⟩ ∧
    kind ∈ [CondKind.branch, .forLoop, .whileLoop] ∧
    ∀ consts, (Walk.classify g consts [] test).reach = side.deadAt
  apart : ∀ {p line kind init test update each body otherwise}, g.Live root cond side p →
    p ≠ cond → g.node? p = some ⟨line, .conditional kind init test update each body otherwise⟩ →
    ∀ t, test = some t → ¬ g.Within t cond

/-- The function at `root` is that of `g` but for that side of the conditional. -/
structure SwapsSide (g g' : Graph) (root cond : NodeId) (side : Side) : Prop where
  swapped : ∃ n n', g.node? cond = some n ∧ g'.node? cond = some n' ∧ n'.line = n.line ∧
    side.Swaps n.form n'.form
  live : ∀ {id}, g.Live root cond side id → id ≠ cond → g'.node? id = g.node? id

variable {g g' : Graph} {root cond : NodeId} {side : Side}

theorem SwapsSide.sameBeside (h : g.SwapsSide g' root cond side) :
    g.SameBeside g' cond (g.Live root cond side) where
  node := h.live
  child := .child
  cond := by
    obtain ⟨n, n', hn, hn', hline, hswaps⟩ := h.swapped
    refine ⟨n, n', hn, hn', hline, ?_⟩
    generalize n.form = form at hswaps
    generalize n'.form = form' at hswaps
    cases hswaps <;> exact ⟨⟨_, _, _, _, _, _, _, rfl⟩, ⟨_, _, _, _, _, _, _, rfl⟩⟩

end Graph

/-! ### What is read of a node in place -/

/-- What the field holds is of `K`. -/
def Kept (K : NodeId → Prop) (c : Option NodeId) : Prop := ∀ id, c = some id → K id

theorem kept_of_present {K : NodeId → Prop} {fields : List (Option NodeId)}
    (h : ∀ c ∈ present fields, Kept K c) : ∀ c ∈ fields, Kept K c := by
  rintro c hc id rfl
  exact h (some id) (Graph.mem_present.mpr hc) id rfl

namespace Graph

variable {g g' : Graph} {cond : NodeId} {K : NodeId → Prop}

theorem SameBeside.kept_children (hg : g.SameBeside g' cond K) {p : NodeId} {n : Node}
    (hn : g.node? p = some n) (hp : K p) (hne : p ≠ cond) : ∀ c ∈ n.form.children, Kept K c := by
  rintro c hc id rfl
  exact hg.child hp hne ⟨n, hn, hc⟩

/-- A field holds the same node in both graphs, or a conditional. -/
inductive HoldsSame (g g' : Graph) (K : NodeId → Prop) (c : Option NodeId) : Prop
  | same (hat : g'.at? c = g.at? c)
    (hkept : ∀ n, g.at? c = some n → ∀ d ∈ n.form.children, Kept K d)
  | conditional {line line' : Int} {kind kind' : CondKind}
    {init init' test test' update update' each each' : Option NodeId}
    {body body' otherwise otherwise' : Option NodeId}
    (hat : g.at? c = some ⟨line, .conditional kind init test update each body otherwise⟩)
    (hat' : g'.at? c = some ⟨line', .conditional kind' init' test' update' each' body' otherwise'⟩)

namespace SameBeside

variable (hg : g.SameBeside g' cond K) {c : Option NodeId} (hc : Kept K c)
include hg hc

theorem holdsSame : g.HoldsSame g' K c := by
  rcases c with _ | id
  · exact .same rfl fun _ h => by cases h
  by_cases hid : id = cond
  · subst hid
    obtain ⟨⟨line, form⟩, ⟨line', form'⟩, hn, hn', -, hform, hform'⟩ := hg.cond
    obtain ⟨_, _, _, _, _, _, _, rfl⟩ := hform
    obtain ⟨_, _, _, _, _, _, _, rfl⟩ := hform'
    exact .conditional hn hn'
  · exact .same (hg.node (hc id rfl) hid) fun n hn => hg.kept_children hn (hc id rfl) hid

theorem name? : g'.name? c = g.name? c := by
  unfold Graph.name?
  cases hg.holdsSame hc with
  | same hat _ => rw [hat]
  | conditional hat hat' => rw [hat, hat']

theorem isMember : g'.isMember c = g.isMember c := by
  unfold Graph.isMember
  cases hg.holdsSame hc with
  | same hat _ => rw [hat]
  | conditional hat hat' => rw [hat, hat']

theorem rootWithin (steps : Nat) : g'.rootWithin steps c = g.rootWithin steps c := by
  induction steps generalizing c with
  | zero => rfl
  | succ steps ih =>
    unfold Graph.rootWithin
    cases hg.holdsSame hc with
    | same hat hkept =>
      rw [hat]
      rcases hn : g.at? c with _ | ⟨line, form⟩
      · rfl
      cases form with
      | member object property =>
        exact ih (kept_of_present (hkept _ hn) object List.mem_cons_self)
      | _ => rfl
    | conditional hat hat' => rw [hat, hat']

theorem root? : g'.root? c = g.root? c := by
  have hsize := Nat.le_max_left (g.size + 1) (g'.size + 1)
  have hsize' := Nat.le_max_right (g.size + 1) (g'.size + 1)
  rw [← rootWithin_of_le hsize, ← rootWithin_of_le hsize']
  exact hg.rootWithin hc _

end SameBeside

end Graph

/-! ### The rules -/

namespace Lexical

open Walk (Setting)

/-- A step that does nothing does nothing as a branch. -/
theorem guarded_eq_self {site : Site} (guard : Reachable) {step : Site → State → State} {s : State}
    (h : ∀ site, step site s = s) : guarded site guard step s = s := by
  unfold guarded
  simp only [h, ite_self]

/-- What a branch does matters only if it can be taken. -/
theorem guarded_congr {site : Site} {guard : Reachable} (hsite : site.ambient.Named)
    (hguard : guard.Named) {step step' : Site → State → State}
    (hstep : guard = .never ∨ ∀ site : Site, site.ambient.Named → step site = step' site)
    (s : State) : guarded site guard step s = guarded site guard step' s := by
  unfold guarded
  rcases hstep with rfl | hstep
  · simp only [hsite.meet_never, if_true]
  · simp only [hstep { site with ambient := site.ambient.meet guard } (hsite.meet hguard)]

/-- The class of what a conditional guards. -/
def guardOf (g : Graph) (path : List NodeId) (kind : CondKind) (test : Option NodeId)
    (consts : Walk.Consts) : Walk.Classified :=
  if kind = .forIn ∨ kind = .forOf then ⟨.maybe, none⟩ else Walk.classify g consts path test

theorem guardOf_named (g : Graph) (path : List NodeId) (kind : CondKind) (test : Option NodeId)
    (consts : Walk.Consts) : (guardOf g path kind test consts).reach.Named := by
  unfold guardOf
  split
  · exact Reachable.named_maybe
  · exact Walk.classify_named g consts path test

section
variable {E : Setting} {g' : Graph} {cond : NodeId} {K : NodeId → Prop}
  (hg : E.graph.SameBeside g' cond K)
include hg

theorem recordConst_congr {b : NodeId} (hb : K b) (s : State) :
    recordConst E b s = recordConst { E with graph := g' } b s := by
  unfold recordConst
  cases hg.holdsSame (c := some b) fun id hid => Option.some.inj hid ▸ hb with
  | conditional hn hn' =>
    simp only [Graph.at?, Option.bind_some] at hn hn'
    simp only [hn, hn']
  | same hn hkept =>
    simp only [Graph.at?, Option.bind_some] at hn hkept
    simp only [hn]
    rcases hnode : E.graph.node? b with _ | ⟨line, form⟩
    · rfl
    cases form with
    | binding target init =>
      have hfields := kept_of_present (hkept _ hnode)
      simp only [hg.name? (hfields target List.mem_cons_self)]
      rcases E.graph.name? target with _ | p
      · rfl
      cases hg.holdsSame (hfields init (by simp)) with
      | same hat _ => simp only [hat]
      | conditional hat hat' => simp only [hat, hat']
    | _ => rfl

theorem methodCall_congr {callee : Option NodeId} {args : List (Option NodeId)}
    (hcallee : Kept K callee) (hargs : ∀ c ∈ args, Kept K c) (s : State) :
    methodCall E callee args s = methodCall { E with graph := g' } callee args s := by
  unfold methodCall
  simp only [hg.isMember hcallee, hg.root? hcallee]
  split
  · refine List.foldl_ext _ _ _ fun s c hc => ?_
    rw [hg.name? (hargs c hc)]
    rfl
  · rfl

end

section
variable {E : Setting} {g' : Graph} {cond : NodeId} {K : NodeId → Prop} {visit visit' : Visit}
  {site : Site}
  (hv : ∀ {site : Site} {c}, site.ambient.Named → Kept K c → visit site c = visit' site c)
  (hsite : site.ambient.Named)
include hv hsite

theorem visitAll_congr {cs : List (Option NodeId)} (hcs : ∀ c ∈ cs, Kept K c) (s : State) :
    visitAll visit site cs s = visitAll visit' site cs s :=
  List.foldl_ext _ _ s fun s c hc => by rw [hv hsite (hcs c hc)]

/-- Conditionals do the same if their tests are judged alike and, where no loop is told of,
each side is the same or ruled out. -/
theorem conditional_congr {path : List NodeId} {kind : CondKind}
    {init test update update' each body body' otherwise otherwise' : Option NodeId}
    (hf : ∀ site c s, s.fault.isSome → visit site c s = s)
    (hf' : ∀ site c s, s.fault.isSome → visit' site c s = s) (hinit : Kept K init)
    (htest : ∀ consts, Walk.classify g' consts path test = Walk.classify E.graph consts path test)
    (hbody : ∀ consts, (guardOf E.graph path kind test consts).loopLine = none →
      (guardOf E.graph path kind test consts).reach = .never ∨
        Kept K each ∧ Kept K body ∧ Kept K update ∧ body' = body ∧ update' = update)
    (hotherwise : ∀ consts, (guardOf E.graph path kind test consts).loopLine = none →
      (guardOf E.graph path kind test consts).reach = .always ∨
        Kept K otherwise ∧ otherwise' = otherwise)
    (s : State) :
    conditional E visit site path kind init test update each body otherwise s =
      conditional { E with graph := g' } visit' site path kind init test update' each body'
        otherwise' s := by
  unfold conditional
  simp only [hv hsite hinit, htest]
  generalize (if kind = .forLoop then visit' site init s else s) = s
  have hnamed := guardOf_named E.graph path kind test s.consts
  replace hbody := hbody s.consts
  replace hotherwise := hotherwise s.consts
  unfold guardOf at hnamed hbody hotherwise
  generalize (if kind = .forIn ∨ kind = .forOf then (⟨.maybe, none⟩ : Walk.Classified)
    else Walk.classify E.graph s.consts path test) = guard at hnamed hbody hotherwise ⊢
  cases hloop : guard.loopLine with
  | some line =>
    -- After the fault nothing is visited, on either side.
    have hstill : ∀ {visit : Visit} {update each body otherwise},
        (∀ site c s, s.fault.isSome → visit site c s = s) →
        guarded site guard.reach.negate (fun site s => visit site otherwise s)
          (guarded site guard.reach
            (fun site s => visit site update (visit site body (visit site each s)))
            (s.failCyclic line)) = s.failCyclic line := by
      intro visit update each body otherwise hf
      rw [guarded_eq_self guard.reach, guarded_eq_self guard.reach.negate]
      · exact fun _ => hf _ _ _ rfl
      · intro site
        simp only [hf _ _ (s.failCyclic line) rfl]
    exact (hstill hf).trans (hstill hf').symm
  | none =>
    simp only [Option.elim_none]
    rw [guarded_congr hsite hnamed ((hbody hloop).imp_right ?_),
      guarded_congr hsite (Reachable.named_negate _) ((hotherwise hloop).imp ?_ ?_)]
    · rintro halways
      rw [halways]
      rfl
    · rintro ⟨hkept, rfl⟩ site hsite
      rw [hv hsite hkept]
    · rintro ⟨heach, hkept, hupdate, rfl, rfl⟩ site hsite
      rw [hv hsite heach, hv hsite hkept, hv hsite hupdate]

variable (hg : E.graph.SameBeside g' cond K)
include hg

theorem assign_congr {target value : Option NodeId} (ht : Kept K target) (hval : Kept K value)
    (s : State) : assign E visit site target value s =
      assign { E with graph := g' } visit' site target value s := by
  have hboth : visit site value (visit site target s) =
      visit' site value (visit' site target s) := by rw [hv hsite ht, hv hsite hval]
  have hroute : ∀ {c} (x : Option String), Kept K c → visit { site with defining := x } c =
      visit' { site with defining := x } c := fun _ hc => hv hsite hc
  unfold assign
  cases hg.holdsSame ht with
  | conditional hat hat' => simp only [hat, hat', hboth]
  | same hat hkept =>
    simp only [hat, hg.root? ht, hg.name? hval]
    rcases hn : E.graph.at? target with _ | ⟨line, form⟩
    · exact congrArg (Prod.mk none) hboth
    have hkept := hkept _ hn
    cases form with
    | name ident => exact congrArg (Prod.mk (some ident)) (congrFun (hroute _ hval) _)
    | pattern names defaults =>
      obtain ⟨hnames, hdefaults⟩ := List.forall_mem_append.mp hkept
      simp only [hroute _ hval]
      refine congrArg (Prod.mk none) ?_
      rw [List.foldl_ext _ _ _ fun s d hd => congrFun (hroute none (hdefaults d hd)) s]
      congr 1
      refine List.foldl_ext _ _ _ fun s n hmem => ?_
      rw [hg.name? (hnames (some n) (List.mem_map_of_mem hmem))]
      rfl
    | member object property propName computed =>
      have hproperty := kept_of_present hkept property (by simp)
      simp only [hroute _ hval, hroute _ hproperty, hroute _ ht]
      rfl
    | _ => exact congrArg (Prod.mk none) hboth

theorem declaration_congr (kind : DeclKind) {bindings : List NodeId}
    (hbindings : ∀ c ∈ bindings.map some, Kept K c) (s : State) :
    declaration E visit site kind bindings s =
      declaration { E with graph := g' } visit' site kind bindings s := by
  refine List.foldl_ext _ _ s fun s b hb => ?_
  have hkept := hbindings (some b) (List.mem_map_of_mem hb)
  simp only [hv hsite hkept, recordConst_congr hg (hkept b rfl)]

theorem call_congr {callee : Option NodeId} {args : List (Option NodeId)} (isNew : Bool)
    (hcallee : Kept K callee) (hargs : ∀ c ∈ args, Kept K c) (s : State) :
    call E visit site callee args isNew s =
      call { E with graph := g' } visit' site callee args isNew s := by
  unfold call
  simp only [hg.name? hcallee, visitAll_congr hv hsite hargs, methodCall_congr hg hcallee hargs,
    hv hsite hcallee]
  rcases args with _ | ⟨arg, _ | ⟨_, _⟩⟩
  · rfl
  · simp only [hg.name? (hargs arg List.mem_cons_self)]
    rfl
  · rfl

theorem switch_congr {clauses : List NodeId} (hclauses : ∀ c ∈ clauses.map some, Kept K c)
    (s : State) : switch E visit site clauses s =
      switch { E with graph := g' } visit' site clauses s := by
  have hinner : (site.ambient.meet .maybe).Named := hsite.meet Reachable.named_maybe
  refine List.foldl_ext _ _ s fun s b hb => ?_
  cases hg.holdsSame (hclauses (some b) (List.mem_map_of_mem hb)) with
  | conditional hn hn' =>
    simp only [Graph.at?, Option.bind_some] at hn hn'
    simp only [hn, hn']
  | same hn hkept =>
    simp only [Graph.at?, Option.bind_some] at hn hkept
    simp only [hn]
    rcases hnode : E.graph.node? b with _ | ⟨line, form⟩
    · rfl
    cases form with
    | clause test body =>
      exact visitAll_congr hv hinner (List.forall_mem_append.mp (hkept _ hnode)).2 s
    | _ => rfl

theorem visitNode_congr
    (hf : ∀ site c s, s.fault.isSome → visit site c s = s)
    (hf' : ∀ site c s, s.fault.isSome → visit' site c s = s)
    (path : List NodeId) {n : Node} (hkept : ∀ c ∈ n.form.children, Kept K c)
    (htest : ∀ {kind init test update each body otherwise},
      n.form = .conditional kind init test update each body otherwise →
      ∀ consts, Walk.classify g' consts path test = Walk.classify E.graph consts path test)
    (s : State) : visitNode E visit site path n s =
      visitNode { E with graph := g' } visit' site path n s := by
  obtain ⟨line, form⟩ := n
  cases form with
  | function => rfl
  | declaration kind bindings => exact declaration_congr hv hsite hg kind hkept s
  | binding target init =>
    have hfields := kept_of_present hkept
    exact congrArg Prod.snd
      (assign_congr hv hsite hg (hfields target List.mem_cons_self) (hfields init (by simp)) s)
  | assignment operator target value =>
    have hfields := kept_of_present hkept
    unfold visitNode
    simp only [assign_congr hv hsite hg (hfields target List.mem_cons_self)
      (hfields value (by simp))]
  | name ident => rfl
  | call callee args isNew =>
    obtain ⟨hcallee, hargs⟩ := List.forall_mem_cons.mp hkept
    exact call_congr hv hsite hg isNew hcallee hargs s
  | conditional kind init test update each body otherwise =>
    have hfields := kept_of_present hkept
    refine conditional_congr hv hsite hf hf' (hfields init List.mem_cons_self) (htest rfl)
      (fun _ _ => Or.inr ⟨hfields each ?_, hfields body ?_, hfields update ?_, rfl, rfl⟩)
      (fun _ _ => Or.inr ⟨hfields otherwise ?_, rfl⟩) s
    all_goals simp
  | switch discriminant clauses =>
    exact switch_congr hv hsite hg (List.forall_mem_append.mp hkept).2 s
  | _ => exact visitAll_congr hv hsite hkept s

end

section
variable {E : Setting} {g' : Graph} {root cond : NodeId} {side : Side}

theorem classify_swapped (h : E.graph.SwapsSide g' root cond side) {path : List NodeId}
    {test : Option NodeId}
    (htest : Walk.Beside E.graph cond (E.graph.Live root cond side) path test)
    (consts : Walk.Consts) :
    Walk.classify g' consts path test = Walk.classify E.graph consts path test :=
  Walk.classify_retold h.sameBeside (List.Subset.refl path) (fun _ => List.Subset.refl path) htest
    (Or.inl trivial)

/-- Where no loop is told of, the test rules out the side from any path. -/
theorem reach_guardOf {line : Int} {kind : CondKind}
    {init test update each body otherwise : Option NodeId}
    (hn : E.graph.node? cond = some ⟨line, .conditional kind init test update each body otherwise⟩)
    (hkind : kind ∈ [CondKind.branch, .forLoop, .whileLoop])
    (hdead : ∀ consts, (Walk.classify E.graph consts [] test).reach = side.deadAt)
    {path : List NodeId} (hpath : cond ∈ path) (consts : Walk.Consts)
    (hloop : (guardOf E.graph path kind test consts).loopLine = none) :
    (guardOf E.graph path kind test consts).reach = side.deadAt := by
  have hjudged : guardOf E.graph path kind test consts =
      Walk.classify E.graph consts path test := by
    refine if_neg ?_
    rintro (rfl | rfl) <;> simp at hkind
  rw [hjudged] at hloop ⊢
  rw [← hdead consts, Walk.classify_retold (P := False) (.refl hn ⟨_, _, _, _, _, _, _, rfl⟩)
    (List.nil_subset path) False.elim (fun _ _ => ⟨trivial, Or.inl hpath⟩) (Or.inr hloop)]

/-- The conditional does the same with anything on the side that its test rules out. -/
theorem visitNode_swapped {visit visit' : Visit} {site : Site} {path : List NodeId} {n n' : Node}
    (hv : ∀ {site : Site} {c}, site.ambient.Named → Kept (E.graph.Live root cond side) c →
      visit site c = visit' site c)
    (hf : ∀ site c s, s.fault.isSome → visit site c s = s)
    (hf' : ∀ site c s, s.fault.isSome → visit' site c s = s) (hsite : site.ambient.Named)
    (hrules : E.graph.RulesOut root cond side) (h : E.graph.SwapsSide g' root cond side)
    (hlive : E.graph.Live root cond side cond) (hn : E.graph.node? cond = some n)
    (hswaps : side.Swaps n.form n'.form) (hpath : cond ∈ path) (s : State) :
    visitNode E visit site path n s = visitNode { E with graph := g' } visit' site path n' s := by
  obtain ⟨line, kind, init, test, update, each, body, otherwise, hcond, hkind, hdead⟩ :=
    hrules.guard
  obtain rfl := Option.some.inj (hn.symm.trans hcond)
  obtain ⟨line', form'⟩ := n'
  have hkept : ∀ c ∈ side.others (.conditional kind init test update each body otherwise),
      Kept (E.graph.Live root cond side) c := by
    rintro c hc id rfl
    exact .beside hlive hn hc
  have htest : ∀ consts, Walk.classify g' consts path test =
      Walk.classify E.graph consts path test :=
    classify_swapped h fun id hid => ⟨hkept test (by cases side <;> simp [Side.others]) id hid,
      Or.inl hpath⟩
  have hguard := reach_guardOf hn hkind hdead hpath
  cases hswaps with
  | guarded =>
    exact conditional_congr hv hsite hf hf' (hkept init (by simp [Side.others])) htest
      (fun consts hloop => Or.inl (hguard consts hloop))
      (fun _ _ => Or.inr ⟨hkept otherwise (by simp [Side.others]), rfl⟩) s
  | opposite =>
    refine conditional_congr hv hsite hf hf' (hkept init (by simp [Side.others])) htest
      (fun _ _ => Or.inr ⟨hkept each ?_, hkept body ?_, hkept update ?_, rfl, rfl⟩)
      (fun consts hloop => Or.inl (hguard consts hloop)) s
    all_goals simp [Side.others]

/-- **The lexical walks agree on what is live.** -/
theorem walk_swapped (hrules : E.graph.RulesOut root cond side)
    (h : E.graph.SwapsSide g' root cond side) {path : List NodeId} {site : Site}
    {c : Option NodeId} (hsite : site.ambient.Named) (hc : Kept (E.graph.Live root cond side) c) :
    walk E path site c = walk { E with graph := g' } path site c := by
  induction hroom : E.graph.room path using Nat.strongRecOn generalizing path site c with
  | _ room ih =>
    funext s
    rcases c with _ | id
    · rw [walk_none, walk_none]
    have hlive := hc id rfl
    cases hs : s.fault with
    | some f => rw [walk_of_fault _ (by rw [hs]; rfl), walk_of_fault _ (by rw [hs]; rfl)]
    | none =>
      by_cases hid : id = cond
      · subst hid
        obtain ⟨n, n', hn, hn', hline, hswaps⟩ := h.swapped
        by_cases hp : id ∈ path
        · rw [walk_cyclic hs hn hp, walk_cyclic (E := { E with graph := g' }) hs hn' hp, hline]
        · rw [walk_some hs hn hp, walk_some (E := { E with graph := g' }) hs hn' hp]
          have hless := hroom ▸ E.graph.room_cons_lt hn hp
          exact visitNode_swapped (fun hsite hc => ih _ hless hsite hc rfl)
            (fun _ c _ => walk_of_fault c) (fun _ c _ => walk_of_fault c) hsite hrules h hlive hn
            hswaps List.mem_cons_self s
      · have hsame := h.live hlive hid
        cases hn : E.graph.node? id with
        | none => rw [walk_missing hn, walk_missing (E := { E with graph := g' }) (hsame.trans hn)]
        | some n =>
          have hn' : g'.node? id = some n := hsame.trans hn
          by_cases hp : id ∈ path
          · rw [walk_cyclic hs hn hp, walk_cyclic (E := { E with graph := g' }) hs hn' hp]
          rw [walk_some hs hn hp, walk_some (E := { E with graph := g' }) hs hn' hp]
          have hless := hroom ▸ E.graph.room_cons_lt hn hp
          refine visitNode_congr (fun hsite hc => ih _ hless hsite hc rfl) hsite h.sameBeside
            (fun _ c _ => walk_of_fault c) (fun _ c _ => walk_of_fault c) (id :: path)
            (h.sameBeside.kept_children hn hlive hid) ?_ s
          intro kind init test update each body otherwise hform
          obtain ⟨line, form⟩ := n
          subst hform
          refine classify_swapped h fun t ht => ⟨.child hlive hid ⟨_, hn, ?_⟩, Or.inr ?_⟩
          · exact Graph.mem_present.mpr (by simp [ht])
          · exact hrules.apart hlive hid hn t ht

end

/-! ### Back to the walk -/

/-- The variable that an entry stands for at a point of class `r`. -/
def Entry.stamped (r : Reachable) (e : Entry) : Variable :=
  { home := e.ref.home, name := e.ref.name, line := e.ref.line, reachable := r
    source := e.source, taint := e.taint, escaped := e.escaped, dependents := e.dependents }

/-- The table and the class of the site say what the scope is. -/
theorem Agrees.scope_eq {site : Site} {s : Walk.State} {t : State} (h : Agrees site s t) :
    s.scope = ⟨t.table.home, t.table.name, t.table.entries.map (Entry.stamped site.ambient)⟩ := by
  have hvars : (s.scope.vars.map Variable.plain).map (Entry.stamped site.ambient) = s.scope.vars :=
    calc (s.scope.vars.map Variable.plain).map (Entry.stamped site.ambient)
        = s.scope.vars.map fun v => v.plain.stamped site.ambient := List.map_map
      _ = s.scope.vars.map fun v => v :=
        List.map_congr_left fun v hv => by
          rw [← h.stamped v hv]
          rfl
      _ = s.scope.vars := List.map_id' _
  rw [← h.table]
  show s.scope = ⟨s.scope.home, s.scope.name, (s.scope.vars.map Variable.plain).map _⟩
  rw [hvars]

theorem opening_agrees (name : String) (line : Int) :
    Agrees {} (Walk.opening name line) { table := { name := idText name line } } :=
  ⟨rfl, rfl, fun _ hv => absurd hv List.not_mem_nil, Scope.wellFormed_of_empty rfl, rfl, rfl, rfl⟩

end Lexical

namespace Walk

variable {E : Setting} {g' : Graph} {root cond : NodeId} {side : Side}

/-- **A side that is ruled out has no influence.** Let the test of an `if`, a `for` or a
`while` be judged `never` whatever constants are known, and the conditional not be in the
test of another one. Whatever is put in the place of its body and update, the function is
analysed with the same fault or the same scope. The same goes for what stands in the
opposite branch if the test is judged `always`. -/
theorem dead_side_unseen (hrules : E.graph.RulesOut root cond side)
    (h : E.graph.SwapsSide g' root cond side) :
    (analyzeFunction E (some root)).result =
      (analyzeFunction { E with graph := g' } (some root)).result := by
  by_cases hfn : E.graph.IsFunction root
  · obtain ⟨line, name, params, body, locals, hfn⟩ := hfn
    have hne : root ≠ cond := by
      rintro rfl
      obtain ⟨_, _, _, _, _, _, _, _, hcond, -⟩ := hrules.guard
      cases hfn.symm.trans hcond
    have hfn' : g'.node? root = some ⟨line, .function name params body locals⟩ :=
      (h.live .root hne).trans hfn
    obtain ⟨hparams, hbody⟩ := List.forall_mem_append.mp (h.sameBeside.kept_children hfn .root hne)
    have hv : ∀ {site : Lexical.Site} {c}, site.ambient.Named →
        Kept (E.graph.Live root cond side) c →
        Lexical.walk E [root] site c = Lexical.walk { E with graph := g' } [root] site c :=
      fun hsite hc => Lexical.walk_swapped hrules h hsite hc
    have hagrees := fun E : Setting => Lexical.visitAll_agrees (Lexical.walk_agrees E [root]) body
      (Lexical.visitAll_agrees (Lexical.walk_agrees E [root]) params
        (Lexical.opening_agrees name line))
    have hleft := hagrees E
    have hright := hagrees { E with graph := g' }
    rw [Lexical.visitAll_congr hv Reachable.named_always hparams,
      Lexical.visitAll_congr hv Reachable.named_always hbody] at hleft
    rw [analyzeFunction_result hfn, analyzeFunction_result (E := { E with graph := g' }) hfn',
      hleft.fault, hright.fault, hleft.scope_eq, hright.scope_eq]
  · have hfn' : ¬ g'.IsFunction root := by
      rintro ⟨line, name, params, body, locals, hfn'⟩
      by_cases hroot : root = cond
      · obtain ⟨_, n', _, hn', _, _, hform'⟩ := h.sameBeside.cond
        obtain rfl := Option.some.inj ((hroot ▸ hn').symm.trans hfn')
        obtain ⟨_, _, _, _, _, _, _, hform'⟩ := hform'
        cases hform'
      · exact hfn ⟨line, name, params, body, locals, (h.live .root hroot).symm.trans hfn'⟩
    rw [analyzeFunction_of_missing fun id hid => Option.some.inj hid ▸ hfn,
      analyzeFunction_of_missing (E := { E with graph := g' })
        fun id hid => Option.some.inj hid ▸ hfn']

/-- A loop in a branch, whose variable holds what a source returns and whose test is
`false && c`. The last nodes are not part of the function. -/
def shunning : Graph := ⟨#[
  ⟨1, .function "f" [] [some 1] []⟩,
  ⟨1, .conditional .branch none (some 2) none none (some 3) none⟩, ⟨1, .name "c"⟩,
  ⟨2, .conditional .forLoop (some 4) (some 8) none none none none⟩,
  ⟨2, .assignment "=" (some 5) (some 6)⟩, ⟨2, .name "x"⟩,
  ⟨2, .call (some 7) [] false⟩, ⟨2, .name "retSource"⟩,
  ⟨2, .operation "&&" [some 9, some 2]⟩, ⟨2, .literal .bool "false" false⟩,
  ⟨3, .call (some 11) [some 5] false⟩, ⟨3, .name "sink"⟩,
  ⟨4, .other "block" [some 12, some 3]⟩]⟩

/-- The function with a sink as the body of the loop, and a cycle as its update. -/
def shunned : Graph :=
  ⟨shunning.nodes.set! 3 ⟨2, .conditional .forLoop (some 4) (some 8) (some 12) none (some 10) none⟩⟩

theorem shunning_rulesOut : shunning.RulesOut 0 3 .guarded where
  guard := by
    refine ⟨2, .forLoop, some 4, some 8, none, none, none, none, rfl, by decide, fun consts => ?_⟩
    have hfalse : classify shunning consts [8] (some 9) = ⟨.never, none⟩ := by
      rw [classify_eq]
      rfl
    rw [classify_eq]
    show (classify shunning consts [8] (some 9)).reach.meet
      (classify shunning consts [8] (some 2)).reach = .never
    rw [hfalse, classify_of_name (x := "c") rfl (by decide)]
    rcases consts.truth? "c" with _ | _ | _ <;> rfl
  apart := by
    intro p line kind init test update each body otherwise _ hne hn t ht
    have hother : ∀ p < shunning.size, p ≠ 3 →
        p = 1 ∨ (shunning.node? p).map (·.form.tag) ≠ some "cond" := by decide
    rcases hother p (Graph.lt_size_of_node? hn) hne with rfl | htag
    · obtain rfl : t = 2 := by
        cases hn
        exact (Option.some.inj ht).symm
      intro hin
      rcases Relation.reflTransGen_iff_eq_or_transGen.mp hin with heq | hbelow
      · cases heq
      · exact Graph.not_below_of_childless rfl hbelow
    · rw [hn] at htag
      exact absurd rfl htag

theorem shunned_swapsSide : shunning.SwapsSide shunned 0 3 .guarded where
  swapped := ⟨_, _, rfl, rfl, rfl, .guarded⟩
  live := by
    intro id _ hid
    unfold shunned Graph.node?
    rw [Array.set!_eq_setIfInBounds, Array.getElem?_setIfInBounds_ne hid.symm]

/-- Neither the sink nor the cycle is seen. -/
theorem dead_side_unseen_shunning :
    shunning.RulesOut 0 3 .guarded ∧ shunning.SwapsSide shunned 0 3 .guarded ∧
      (analyzeFunction { graph := shunning } (some 0)).result =
        (analyzeFunction { graph := shunned } (some 0)).result :=
  ⟨shunning_rulesOut, shunned_swapsSide,
    dead_side_unseen (E := { graph := shunning }) shunning_rulesOut shunned_swapsSide⟩

end Walk

end TaintReach
