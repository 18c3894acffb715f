import TaintReach.Proofs.Tree.Layout
import TaintReach.Proofs.Walk.Step
import TaintReach.Script.Reading

/-! What walking an expression leaves of the constants.

Outside nested functions, which no walk enters, an expression declares nothing and
guards nothing (`Tree.Quiet`). So walking one classifies no condition, and a constant
that is known behind it was known before it (`walk_fades`). A binding is quiet as
well: that its target is a constant with a literal value is recorded by the
declaration around it. What a binding or an assignment binds is forgotten
(`assign_forgets`). -/
namespace TaintReach

mutual

/-- Outside functions the tree has no declaration and no condition. -/
def Tree.Quiet : Tree → Prop
  | .function .. | .name .. | .thisRef _ | .literal .. => True
  | .declaration .. | .conditional .. | .switch .. | .clause .. | .tryCatch .. => False
  | .binding _ target init => Quiet? target ∧ Quiet? init
  | .assignment _ _ target value => target.Quiet ∧ value.Quiet
  | .pattern _ _ defaults => QuietAll defaults
  | .call _ callee args _ => callee.Quiet ∧ QuietAll args
  | .member _ object property _ => object.Quiet ∧ Quiet? property
  | .composite _ _ parts | .operation _ _ parts | .other _ _ parts => QuietAll parts

def QuietAll : List Tree → Prop
  | [] => True
  | t :: ts => t.Quiet ∧ QuietAll ts

def Quiet? : Option Tree → Prop
  | none => True
  | some t => t.Quiet

end

namespace Graph

variable {g : Graph}

/-- What stands in the field is quiet. -/
def Silent (g : Graph) (c : Option NodeId) : Prop :=
  ∀ id, c = some id → ∃ t, g.Shows t id ∧ t.Quiet

theorem Shows.silent {t : Tree} {id : NodeId} (h : g.Shows t id) (ht : t.Quiet) :
    g.Silent (some id) := by
  rintro _ ⟨⟩
  exact ⟨t, h, ht⟩

theorem Shows?.silent {t : Option Tree} {c : Option NodeId} (h : g.Shows? t c) (ht : Quiet? t) :
    g.Silent c := by
  cases t with
  | none =>
    obtain rfl : c = none := h
    exact fun _ hc => by cases hc
  | some t =>
    obtain ⟨id, rfl, h⟩ := h
    exact h.silent ht

theorem ShowsAll.silent {ts : List Tree} {ids : List (Option NodeId)} (h : g.ShowsAll ts ids)
    (ht : QuietAll ts) : ∀ c ∈ ids, g.Silent c := by
  induction ts generalizing ids with
  | nil =>
    obtain rfl : ids = [] := h
    exact fun _ hc => by cases hc
  | cons t ts ih =>
    obtain ⟨id, rest, rfl, hfirst, hrest⟩ := h
    exact List.forall_mem_cons.mpr ⟨hfirst.silent ht.1, ih hrest ht.2⟩

theorem ShowsNames.silent {names : List (Int × String)} {ids : List NodeId}
    (h : g.ShowsNames names ids) : ∀ c ∈ ids.map some, g.Silent c := by
  induction h with
  | nil => exact fun _ hc => by cases hc
  | @cons name id _ _ hn _ ih =>
    have hname : g.Shows (.name name.1 name.2) id := hn
    exact List.forall_mem_cons.mpr ⟨hname.silent trivial, ih⟩

theorem silent_present {fields : List (Option NodeId)} (h : ∀ c ∈ fields, g.Silent c) :
    ∀ c ∈ present fields, g.Silent c :=
  fun c hc => h c (List.mem_of_mem_filter hc)

end Graph

/-- Neither a declaration nor a condition. -/
def Form.Quiet : Form → Prop
  | .declaration .. | .conditional .. | .switch .. => False
  | _ => True

/-- A function, or no declaration and no condition and nothing but quiet sub-nodes. -/
theorem Graph.Silent.node {g : Graph} {id : NodeId} {n : Node} (h : g.Silent (some id))
    (hn : g.node? id = some n) : (∃ name params body locals, n.form = .function name params body locals) ∨
      n.form.Quiet ∧ ∀ c ∈ n.form.children, g.Silent c := by
  obtain ⟨t, hshows, ht⟩ := h id rfl
  cases t with
  | function =>
    obtain ⟨_, _, hnode, _, _⟩ := hshows
    obtain rfl := Option.some.inj (hn.symm.trans hnode)
    exact .inl ⟨_, _, _, _, rfl⟩
  | declaration => exact ht.elim
  | conditional => exact ht.elim
  | switch => exact ht.elim
  | clause => exact ht.elim
  | tryCatch => exact ht.elim
  | name | thisRef | literal =>
    obtain rfl := Option.some.inj (hn.symm.trans hshows)
    exact .inr ⟨trivial, fun _ hc => by cases hc⟩
  | binding =>
    obtain ⟨_, _, hnode, htarget, hinit⟩ := hshows
    obtain rfl := Option.some.inj (hn.symm.trans hnode)
    exact .inr ⟨trivial, silent_present (List.forall_mem_cons.mpr
      ⟨htarget.silent ht.1, List.forall_mem_singleton.mpr (hinit.silent ht.2)⟩)⟩
  | assignment =>
    obtain ⟨_, _, hnode, htarget, hvalue⟩ := hshows
    obtain rfl := Option.some.inj (hn.symm.trans hnode)
    exact .inr ⟨trivial, silent_present (List.forall_mem_cons.mpr
      ⟨htarget.silent ht.1, List.forall_mem_singleton.mpr (hvalue.silent ht.2)⟩)⟩
  | pattern =>
    obtain ⟨_, _, hnode, hnames, hdefaults⟩ := hshows
    obtain rfl := Option.some.inj (hn.symm.trans hnode)
    exact .inr ⟨trivial, fun c hc =>
      (List.mem_append.mp hc).elim (hnames.silent c) (hdefaults.silent ht c)⟩
  | call =>
    obtain ⟨_, _, hnode, hcallee, hargs⟩ := hshows
    obtain rfl := Option.some.inj (hn.symm.trans hnode)
    exact .inr ⟨trivial, List.forall_mem_cons.mpr ⟨hcallee.silent ht.1, hargs.silent ht.2⟩⟩
  | member =>
    obtain ⟨_, _, hnode, hobject, hproperty⟩ := hshows
    obtain rfl := Option.some.inj (hn.symm.trans hnode)
    exact .inr ⟨trivial, silent_present (List.forall_mem_cons.mpr
      ⟨hobject.silent ht.1, List.forall_mem_singleton.mpr (hproperty.silent ht.2)⟩)⟩
  | composite | operation | other =>
    obtain ⟨_, hnode, hparts⟩ := hshows
    obtain rfl := Option.some.inj (hn.symm.trans hnode)
    exact .inr ⟨trivial, hparts.silent ht⟩

namespace Walk

/-! ### Forgetting and recording -/

namespace Consts

variable {c : Consts} {x y : String} {b truthy : Bool}

theorem truth?_forget_self (c : Consts) (x : String) : (c.forget x).truth? x = none := by
  unfold truth? forget
  rw [List.lookup_eq_none_iff]
  intro p hp
  have hne := of_decide_eq_true (List.mem_filter.mp hp).2
  exact bne_iff_ne.mpr (Ne.symm hne)

/-- What is known after forgetting a name was known before. -/
theorem truth?_of_forget (h : (c.forget y).truth? x = some b) : c.truth? x = some b := by
  unfold truth? forget at *
  induction c with
  | nil => exact h
  | cons p c ih =>
    obtain ⟨z, t⟩ := p
    by_cases hz : z = y
    · have hx : x ≠ y := by
        rintro rfl
        have hnone := truth?_forget_self ((z, t) :: c) x
        unfold truth? forget at hnone
        rw [hnone] at h
        cases h
      rw [List.lookup_cons, beq_false_of_ne (fun hxz => hx (hxz.trans hz))]
      refine ih ?_
      rwa [List.filter_cons_of_neg (by simp [hz])] at h
    · rw [List.filter_cons_of_pos (by simp [hz]), List.lookup_cons] at h
      rw [List.lookup_cons]
      split at h
      · exact h
      · exact ih h

/-- What is known after recording a name is that name, or it was known before. -/
theorem truth?_of_record (h : (c.record y truthy).truth? x = some b) :
    x = y ∧ b = truthy ∨ x ≠ y ∧ c.truth? x = some b := by
  unfold record at h
  by_cases hx : x = y
  · subst hx
    rw [truth?, List.lookup_cons_self] at h
    exact .inl ⟨rfl, (Option.some.inj h).symm⟩
  · rw [truth?, List.lookup_cons, beq_false_of_ne hx] at h
    exact .inr ⟨hx, truth?_of_forget h⟩

end Consts

/-! ### Fading -/

/-- No constant has become known, and no condition was classified. -/
structure Fades (s t : State) : Prop where
  truth : ∀ {x b}, t.consts.truth? x = some b → s.consts.truth? x = some b
  told : ∀ {kind line r}, .guardClassified kind line r ∈ t.events →
    .guardClassified kind line r ∈ s.events

namespace Fades

variable {s t u : State}

theorem refl (s : State) : Fades s s := ⟨id, id⟩

theorem trans (h : Fades s t) (k : Fades t u) : Fades s u :=
  ⟨fun hx => h.truth (k.truth hx), fun he => h.told (k.told he)⟩

/-- An unknown name stays unknown. -/
theorem unknown (h : Fades s t) {x : String} (hx : s.consts.truth? x = none) :
    t.consts.truth? x = none := by
  cases ht : t.consts.truth? x with
  | none => rfl
  | some b => rw [h.truth ht] at hx; cases hx

theorem of_same (hconsts : t.consts = s.consts) (hevents : t.events = s.events) : Fades s t :=
  ⟨fun hx => hconsts ▸ hx, fun he => hevents ▸ he⟩

/-- Telling of something else than a condition. -/
theorem of_told {e : Event} (hconsts : t.consts = s.consts) (hevents : t.events = e :: s.events)
    (he : ∀ kind line r, e ≠ .guardClassified kind line r) : Fades s t := by
  refine ⟨fun hx => hconsts ▸ hx, fun hmem => ?_⟩
  rw [hevents] at hmem
  rcases List.mem_cons.mp hmem with h | h
  · exact absurd h.symm (he _ _ _)
  · exact h

theorem lookup (s : State) (declared : Option (String → Bool)) (ident : String) (line : Int) :
    Fades s (s.lookup declared ident line) := by
  unfold State.lookup
  split
  · exact refl s
  · exact of_told rfl rfl nofun

theorem bind (s : State) (declared : Option (String → Bool)) (ident : String) (line : Int) :
    Fades s (s.bind declared ident line) := by
  have hforget : Fades s { s with consts := s.consts.forget ident } :=
    ⟨fun hx => Consts.truth?_of_forget hx, id⟩
  exact hforget.trans (lookup _ declared ident line)

theorem depend (s : State) (x y : String) : Fades s (s.depend x y) := of_same rfl rfl

theorem dependDefining (s : State) (y : String) : Fades s (s.dependDefining y) := by
  unfold State.dependDefining
  split
  · exact refl s
  · exact depend s _ y

theorem markSource (s : State) (line : Int) : Fades s (s.markSource line) := by
  unfold State.markSource
  split
  · exact refl s
  · exact of_told rfl rfl nofun

theorem promote (s : State) (r : Reachable) (v : Variable) {e : Variable → Event}
    (he : ∀ v kind line r, e v ≠ .guardClassified kind line r) : Fades s (s.promote r v e) := by
  unfold State.promote
  split
  · exact refl s
  · exact of_told rfl rfl (he _)

theorem foldl {α : Type} (xs : List α) {f : State → α → State} (hf : ∀ s, ∀ x ∈ xs, Fades s (f s x))
    (s : State) : Fades s (xs.foldl f s) := by
  induction xs generalizing s with
  | nil => exact refl s
  | cons x xs ih =>
    exact (hf s x List.mem_cons_self).trans (ih (fun s y hy => hf s y (List.mem_cons_of_mem x hy)) _)

theorem sink (s : State) (x : String) (line : Int) : Fades s (s.sink x line) := by
  unfold State.sink
  split
  · exact refl s
  · refine (promote s _ _ (by simp)).trans (foldl _ (fun t d _ => ?_) _)
    split
    · split
      · exact promote t _ _ (by simp)
      · exact refl t
    · exact refl t

theorem route (s : State) (name : Option String) {f : State → State} (hf : ∀ s, Fades s (f s)) :
    Fades s (s.route name f) := by
  have hdefine : Fades s { s with defining := name } := of_same rfl rfl
  exact (hdefine.trans (hf _)).trans (of_same rfl rfl)

end Fades

/-! ### Quiet nodes -/

section
variable {E : Setting} {visit : Visit}
  (hv : ∀ c, E.graph.Silent c → ∀ s, Fades s (visit c s))
include hv

theorem visitAll_fades {children : List (Option NodeId)} (hc : ∀ c ∈ children, E.graph.Silent c)
    (s : State) : Fades s (visitAll visit children s) :=
  .foldl children (fun s c h => hv c (hc c h) s) s

/-- Binding one name of a pattern. -/
theorem bindName_fades {value : Option NodeId} (hval : E.graph.Silent value) (n : NodeId)
    (s : State) : Fades s (match E.graph.name? (some n) with
      | some (ident, line) => (s.bind E.declared ident line).route (some ident) (visit value)
      | none => s) := by
  split
  · exact (Fades.bind s _ _ _).trans (.route _ _ (hv value hval))
  · exact .refl s

theorem assign_fades {target value : Option NodeId} (ht : E.graph.Silent target)
    (hval : E.graph.Silent value) (s : State) : Fades s (assign E visit target value s).2 := by
  have hvalue := hv value hval
  have hboth : Fades s (visit value (visit target s)) := (hv target ht s).trans (hvalue _)
  unfold assign
  rcases hat : E.graph.at? target with _ | ⟨line, form⟩
  · exact hboth
  obtain ⟨id, rfl, hn⟩ := Graph.node?_of_at? hat
  cases form with
  | name ident => exact (Fades.bind s _ _ _).trans (.route _ _ hvalue)
  | pattern names defaults =>
    have hdefaults : ∀ d ∈ defaults, E.graph.Silent d := by
      rcases ht.node hn with ⟨_, _, _, _, hform⟩ | ⟨_, hchildren⟩
      · cases hform
      · exact fun d hd => hchildren d (List.mem_append_right _ hd)
    have hempty : Fades s (if names = [] then s.route none (visit value) else s) := by
      split
      · exact .route s none hvalue
      · exact .refl s
    exact (hempty.trans (.foldl names (fun s n _ => bindName_fades hv hval n s) _)).trans
      (.foldl defaults (fun s d hd => .route s none (hv d (hdefaults d hd))) _)
  | member object property propName computed =>
    have hproperty : E.graph.Silent property := by
      rcases ht.node hn with ⟨_, _, _, _, hform⟩ | ⟨_, hchildren⟩
      · cases hform
      · intro d hd
        exact hchildren property (List.mem_filter.mpr ⟨by simp, by rw [hd]; rfl⟩) d hd
    rcases E.graph.root? (some id) with _ | ⟨ident, rootLine⟩
    · exact hboth
    have hroot : Fades s
        (if computed then (s.lookup E.declared ident rootLine).route none (visit property)
          else s.lookup E.declared ident rootLine) := by
      split
      · exact (Fades.lookup s _ _ _).trans (.route _ none (hv property hproperty))
      · exact .lookup s _ _ _
    simp only
    rcases E.graph.name? value with _ | ⟨on, onLine⟩
    · exact hroot.trans (.route _ _ hvalue)
    · exact (hroot.trans (.lookup _ _ on onLine)).trans (.depend _ ident on)
  | _ => exact hboth

theorem call_fades {callee : Option NodeId} {args : List (Option NodeId)}
    (hcallee : E.graph.Silent callee) (hargs : ∀ a ∈ args, E.graph.Silent a) (line : Int)
    (isNew : Bool) (s : State) : Fades s (call E visit line callee args isNew s) := by
  have hmethod : Fades s (methodCall E callee args s) := by
    unfold methodCall
    split
    · refine (Fades.lookup s _ _ _).trans (.foldl args (fun s a _ => ?_) _)
      split
      · exact (Fades.lookup s _ _ _).trans (.depend _ _ _)
      · exact .refl s
    · exact .refl s
  unfold call
  split
  · split
    · split
      · exact .markSource s line
      · exact .refl s
    split
    · split
      · split
        · exact (Fades.lookup s _ _ _).trans (.sink _ _ line)
        · exact .refl s
      · exact .refl s
    · exact visitAll_fades hv hargs s
  · exact (hmethod.trans (hv callee hcallee _)).trans (visitAll_fades hv hargs _)

theorem visitNode_fades {path : List NodeId} {n : Node} (hform : n.form.Quiet)
    (hchild : ∀ c ∈ n.form.children, E.graph.Silent c) (s : State) :
    Fades s (visitNode E path visit n s) := by
  obtain ⟨line, form⟩ := n
  have hsides : ∀ t v, form.children = present [t, v] → E.graph.Silent t ∧ E.graph.Silent v := by
    intro t v hsides
    have hside : ∀ c ∈ [t, v], E.graph.Silent c := fun c hc d hd =>
      hchild c (hsides ▸ List.mem_filter.mpr ⟨hc, by rw [hd]; rfl⟩) d hd
    exact ⟨hside t (by simp), hside v (by simp)⟩
  unfold visitNode
  cases form with
  | function _ _ _ _ => exact .refl s
  | declaration _ _ => exact hform.elim
  | conditional _ _ _ _ _ _ _ => exact hform.elim
  | switch _ _ => exact hform.elim
  | binding target init =>
    obtain ⟨htarget, hinit⟩ := hsides target init rfl
    exact assign_fades hv htarget hinit s
  | assignment _ target value =>
    obtain ⟨htarget, hvalue⟩ := hsides target value rfl
    have hassign := assign_fades hv htarget hvalue s
    simp only
    split
    · rename_i v t heq
      rw [heq] at hassign
      exact hassign.trans (.dependDefining t v)
    · rename_i t heq
      rw [heq] at hassign
      exact hassign
  | name ident =>
    simp only
    split
    · exact .refl s
    · exact (Fades.lookup s _ ident line).trans (.dependDefining _ ident)
  | call callee args isNew =>
    exact call_fades hv (hchild callee List.mem_cons_self)
      (fun a ha => hchild a (List.mem_cons_of_mem _ ha)) line isNew s
  | _ => exact visitAll_fades hv hchild s

end

/-- **Walking what is quiet teaches no constant and classifies no condition.** -/
theorem walk_fades {E : Setting} {path : List NodeId} {c : Option NodeId} (hc : E.graph.Silent c)
    (s : State) : Fades s (walk E path c s) := by
  induction hroom : E.graph.room path using Nat.strongRecOn generalizing path c s with
  | _ n ih =>
    cases c with
    | none =>
      rw [walk_none]
      exact .refl s
    | some id =>
      rcases hs : s.fault with _ | f
      · rcases hn : E.graph.node? id with _ | node
        · rw [walk_missing hn]
          exact .refl s
        by_cases hp : id ∈ path
        · rw [walk_cyclic hs hn hp]
          exact .of_same rfl rfl
        · rw [walk_some hs hn hp]
          rcases hc.node hn with ⟨_, _, _, _, hform⟩ | ⟨hform, hchildren⟩
          · rw [visitNode, hform]
            exact .refl s
          · have hless := E.graph.room_cons_lt hn hp
            exact visitNode_fades (fun c hsilent s => ih _ (hroom ▸ hless) hsilent s rfl) hform
              hchildren s
      · rw [walk_of_fault _ (by rw [hs]; rfl)]
        exact .refl s

/-! ### What a binding forgets -/

theorem unknown_bind (s : State) (declared : Option (String → Bool)) (x : String) (line : Int) :
    (s.bind declared x line).consts.truth? x = none := by
  unfold State.bind
  rw [(sameBeside_lookup _ declared x line).consts]
  exact Consts.truth?_forget_self s.consts x

theorem unknown_foldl {α : Type} {xs : List α} {f : State → α → State} {x : String} {a : α}
    (hf : ∀ s, ∀ y ∈ xs, Fades s (f s y)) (ha : a ∈ xs)
    (hx : ∀ s, (f s a).consts.truth? x = none) (s : State) :
    (xs.foldl f s).consts.truth? x = none := by
  induction xs generalizing s with
  | nil => cases ha
  | cons y xs ih =>
    have hrest : ∀ s, ∀ z ∈ xs, Fades s (f s z) := fun s z hz => hf s z (List.mem_cons_of_mem y hz)
    rcases List.mem_cons.mp ha with rfl | ha
    · exact (Fades.foldl xs hrest _).unknown (hx s)
    · exact ih hrest ha _

/-- What a binding or an assignment binds is no known constant behind it. -/
theorem assign_forgets {E : Setting} {visit : Visit}
    (hv : ∀ c, E.graph.Silent c → ∀ s, Fades s (visit c s)) {target value : Option NodeId}
    (ht : E.graph.Silent target) (hval : E.graph.Silent value) {x : String} {xLine : Int}
    (hx : (x, xLine) ∈ E.graph.targetNames target) (s : State) :
    (assign E visit target value s).2.consts.truth? x = none := by
  have hroute : ∀ (s : State) (line : Int), ((s.bind E.declared x line).route (some x)
      (visit value)).consts.truth? x = none := fun s line =>
    (Fades.route _ _ (hv value hval)).unknown (unknown_bind s E.declared x line)
  unfold Graph.targetNames at hx
  unfold assign
  rcases hat : E.graph.at? target with _ | ⟨line, form⟩
  · rw [hat] at hx
    cases hx
  rw [hat] at hx
  obtain ⟨id, rfl, hn⟩ := Graph.node?_of_at? hat
  cases form with
  | name ident =>
    obtain ⟨rfl, rfl⟩ := Prod.mk.inj (List.mem_singleton.mp hx)
    exact hroute s xLine
  | pattern names defaults =>
    obtain ⟨n, hmem, hname⟩ := List.mem_filterMap.mp hx
    have hdefaults : ∀ d ∈ defaults, E.graph.Silent d := by
      rcases ht.node hn with ⟨_, _, _, _, hform⟩ | ⟨_, hchildren⟩
      · cases hform
      · exact fun d hd => hchildren d (List.mem_append_right _ hd)
    refine (Fades.foldl defaults (fun s d hd => .route s none (hv d (hdefaults d hd))) _).unknown ?_
    refine unknown_foldl (fun s n _ => bindName_fades hv hval n s) hmem (fun s => ?_) _
    simp only [hname]
    exact hroute s xLine
  | _ => cases hx

end Walk

/-! ### Expressions are quiet -/

theorem quietAll_append {ts us : List Tree} (ht : QuietAll ts) (hu : QuietAll us) :
    QuietAll (ts ++ us) := by
  induction ts with
  | nil => exact hu
  | cons t ts ih => exact ⟨ht.1, ih ht.2⟩

namespace Script

mutual

theorem Expr.quiet_tree (given : String) : (e : Expr) → (e.tree given).Quiet
  | .identifier .. | .thisRef _ | .null _ | .boolean .. | .number .. | .string .. | .regexp .. =>
    trivial
  | .template _ none _ [] => trivial
  | .template _ none _ (e :: es) => Expr.quiet_trees (e :: es)
  | .template _ (some tag) _ holes => ⟨tag.quiet_tree anonymous, Expr.quiet_trees holes⟩
  | .array _ items _ => Expr.quiet_trees items
  | .gap | .privateDot _ | .superRef _ | .privateName _ | .newTarget _ => trivial
  | .spread e | .chain e | .optional e => e.quiet_tree anonymous
  | .object _ properties => Property.quiet_trees properties
  | .assign _ target value => ⟨target.quiet_tree, value.quiet_tree target.label⟩
  | .binary _ left right => ⟨left.quiet_tree anonymous, right.quiet_tree anonymous, trivial⟩
  | .unary _ _ e | .postfixOp _ e | .await _ e => ⟨e.quiet_tree anonymous, trivial⟩
  | .call callee args | .construct _ callee args =>
    ⟨callee.quiet_tree anonymous, Expr.quiet_trees args⟩
  | .dot object _ => ⟨object.quiet_tree anonymous, trivial⟩
  | .bracket object key => ⟨object.quiet_tree anonymous, key.quiet_tree anonymous⟩
  | .ternary test yes no => ⟨test.quiet_tree anonymous, yes.quiet_tree anonymous,
    no.quiet_tree anonymous, trivial⟩
  | .sequence items => Expr.quiet_trees items
  | .function (.mk ..) | .arrow (.mk ..) => trivial
  | .classExpr c => c.quiet_tree
  | .yield _ none => trivial
  | .yield _ (some e) => ⟨e.quiet_tree anonymous, trivial⟩

theorem Expr.quiet_trees : (es : List Expr) → QuietAll (Expr.trees es)
  | [] => trivial
  | e :: es => by
    have hes := Expr.quiet_trees es
    have he := e.quiet_tree anonymous
    cases e with
    | gap => exact hes
    | _ => exact ⟨he, hes⟩

theorem Property.quiet_trees : (ps : List Property) → QuietAll (Property.trees ps)
  | [] => trivial
  | .keyed (.computed key) value _ :: ps =>
    ⟨key.quiet_tree anonymous, value.quiet_tree _, Property.quiet_trees ps⟩
  | .keyed (.text _) value _ :: ps | .keyed (.number _) value _ :: ps | .keyed .hidden value _ :: ps =>
    ⟨value.quiet_tree _, Property.quiet_trees ps⟩
  | .short _ _ none :: ps => ⟨trivial, Property.quiet_trees ps⟩
  | .short _ _ (some e) :: ps => ⟨trivial, e.quiet_tree anonymous, Property.quiet_trees ps⟩
  | .spread e :: ps => ⟨e.quiet_tree anonymous, Property.quiet_trees ps⟩

theorem Pattern.quiet_tree : (p : Pattern) → p.tree.Quiet
  | .name .. => trivial
  | .member e => e.quiet_tree anonymous
  | .withDefault target value =>
    quietAll_append target.quiet_defaults ⟨value.quiet_tree anonymous, trivial⟩
  | .array _ elements rest =>
    quietAll_append (quiet_defaultsOfElements elements) (quiet_defaultsOfRest rest)
  | .object _ properties rest =>
    quietAll_append (quiet_defaultsOfProperties properties) (quiet_defaultsOfRest rest)

theorem Pattern.quiet_defaults : (p : Pattern) → QuietAll p.defaults
  | .name .. | .member _ => trivial
  | .withDefault target value =>
    quietAll_append target.quiet_defaults ⟨value.quiet_tree anonymous, trivial⟩
  | .array _ elements rest =>
    quietAll_append (quiet_defaultsOfElements elements) (quiet_defaultsOfRest rest)
  | .object _ properties rest =>
    quietAll_append (quiet_defaultsOfProperties properties) (quiet_defaultsOfRest rest)

theorem quiet_defaultsOfElements : (ps : List Pattern) → QuietAll (defaultsOfElements ps)
  | [] => trivial
  | p :: ps => quietAll_append p.quiet_defaults (quiet_defaultsOfElements ps)

theorem quiet_defaultsOfProperties :
    (ps : List PatternProperty) → QuietAll (defaultsOfProperties ps)
  | [] => trivial
  | .short _ _ none :: ps => quiet_defaultsOfProperties ps
  | .short _ _ (some e) :: ps => ⟨e.quiet_tree anonymous, quiet_defaultsOfProperties ps⟩
  | .keyed _ value :: ps => quietAll_append value.quiet_defaults (quiet_defaultsOfProperties ps)

theorem quiet_defaultsOfRest : (rest : Option Pattern) → QuietAll (defaultsOfRest rest)
  | none => trivial
  | some p => p.quiet_defaults

theorem Class.quiet_tree : (c : Class) → c.tree.Quiet
  | .mk _ _ none members => Member.quiet_trees members
  | .mk _ _ (some e) members => ⟨e.quiet_tree anonymous, Member.quiet_trees members⟩

theorem Member.quiet_trees : (ms : List Member) → QuietAll (Member.trees ms)
  | [] => trivial
  | .method _ (.mk ..) :: ms => ⟨trivial, Member.quiet_trees ms⟩
  | .field _ none :: ms | .staticBlock _ :: ms => Member.quiet_trees ms
  | .field key (some e) :: ms => ⟨e.quiet_tree key.label, Member.quiet_trees ms⟩

end

end Script

end TaintReach
