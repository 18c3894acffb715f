import TaintReach.Proofs.LoopFree.Path
import TaintReach.Proofs.Walk.Step

/-! The states that a walk over loop-free code goes through.

Below a function without cycles the walk raises no fault, comes back to each
site with every stamp as it was, and knows no constant that the function does
not declare. `Steady` says so of a state, and `Steady.move` that steps which
come back to a site keep it. `Carried` relates such a state to a path: the scope
knows every origin of every variable, marked as a source and either the variable
itself or among its dependents. Nothing that is carried is ever lost. -/
namespace TaintReach.LoopFree

open Walk (Setting Steps walk)
open Lexical (Site Agrees)

/-- The walk over `fn` stands at a site, without a fault, and knows no constant that
the function does not declare. -/
structure Steady (E : Setting) (fn : NodeId) (site : Site) (s : Walk.State) : Prop where
  agrees : ∃ t, Agrees site s t
  fault : s.fault = none
  free : ∀ x, (∀ d, E.graph.Within fn d → ¬ DeclaresConst E.graph d x) → s.consts.truth? x = none

/-- The scope knows the origins of every variable. -/
def Carried (O : Origins) (s : Walk.State) : Prop := ∀ x, ∀ z ∈ O x, s.scope.Carries x z

/-- `z` is registered, and a sink was found to meet it. -/
def Reported (s : Scope) (z : String) : Prop :=
  ∃ v, s.lookup? z = some v ∧ v.source = true ∧ Taint.may.rank ≤ v.taint.rank

def Registered (s : Scope) (x : String) : Prop := ∃ v, s.lookup? x = some v

/-- What a field holds is part of `fn`, and the path leads to it. -/
def Reached (g : Graph) (fn : NodeId) (path : List NodeId) (c : Option NodeId) : Prop :=
  ∀ id, c = some id → g.Within fn id ∧ g.Leads path id

/-- Scopes only grow, and with them what they know of origins. -/
theorem Carried.mono {O : Origins} {s t : Walk.State} (h : Carried O s)
    (hgrow : s.scope.Grows t.scope) : Carried O t :=
  fun x z hz => (h x z hz).mono hgrow

theorem Reported.mono {s t : Scope} {z : String} (h : Reported s z) (hgrow : s.Grows t) :
    Reported t z := by
  obtain ⟨v, hv, hsource, htaint⟩ := h
  obtain ⟨w, hw, hvw⟩ := hgrow.lookup? hv
  exact ⟨w, hw, hvw.source hsource, Int.le_trans htaint hvw.taint⟩

theorem Registered.mono {s t : Scope} {x : String} (h : Registered s x) (hgrow : s.Grows t) :
    Registered t x := by
  obtain ⟨v, hv⟩ := h
  obtain ⟨w, hw, _⟩ := hgrow.lookup? hv
  exact ⟨w, hw⟩

theorem Reached.child {g : Graph} {fn p : NodeId} {path : List NodeId} {c : Option NodeId}
    (h : Reached g fn path (some p)) (hc : g.Holds p c) : Reached g fn (p :: path) c := by
  obtain ⟨hwithin, hleads⟩ := h p rfl
  exact fun d hd => ⟨hwithin.below (hc d hd), hleads.below (hc d hd)⟩

/-- A node that is passed through on the way down adds nothing to the path. -/
theorem Reached.below {g : Graph} {fn : NodeId} {path : List NodeId} {c a : Option NodeId}
    {n : Node} (h : Reached g fn path c) (hc : g.at? c = some n)
    (ha : ∀ id, g.node? id = some n → g.Holds id a) : Reached g fn path a := by
  obtain ⟨id, rfl, hnode⟩ := Graph.node?_of_at? hc
  obtain ⟨hwithin, hleads⟩ := h id rfl
  exact fun d hd => ⟨hwithin.below (ha id hnode d hd), fun p hp => (hleads p hp).trans
    (ha id hnode d hd)⟩

theorem registered_lookup (s : Walk.State) (declared : Option (String → Bool)) (x : String)
    (line : Int) : Registered (s.lookup declared x line).scope x := by
  unfold Walk.State.lookup
  cases hx : s.scope.lookup? x with
  | some v => exact ⟨v, hx⟩
  | none =>
    simp only [Registered, Walk.State.tell, Scope.lookup?_add, hx, Option.none_or, if_true]
    exact ⟨_, rfl⟩

/-- Recording a constant presupposes that it is declared. -/
theorem DeclaresConst.of_bindsConst {g : Graph} {d : NodeId} {x : String} {truthy : Bool}
    (h : g.BindsConst d x truthy) : DeclaresConst g d x := by
  obtain ⟨line, bindings, hd, b, hb, bLine, target, init, hbinding, ⟨xLine, hname⟩, _⟩ := h
  refine ⟨line, bindings, hd, b, hb, bLine, target, init, hbinding, ?_⟩
  unfold Graph.name? at hname
  unfold Graph.targetNames
  split at hname
  · rename_i heq
    cases hname
    rw [heq]
    exact List.mem_singleton_self _
  · cases hname

namespace Steady

variable {E : Setting} {fn : NodeId} {site : Site} {s t : Walk.State}

theorem wellFormed (h : Steady E fn site s) : s.scope.WellFormed := by
  obtain ⟨_, ht⟩ := h.agrees
  exact ht.wellFormed

theorem grows (h : Steady E fn site s) (hsteps : Steps E fn s t) : s.scope.Grows t.scope :=
  (hsteps.extends h.wellFormed).grows

section
variable (hacyclic : ¬ E.graph.Cyclic fn)
include hacyclic

/-- Steps that end at a site again leave the walk steady. -/
theorem move {site' : Site} (h : Steady E fn site s) (hsteps : Steps E fn s t)
    (hagrees : ∀ u, Agrees site s u → ∃ u', Agrees site' t u') : Steady E fn site' t := by
  obtain ⟨u, hu⟩ := h.agrees
  refine ⟨hagrees u hu, (hsteps.fault hacyclic).trans h.fault, fun x hx => ?_⟩
  exact hsteps.truth?_eq_none (fun d hd truthy hconst => hx d hd (.of_bindsConst hconst))
    (h.free x hx)

/-- A name that is asked for is stamped as the site tells. -/
theorem register (h : Steady E fn site s) (x : String) (line : Int) :
    Steady E fn site (s.lookup E.declared x line) :=
  h.move hacyclic (.single (.register s x line)) fun _ hu => ⟨_, hu.register x line⟩

theorem bind (h : Steady E fn site s) (x : String) (line : Int) :
    Steady E fn site (s.bind E.declared x line) :=
  h.move hacyclic ((Steps.refl s).bind x line) fun _ hu => ⟨_, hu.bind x line⟩

theorem depend (h : Steady E fn site s) (x y : String) : Steady E fn site (s.depend x y) :=
  h.move hacyclic (.single (.depend s x y)) fun _ hu => ⟨_, hu.depend x y⟩

theorem tell (h : Steady E fn site s) (kind : CondKind) (line : Int) (reach : Reachable) :
    Steady E fn site (s.tell (.guardClassified kind line reach)) :=
  h.move hacyclic (.single (.tell s kind line reach)) fun _ hu => ⟨_, hu.tell _⟩

theorem enter (h : Steady E fn site s) (r : Reachable) :
    Steady E fn { site with ambient := r } (s.enter r) :=
  h.move hacyclic (.single (.enter s r)) fun _ hu => ⟨_, hu.enter r⟩

theorem define (h : Steady E fn site s) (x : Option String) :
    Steady E fn { site with defining := x } { s with defining := x } :=
  h.move hacyclic (.single (.define s x)) fun _ hu =>
    ⟨_, hu.ambient, rfl, hu.stamped, hu.wellFormed, hu.table, hu.consts, hu.fault⟩

/-- A walk comes back to the site that it started from. -/
theorem visit {path : List NodeId} {c : Option NodeId} (h : Steady E fn site s)
    (hc : Reached E.graph fn path c) : Steady E fn site (walk E path c s) :=
  h.move hacyclic (Walk.walk_steps hc s) fun u hu => ⟨_, Lexical.walk_agrees E path site c s u hu⟩

end

end Steady

section
variable {E : Setting} {fn : NodeId} (hacyclic : ¬ E.graph.Cyclic fn)
include hacyclic

/-- Where there is no cycle, a walk goes by the rule of the node. -/
theorem walk_at {site : Site} {s : Walk.State} {path : List NodeId} {c : Option NodeId} {n : Node}
    (hs : Steady E fn site s) (hc : Reached E.graph fn path c) (hn : E.graph.at? c = some n) :
    ∃ id, c = some id ∧ E.graph.node? id = some n ∧
      walk E path c s = Walk.visitNode E (id :: path) (walk E (id :: path)) n s := by
  obtain ⟨id, rfl, hnode⟩ := Graph.node?_of_at? hn
  obtain ⟨hwithin, hleads⟩ := hc id rfl
  refine ⟨id, rfl, hnode, Walk.walk_some hs.fault hnode fun hmem => hacyclic ?_⟩
  exact ⟨id, hwithin, hleads id hmem⟩

/-- One walk after the other, each from the same site. -/
theorem Steady.visits {site : Site} {s : Walk.State} {path : List NodeId}
    {cs : List (Option NodeId)} (hs : Steady E fn site s)
    (hc : ∀ c ∈ cs, Reached E.graph fn path c) :
    Steady E fn site (Walk.visitAll (walk E path) cs s) ∧
      s.scope.Grows (Walk.visitAll (walk E path) cs s).scope := by
  have hsteps : Steps E fn s (Walk.visitAll (walk E path) cs s) :=
    (Steps.refl s).foldl cs fun s c h => Walk.walk_steps (hc c h) s
  exact ⟨hs.move hacyclic hsteps fun u hu =>
    ⟨_, Lexical.visitAll_agrees (Lexical.walk_agrees E path) cs hu⟩, hs.grows hsteps⟩

/-- What is being defined is put back afterwards, so the site is the same again. -/
theorem Steady.route {path : List NodeId} {v : Option NodeId} {site : Site} {s : Walk.State}
    (hs : Steady E fn site s) (hv : Reached E.graph fn path v) (x : Option String) :
    Steady E fn site (s.route x (walk E path v)) ∧
      s.scope.Grows (s.route x (walk E path v)).scope := by
  have hsteps : Steps E fn s (s.route x (walk E path v)) :=
    (Steps.refl s).route x fun s => Walk.walk_steps hv s
  exact ⟨hs.move hacyclic hsteps fun u hu =>
    ⟨_, hu.route x fun s t => Lexical.walk_agrees E path _ v s t⟩, hs.grows hsteps⟩

theorem Steady.assign {path : List NodeId} {t v : Option NodeId} {site : Site} {s : Walk.State}
    (hs : Steady E fn site s) {p : NodeId} (hp : Reached E.graph fn path (some p))
    (ht : E.graph.Holds p t) (hv : E.graph.Holds p v) :
    Steady E fn site (Walk.assign E (walk E (p :: path)) t v s).2 ∧
      s.scope.Grows (Walk.assign E (walk E (p :: path)) t v s).2.scope := by
  have hsteps : Steps E fn s (Walk.assign E (walk E (p :: path)) t v s).2 :=
    Walk.assign_steps (fun c hc s => Walk.walk_steps (hp.child hc) s) ht hv s
  exact ⟨hs.move hacyclic hsteps fun u hu =>
    ⟨_, (Lexical.assign_agrees (Lexical.walk_agrees E (p :: path)) t v hu).2⟩, hs.grows hsteps⟩

theorem Steady.methodCall {site : Site} {s : Walk.State} (hs : Steady E fn site s)
    (callee : Option NodeId) (args : List (Option NodeId)) :
    Steady E fn site (Walk.methodCall E callee args s) ∧
      s.scope.Grows (Walk.methodCall E callee args s).scope := by
  have hsteps : Steps E fn s (Walk.methodCall E callee args s) :=
    Walk.methodCall_steps callee args s
  exact ⟨hs.move hacyclic hsteps fun u hu => ⟨_, Lexical.methodCall_agrees callee args hu⟩,
    hs.grows hsteps⟩

end

end TaintReach.LoopFree
