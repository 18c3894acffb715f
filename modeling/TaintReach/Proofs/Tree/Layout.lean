import Mathlib.Data.List.Forall2
import TaintReach.Proofs.Walk.Cycle
import TaintReach.Tree

/-! Trees in a graph.

A graph shows a tree at a node if the nodes from there down have the forms of the
tree (`Graph.Shows`). Laying a tree down makes a graph show it, and nothing that
is laid down later changes that (`lays_place`), so a program shows the trees it is
made of (`Program.shows_ofTrees`). Below a node that shows a tree every way down
comes to an end (`Shows.founded`), whatever else the graph holds. -/
namespace TaintReach

namespace Graph

/-- The nodes hold these names, in order. -/
def ShowsNames (g : Graph) (names : List (Int × String)) (ids : List NodeId) : Prop :=
  List.Forall₂ (fun name id => g.node? id = some ⟨name.1, .name name.2⟩) names ids

mutual

/-- The graph holds a tree at this node. -/
def Shows (g : Graph) : Tree → NodeId → Prop
  | .function line name params body locals, id => ∃ ps bs,
    g.node? id = some ⟨line, .function name ps bs locals⟩ ∧ g.ShowsAll params ps ∧ g.ShowsAll body bs
  | .declaration line kind bindings, id => ∃ bs : List NodeId,
    g.node? id = some ⟨line, .declaration kind bs⟩ ∧ g.ShowsAll bindings (bs.map some)
  | .binding line target init, id => ∃ t i,
    g.node? id = some ⟨line, .binding t i⟩ ∧ g.Shows? target t ∧ g.Shows? init i
  | .assignment line operator target value, id => ∃ t v,
    g.node? id = some ⟨line, .assignment operator (some t) (some v)⟩ ∧
      g.Shows target t ∧ g.Shows value v
  | .name line ident, id => g.node? id = some ⟨line, .name ident⟩
  | .pattern line names defaults, id => ∃ ns ds,
    g.node? id = some ⟨line, .pattern ns ds⟩ ∧ g.ShowsNames names ns ∧ g.ShowsAll defaults ds
  | .thisRef line, id => g.node? id = some ⟨line, .thisRef⟩
  | .call line callee args isNew, id => ∃ c as,
    g.node? id = some ⟨line, .call (some c) as isNew⟩ ∧ g.Shows callee c ∧ g.ShowsAll args as
  | .member line object property propName, id => ∃ o p,
    g.node? id = some ⟨line, .member (some o) p propName p.isSome⟩ ∧
      g.Shows object o ∧ g.Shows? property p
  | .conditional line kind init test update each body otherwise, id => ∃ i t u e b o,
    g.node? id = some ⟨line, .conditional kind i t u e b o⟩ ∧ g.Shows? init i ∧ g.Shows? test t ∧
      g.Shows? update u ∧ g.Shows? each e ∧ g.Shows? body b ∧ g.Shows? otherwise o
  | .switch line discriminant clauses, id => ∃ d, ∃ cs : List NodeId,
    g.node? id = some ⟨line, .switch (some d) cs⟩ ∧
      g.Shows discriminant d ∧ g.ShowsAll clauses (cs.map some)
  | .clause line test body, id => ∃ t bs,
    g.node? id = some ⟨line, .clause t bs⟩ ∧ g.Shows? test t ∧ g.ShowsAll body bs
  | .literal line kind raw truthy, id => g.node? id = some ⟨line, .literal kind raw truthy⟩
  | .composite line array elements, id => ∃ es,
    g.node? id = some ⟨line, .composite array es⟩ ∧ g.ShowsAll elements es
  | .operation line operator operands, id => ∃ os,
    g.node? id = some ⟨line, .operation operator os⟩ ∧ g.ShowsAll operands os
  | .other line kind nodes, id => ∃ ns,
    g.node? id = some ⟨line, .other kind ns⟩ ∧ g.ShowsAll nodes ns
  | .tryCatch line body handler finalizer, id => ∃ b h f,
    g.node? id = some ⟨line, .other "try" (present [some b, h, f])⟩ ∧
      g.Shows body b ∧ g.Shows? handler h ∧ g.Shows? finalizer f

def ShowsAll (g : Graph) : List Tree → List (Option NodeId) → Prop
  | [], ids => ids = []
  | t :: ts, ids => ∃ id rest, ids = some id :: rest ∧ g.Shows t id ∧ g.ShowsAll ts rest

def Shows? (g : Graph) : Option Tree → Option NodeId → Prop
  | none, c => c = none
  | some t, c => ∃ id, c = some id ∧ g.Shows t id

end

/-- Trees are shown at nodes, none of which is missing. -/
theorem ShowsAll.filterMap {g : Graph} {ts : List Tree} {ids : List (Option NodeId)}
    (h : g.ShowsAll ts ids) : (ids.filterMap id).map some = ids := by
  induction ts generalizing ids with
  | nil =>
    obtain rfl : ids = [] := h
    rfl
  | cons t ts ih =>
    obtain ⟨id, rest, rfl, _, hrest⟩ := h
    exact congrArg (some id :: ·) (ih hrest)

end Graph

/-! ### Laying down -/

/-- Whatever is laid down before stays, and every graph that starts with what is laid
down then has `P` of the result. -/
def Lays {α : Type} (x : Placing α) (P : Graph → α → Prop) : Prop :=
  ∀ nodes, nodes.toList <+: (x nodes).2.toList ∧
    ∀ g : Graph, (x nodes).2.toList <+: g.nodes.toList → P g (x nodes).1

namespace Lays

variable {α β : Type} {x : Placing α} {f : α → Placing β} {P : Graph → α → Prop}

theorem pure (a : α) (h : ∀ g, P g a) : Lays (Pure.pure a) P :=
  fun _ => ⟨List.prefix_refl _, fun g _ => h g⟩

/-- What was shown by the first action is shown still, since the second only adds nodes. -/
theorem bind {Q : Graph → β → Prop} (hx : Lays x P)
    (hf : ∀ a, Lays (f a) fun g b => P g a → Q g b) : Lays (x >>= f) Q := by
  intro nodes
  obtain ⟨hkeep, hshow⟩ := hx nodes
  obtain ⟨hkeep', hshow'⟩ := hf (x nodes).1 (x nodes).2
  exact ⟨hkeep.trans hkeep', fun g hg => hshow' g hg (hshow g (hkeep'.trans hg))⟩

theorem and {Q : Graph → α → Prop} (hx : Lays x P) (hx' : Lays x Q) :
    Lays x fun g a => P g a ∧ Q g a := by
  intro nodes
  obtain ⟨hkeep, hshow⟩ := hx nodes
  exact ⟨hkeep, fun g hg => ⟨hshow g hg, (hx' nodes).2 g hg⟩⟩

/-- A node is added at the end, so its number is how many there were. -/
theorem add (line : Int) (form : Form) :
    Lays (Placing.add line form) fun g id => g.node? id = some ⟨line, form⟩ := by
  intro nodes
  refine ⟨?_, fun g hg => ?_⟩
  · simp [Placing.add]
  · obtain ⟨rest, hrest⟩ := hg
    have hget : g.nodes.toList[nodes.size]? = some ⟨line, form⟩ := by
      rw [← hrest]
      simp [Placing.add]
    rwa [Array.getElem?_toList] at hget

theorem names (list : List (Int × String)) :
    Lays (Placing.names list) fun g ids => g.ShowsNames list ids := by
  induction list with
  | nil => exact .pure [] fun _ => .nil
  | cons name rest ih =>
    exact (add name.1 (.name name.2)).bind fun _ => ih.bind fun _ =>
      .pure _ fun _ hrest hname => .cons hname hrest

end Lays

mutual

/-- **What is laid down is shown.** -/
theorem lays_place : (t : Tree) → Lays t.place fun g r => g.Shows t r.1
  | .function line _ params body _ =>
    (lays_placeAll params).bind fun _ => (lays_placeAll body).bind fun _ =>
      (Lays.add line _).bind fun _ => .pure _ fun _ hn hbody hparams =>
        ⟨_, _, hn, hparams, hbody⟩
  | .declaration line _ bindings =>
    (lays_placeAll bindings).bind fun _ => (Lays.add line _).bind fun _ =>
      .pure _ fun _ hn hbindings => ⟨_, hn, hbindings.filterMap.symm ▸ hbindings⟩
  | .binding line target init =>
    (lays_place? target).bind fun _ => (lays_place? init).bind fun _ =>
      (Lays.add line _).bind fun _ => .pure _ fun _ hn hinit htarget =>
        ⟨_, _, hn, htarget, hinit⟩
  | .assignment line _ target value =>
    (lays_place target).bind fun _ => (lays_place value).bind fun _ =>
      (Lays.add line _).bind fun _ => .pure _ fun _ hn hvalue htarget =>
        ⟨_, _, hn, htarget, hvalue⟩
  | .name line ident => (Lays.add line (.name ident)).bind fun _ => .pure _ fun _ hn => hn
  | .pattern line names defaults =>
    (Lays.names names).bind fun _ => (lays_placeAll defaults).bind fun _ =>
      (Lays.add line _).bind fun _ => .pure _ fun _ hn hdefaults hnames =>
        ⟨_, _, hn, hnames, hdefaults⟩
  | .thisRef line => (Lays.add line .thisRef).bind fun _ => .pure _ fun _ hn => hn
  | .call line callee args _ =>
    (lays_place callee).bind fun _ => (lays_placeAll args).bind fun _ =>
      (Lays.add line _).bind fun _ => .pure _ fun _ hn hargs hcallee =>
        ⟨_, _, hn, hcallee, hargs⟩
  | .member line object property _ =>
    (lays_place object).bind fun _ => (lays_place? property).bind fun _ =>
      (Lays.add line _).bind fun _ => .pure _ fun _ hn hproperty hobject =>
        ⟨_, _, hn, hobject, hproperty⟩
  | .conditional line _ init test update each body otherwise =>
    (lays_place? init).bind fun _ => (lays_place? test).bind fun _ =>
      (lays_place? update).bind fun _ => (lays_place? each).bind fun _ =>
        (lays_place? body).bind fun _ => (lays_place? otherwise).bind fun _ =>
          (Lays.add line _).bind fun _ =>
            .pure _ fun _ hn hotherwise hbody heach hupdate htest hinit =>
              ⟨_, _, _, _, _, _, hn, hinit, htest, hupdate, heach, hbody, hotherwise⟩
  | .switch line discriminant clauses =>
    (lays_place discriminant).bind fun _ => (lays_placeAll clauses).bind fun _ =>
      (Lays.add line _).bind fun _ => .pure _ fun _ hn hclauses hdiscriminant =>
        ⟨_, _, hn, hdiscriminant, hclauses.filterMap.symm ▸ hclauses⟩
  | .clause line test body =>
    (lays_place? test).bind fun _ => (lays_placeAll body).bind fun _ =>
      (Lays.add line _).bind fun _ => .pure _ fun _ hn hbody htest => ⟨_, _, hn, htest, hbody⟩
  | .literal line kind raw truthy =>
    (Lays.add line (.literal kind raw truthy)).bind fun _ => .pure _ fun _ hn => hn
  | .composite line _ elements =>
    (lays_placeAll elements).bind fun _ => (Lays.add line _).bind fun _ =>
      .pure _ fun _ hn helements => ⟨_, hn, helements⟩
  | .operation line _ operands =>
    (lays_placeAll operands).bind fun _ => (Lays.add line _).bind fun _ =>
      .pure _ fun _ hn hoperands => ⟨_, hn, hoperands⟩
  | .other line _ nodes =>
    (lays_placeAll nodes).bind fun _ => (Lays.add line _).bind fun _ =>
      .pure _ fun _ hn hnodes => ⟨_, hn, hnodes⟩
  | .tryCatch line body handler finalizer =>
    (lays_place? handler).bind fun _ => (lays_place body).bind fun _ =>
      (lays_place? finalizer).bind fun _ => (Lays.add line _).bind fun _ =>
        .pure _ fun _ hn hfinalizer hbody hhandler =>
          ⟨_, _, _, hn, hbody, hhandler, hfinalizer⟩

theorem lays_placeAll : (ts : List Tree) → Lays (placeAll ts) fun g r => g.ShowsAll ts r.1
  | [] => .pure _ fun _ => rfl
  | t :: ts => (lays_place t).bind fun _ => (lays_placeAll ts).bind fun _ =>
    .pure _ fun _ hts ht => ⟨_, _, rfl, ht, hts⟩

theorem lays_place? : (t : Option Tree) → Lays (place? t) fun g r => g.Shows? t r.1
  | none => .pure _ fun _ => rfl
  | some t => (lays_place t).bind fun _ => .pure _ fun _ ht => ⟨_, rfl, ht⟩

end

/-- The program starts from no nodes at all. -/
theorem Program.shows_ofTrees (file : String) (trees : List Tree) :
    (ofTrees file trees).graph.ShowsAll trees (ofTrees file trees).body :=
  (lays_placeAll trees #[]).2 _ (List.prefix_refl _)

/-! ### Every way down ends -/

namespace Graph

variable {g : Graph}

theorem ShowsNames.founded {names : List (Int × String)} {ids : List NodeId}
    (h : g.ShowsNames names ids) : ∀ c ∈ ids.map some, g.Founded c := by
  intro c hc
  obtain ⟨id, hid, rfl⟩ := List.mem_map.mp hc
  induction h with
  | nil => cases hid
  | cons hn _ ih =>
    rcases List.mem_cons.mp hid with rfl | hid
    · exact founded_of_at? hn fun _ hc => by cases hc
    · exact ih hid (List.mem_map_of_mem hid)

mutual

/-- A tree is finite, so a way down through the nodes that show it ends where it does. -/
theorem Shows.founded : {t : Tree} → {id : NodeId} → g.Shows t id → g.Founded (some id)
  | .function .., _, ⟨_, _, hn, hparams, hbody⟩ => founded_of_at? hn fun c hc =>
    (List.mem_append.mp hc).elim (hparams.founded c) (hbody.founded c)
  | .declaration .., _, ⟨_, hn, hbindings⟩ => founded_of_at? hn hbindings.founded
  | .binding .., _, ⟨_, _, hn, htarget, hinit⟩ => founded_of_at? hn <| founded_present <|
    List.forall_mem_cons.mpr ⟨htarget.founded, List.forall_mem_singleton.mpr hinit.founded⟩
  | .assignment .., _, ⟨_, _, hn, htarget, hvalue⟩ => founded_of_at? hn <| founded_present <|
    List.forall_mem_cons.mpr ⟨htarget.founded, List.forall_mem_singleton.mpr hvalue.founded⟩
  | .name .., _, hn | .thisRef _, _, hn | .literal .., _, hn =>
    founded_of_at? hn fun _ hc => by cases hc
  | .pattern .., _, ⟨_, _, hn, hnames, hdefaults⟩ => founded_of_at? hn fun c hc =>
    (List.mem_append.mp hc).elim (hnames.founded c) (hdefaults.founded c)
  | .call .., _, ⟨_, _, hn, hcallee, hargs⟩ =>
    founded_of_at? hn (List.forall_mem_cons.mpr ⟨hcallee.founded, hargs.founded⟩)
  | .member .., _, ⟨_, _, hn, hobject, hproperty⟩ => founded_of_at? hn <| founded_present <|
    List.forall_mem_cons.mpr ⟨hobject.founded, List.forall_mem_singleton.mpr hproperty.founded⟩
  | .conditional .., _, ⟨_, _, _, _, _, _, hn, hinit, htest, hupdate, heach, hbody, hotherwise⟩ =>
    founded_of_at? hn <| founded_present fun c hc => by
      simp only [List.mem_cons, List.not_mem_nil, or_false] at hc
      rcases hc with rfl | rfl | rfl | rfl | rfl | rfl
      · exact hinit.founded
      · exact htest.founded
      · exact heach.founded
      · exact hbody.founded
      · exact hupdate.founded
      · exact hotherwise.founded
  | .switch .., _, ⟨_, _, hn, hdiscriminant, hclauses⟩ => founded_of_at? hn fun c hc =>
    (List.mem_append.mp hc).elim
      (founded_present (List.forall_mem_singleton.mpr hdiscriminant.founded) c)
      (hclauses.founded c)
  | .clause .., _, ⟨_, _, hn, htest, hbody⟩ => founded_of_at? hn fun c hc =>
    (List.mem_append.mp hc).elim
      (founded_present (List.forall_mem_singleton.mpr htest.founded) c) (hbody.founded c)
  | .composite .., _, ⟨_, hn, hparts⟩ | .operation .., _, ⟨_, hn, hparts⟩
  | .other .., _, ⟨_, hn, hparts⟩ => founded_of_at? hn hparts.founded
  | .tryCatch .., _, ⟨_, _, _, hn, hbody, hhandler, hfinalizer⟩ =>
    founded_of_at? hn <| founded_present <| List.forall_mem_cons.mpr ⟨hbody.founded,
      List.forall_mem_cons.mpr ⟨hhandler.founded, List.forall_mem_singleton.mpr hfinalizer.founded⟩⟩

theorem ShowsAll.founded : {ts : List Tree} → {ids : List (Option NodeId)} → g.ShowsAll ts ids →
    ∀ c ∈ ids, g.Founded c
  | [], _, h, c, hc => by
    obtain rfl := h
    cases hc
  | _ :: _, _, ⟨_, _, hids, ht, hts⟩, c, hc => by
    subst hids
    rcases List.mem_cons.mp hc with rfl | hc
    · exact ht.founded
    · exact hts.founded c hc

theorem Shows?.founded : {t : Option Tree} → {c : Option NodeId} → g.Shows? t c → g.Founded c
  | none, _, h => by
    obtain rfl := h
    exact founded_none
  | some _, _, ⟨_, hc, ht⟩ => by
    subst hc
    exact ht.founded

end

end Graph

end TaintReach
