import Mathlib.Data.List.Nodup
import TaintReach.Proofs.Tree.Layout
import TaintReach.Script.Reading

/-! The functions of a program are listed once, from the outside in.

What is laid down of a tree takes up a stretch of the node table, and nothing from
its root down lies outside of it. So trees laid down one after the other share no
node, and the functions listed on the way are all there are below their roots, each
once, with an enclosing function before those inside it (`Stretch`). One lemma says
how stretches join, one how a node closes a stretch, and the construction of every
tree is made of these two (`stretches_place`). -/
namespace TaintReach

namespace Graph

/-! ### Stretches -/

/-- Whatever stands from the roots down has its place from `lo` on and before `hi`, and
`fs` lists the functions there. -/
structure Stretch (g : Graph) (lo hi : NodeId) (roots : List (Option NodeId))
    (fs : List NodeId) : Prop where
  le : lo ≤ hi
  range : ∀ r, some r ∈ roots → ∀ d, g.Within r d → lo ≤ d ∧ d < hi
  nodup : fs.Nodup
  mem_iff : ∀ d, d ∈ fs ↔ g.IsFunction d ∧ ∃ r, some r ∈ roots ∧ g.Within r d
  order : fs.Pairwise fun a b => ¬ g.Below b a

namespace Stretch

variable {g : Graph} {lo mid hi id : NodeId} {roots roots' : List (Option NodeId)}
  {fs fs' : List NodeId} {n : Node}

theorem empty (g : Graph) (lo : NodeId) (h : ∀ r, some r ∉ roots) : Stretch g lo lo roots [] where
  le := Nat.le_refl lo
  range r hr := absurd hr (h r)
  nodup := List.nodup_nil
  mem_iff d := by
    simp only [List.not_mem_nil, false_iff, not_and, not_exists]
    exact fun _ r hr => absurd hr (h r)
  order := .nil

/-- What is listed has its place in the stretch, with everything below it. -/
theorem range_of_mem (h : Stretch g lo hi roots fs) {a d : NodeId} (ha : a ∈ fs)
    (hd : g.Within a d) : lo ≤ d ∧ d < hi := by
  obtain ⟨_, r, hr, hra⟩ := (h.mem_iff a).mp ha
  exact h.range r hr d (hra.trans hd)

/-- Two stretches share no node, so their lists make one. -/
theorem append (h : Stretch g lo mid roots fs) (k : Stretch g mid hi roots' fs') :
    Stretch g lo hi (roots ++ roots') (fs ++ fs') where
  le := Nat.le_trans h.le k.le
  range r hr d hd := by
    rcases List.mem_append.mp hr with hr | hr
    · have hrange := h.range r hr d hd
      exact ⟨hrange.1, Nat.lt_of_lt_of_le hrange.2 k.le⟩
    · have hrange := k.range r hr d hd
      exact ⟨Nat.le_trans h.le hrange.1, hrange.2⟩
  nodup := by
    refine List.nodup_append.mpr ⟨h.nodup, k.nodup, ?_⟩
    rintro a ha b hb rfl
    have hleft := h.range_of_mem ha .refl
    have hright := k.range_of_mem hb .refl
    exact absurd (Nat.lt_of_lt_of_le hleft.2 hright.1) (Nat.lt_irrefl a)
  mem_iff d := by
    simp only [List.mem_append, h.mem_iff, k.mem_iff]
    constructor
    · rintro (⟨hf, r, hr, hd⟩ | ⟨hf, r, hr, hd⟩)
      · exact ⟨hf, r, Or.inl hr, hd⟩
      · exact ⟨hf, r, Or.inr hr, hd⟩
    · rintro ⟨hf, r, hr | hr, hd⟩
      · exact Or.inl ⟨hf, r, hr, hd⟩
      · exact Or.inr ⟨hf, r, hr, hd⟩
  order := by
    refine List.pairwise_append.mpr ⟨h.order, k.order, fun a ha b hb hbelow => ?_⟩
    have hleft := h.range_of_mem ha .refl
    have hright := k.range_of_mem hb hbelow.to_reflTransGen
    exact absurd (Nat.lt_of_lt_of_le hleft.2 hright.1) (Nat.lt_irrefl a)

/-- From a node down stand the node itself and what stands from its children down. -/
theorem within_iff (hn : g.node? id = some n) (hroots : ∀ c, some c ∈ n.form.children ↔
    some c ∈ roots) {d : NodeId} : g.Within id d ↔ d = id ∨ ∃ r, some r ∈ roots ∧ g.Within r d := by
  constructor
  · intro h
    rcases Relation.ReflTransGen.cases_head h with rfl | ⟨c, ⟨m, hm, hc⟩, hcd⟩
    · exact Or.inl rfl
    · obtain rfl := Option.some.inj (hn.symm.trans hm)
      exact Or.inr ⟨c, (hroots c).mp hc, hcd⟩
  · rintro (rfl | ⟨r, hr, hd⟩)
    · exact .refl
    · exact .head ⟨n, hn, (hroots r).mpr hr⟩ hd

/-- A node laid down behind its children closes their stretch. -/
theorem range_node (h : Stretch g lo id roots fs) (hn : g.node? id = some n)
    (hroots : ∀ c, some c ∈ n.form.children ↔ some c ∈ roots) :
    ∀ r, some r ∈ [some id] → ∀ d, g.Within r d → lo ≤ d ∧ d < id + 1 := by
  intro r hr d hd
  obtain rfl := Option.some.inj (List.mem_singleton.mp hr)
  rcases (within_iff hn hroots).mp hd with rfl | ⟨r, hr, hd⟩
  · exact ⟨h.le, Nat.lt_succ_self d⟩
  · have hrange := h.range r hr d hd
    exact ⟨hrange.1, Nat.lt_succ_of_lt hrange.2⟩

/-- A node that is no function adds nothing to the list. -/
theorem node (h : Stretch g lo id roots fs) (hn : g.node? id = some n)
    (hroots : ∀ c, some c ∈ n.form.children ↔ some c ∈ roots)
    (hform : ∀ name params body locals, n.form ≠ .function name params body locals) :
    Stretch g lo (id + 1) [some id] fs where
  le := Nat.le_succ_of_le h.le
  range := h.range_node hn hroots
  nodup := h.nodup
  order := h.order
  mem_iff d := by
    simp only [h.mem_iff, List.mem_singleton, Option.some.injEq, exists_eq_left,
      within_iff hn hroots]
    refine and_congr_right fun hf => (or_iff_right ?_).symm
    rintro rfl
    obtain ⟨line, name, params, body, locals, hf⟩ := hf
    obtain rfl := Option.some.inj (hn.symm.trans hf)
    exact hform name params body locals rfl

/-- A function comes before those inside it. -/
theorem function (h : Stretch g lo id roots fs) (hn : g.node? id = some n)
    (hroots : ∀ c, some c ∈ n.form.children ↔ some c ∈ roots) (hf : g.IsFunction id) :
    Stretch g lo (id + 1) [some id] (id :: fs) where
  le := Nat.le_succ_of_le h.le
  range := h.range_node hn hroots
  nodup := by
    refine List.nodup_cons.mpr ⟨fun hid => ?_, h.nodup⟩
    exact absurd (h.range_of_mem hid .refl).2 (Nat.lt_irrefl id)
  order := by
    refine List.pairwise_cons.mpr ⟨fun a ha hbelow => ?_, h.order⟩
    exact absurd (h.range_of_mem ha hbelow.to_reflTransGen).2 (Nat.lt_irrefl id)
  mem_iff d := by
    simp only [List.mem_cons, h.mem_iff, List.not_mem_nil, or_false, Option.some.injEq,
      exists_eq_left, within_iff hn hroots]
    constructor
    · rintro (rfl | ⟨hd, hbelow⟩)
      · exact ⟨hf, Or.inl rfl⟩
      · exact ⟨hd, Or.inr hbelow⟩
    · rintro ⟨hd, rfl | hbelow⟩
      · exact Or.inl rfl
      · exact Or.inr ⟨hd, hbelow⟩

/-- An enclosing function has the smaller index. -/
theorem idxOf_lt (h : Stretch g lo hi roots fs) {a b : NodeId} (ha : a ∈ fs) (hb : b ∈ fs)
    (hbelow : g.Below a b) (hne : a ≠ b) : fs.idxOf a < fs.idxOf b := by
  by_contra hle
  have hia : fs.idxOf a < fs.length := List.idxOf_lt_length_iff.mpr ha
  have hib : fs.idxOf b < fs.length := List.idxOf_lt_length_iff.mpr hb
  have hneq : fs.idxOf b ≠ fs.idxOf a := fun heq => hne ((List.idxOf_inj hb).mp heq).symm
  have hpair := List.pairwise_iff_getElem.mp h.order _ _ hib hia (by omega)
  rw [List.getElem_idxOf, List.getElem_idxOf] at hpair
  exact hpair hbelow

end Stretch

end Graph

/-! ### Laying down -/

/-- Whatever is laid down before stays, and every graph that starts with what is laid
down then has `P` of the stretch that was added and of the result. -/
def Stretches {α : Type} (x : Placing α) (P : Graph → NodeId → NodeId → α → Prop) : Prop :=
  ∀ nodes, nodes.toList <+: (x nodes).2.toList ∧
    ∀ g : Graph, (x nodes).2.toList <+: g.nodes.toList →
      P g nodes.size (x nodes).2.size (x nodes).1

namespace Stretches

variable {α β : Type} {x : Placing α} {f : α → Placing β}

theorem pure {P : Graph → NodeId → NodeId → α → Prop} (a : α) (h : ∀ g lo, P g lo lo a) :
    Stretches (Pure.pure a) P :=
  fun nodes => ⟨List.prefix_refl _, fun g _ => h g nodes.size⟩

theorem bind {P : Graph → NodeId → NodeId → α → Prop} {Q : Graph → NodeId → NodeId → β → Prop}
    (hx : Stretches x P)
    (hf : ∀ a, Stretches (f a) fun g mid hi b => ∀ lo, P g lo mid a → Q g lo hi b) :
    Stretches (x >>= f) Q := by
  intro nodes
  obtain ⟨hkeep, hstretch⟩ := hx nodes
  obtain ⟨hkeep', hstretch'⟩ := hf (x nodes).1 (x nodes).2
  refine ⟨hkeep.trans hkeep', fun g hg => ?_⟩
  exact hstretch' g hg nodes.size (hstretch g (hkeep'.trans hg))

theorem add (line : Int) (form : Form) : Stretches (Placing.add line form) fun g lo hi id =>
    id = lo ∧ hi = lo + 1 ∧ g.node? id = some ⟨line, form⟩ := by
  intro nodes
  obtain ⟨hkeep, hshow⟩ := Lays.add line form nodes
  exact ⟨hkeep, fun g hg => ⟨rfl, Array.size_push _, hshow g hg⟩⟩

theorem mono {P Q : Graph → NodeId → NodeId → α → Prop} (hx : Stretches x P)
    (h : ∀ g lo hi a, P g lo hi a → Q g lo hi a) : Stretches x Q := by
  intro nodes
  obtain ⟨hkeep, hstretch⟩ := hx nodes
  exact ⟨hkeep, fun g hg => h g _ _ _ (hstretch g hg)⟩

/-- Lays down a node that is no function behind its children. -/
theorem close {line : Int} {form : Form} {fs : List NodeId} (roots : List (Option NodeId))
    (hroots : ∀ c, some c ∈ form.children ↔ some c ∈ roots)
    (hform : ∀ name params body locals, form ≠ .function name params body locals := by nofun) :
    Stretches (do return (← Placing.add line form, fs)) fun g mid hi r =>
      ∀ lo, g.Stretch lo mid roots fs → g.Stretch lo hi [some r.1] r.2 := by
  refine (add line form).bind fun id => .pure _ fun g hi mid hnode lo h => ?_
  obtain ⟨rfl, rfl, hn⟩ := hnode
  exact h.node hn hroots hform

theorem leaf {line : Int} {form : Form} (hchildren : form.children = [])
    (hform : ∀ name params body locals, form ≠ .function name params body locals := by nofun) :
    Stretches (do return (← Placing.add line form, [])) fun g lo hi r =>
      g.Stretch lo hi [some r.1] r.2 :=
  (close [] (fun c => by rw [hchildren]) hform).mono fun g lo _ _ h =>
    h lo (.empty g lo fun _ hr => by cases hr)

theorem names (list : List (Int × String)) : Stretches (Placing.names list) fun g lo hi ids =>
    g.Stretch lo hi (ids.map some) [] := by
  induction list with
  | nil => exact .pure [] fun g lo => .empty g lo fun r hr => by cases hr
  | cons name rest ih =>
    refine (add name.1 (.name name.2)).bind fun id => ih.bind fun ids => .pure _ ?_
    intro g hi mid hrest lo hnode
    obtain ⟨rfl, rfl, hn⟩ := hnode
    have hnone : g.Stretch id id [] [] := .empty g id fun r hr => by cases hr
    have hname : g.Stretch id (id + 1) [some id] [] :=
      hnone.node hn (fun _ => Iff.rfl)
        fun _ _ _ _ h => by cases h
    exact hname.append hrest

end Stretches

mutual

/-- **What is laid down of a tree is a stretch, with its functions listed.** -/
theorem stretches_place : (t : Tree) →
    Stretches t.place fun g lo hi r => g.Stretch lo hi [some r.1] r.2
  | .function line name params body locals => by
    refine (stretches_placeAll params).bind fun ps => (stretches_placeAll body).bind fun bs =>
      (Stretches.add line _).bind fun id => .pure _ ?_
    intro g hi mid hnode lo₁ hbody lo hparams
    obtain ⟨rfl, rfl, hn⟩ := hnode
    exact (hparams.append hbody).function hn (fun _ => Iff.rfl) ⟨_, _, _, _, _, hn⟩
  | .declaration line kind bindings =>
    (stretches_placeAll bindings).bind fun bs =>
      (Stretches.close (bs.1) fun c => by simp [Form.children]).mono
        fun _ _ _ _ h lo hbindings => h lo hbindings
  | .binding line target init =>
    (stretches_place? target).bind fun t => (stretches_place? init).bind fun i =>
      (Stretches.close ([t.1] ++ [i.1]) fun _ => Graph.mem_present).mono
        fun _ _ _ _ h _ hinit lo htarget => h lo (htarget.append hinit)
  | .assignment line operator target value =>
    (stretches_place target).bind fun t => (stretches_place value).bind fun v =>
      (Stretches.close ([some t.1] ++ [some v.1]) fun _ => Graph.mem_present).mono
        fun _ _ _ _ h _ hvalue lo htarget => h lo (htarget.append hvalue)
  | .name line ident => .leaf rfl
  | .pattern line names defaults =>
    (Stretches.names names).bind fun ns => (stretches_placeAll defaults).bind fun ds =>
      (Stretches.close (ns.map some ++ ds.1) fun _ => Iff.rfl).mono
        fun _ _ _ _ h _ hdefaults lo hnames => h lo (hnames.append hdefaults)
  | .thisRef line => .leaf rfl
  | .call line callee args isNew =>
    (stretches_place callee).bind fun c => (stretches_placeAll args).bind fun as =>
      (Stretches.close ([some c.1] ++ as.1) fun _ => Iff.rfl).mono
        fun _ _ _ _ h _ hargs lo hcallee => h lo (hcallee.append hargs)
  | .member line object property propName =>
    (stretches_place object).bind fun o => (stretches_place? property).bind fun p =>
      (Stretches.close ([some o.1] ++ [p.1]) fun _ => Graph.mem_present).mono
        fun _ _ _ _ h _ hproperty lo hobject => h lo (hobject.append hproperty)
  | .conditional line kind init test update each body otherwise => by
    refine (stretches_place? init).bind fun i => (stretches_place? test).bind fun t =>
      (stretches_place? update).bind fun u => (stretches_place? each).bind fun e =>
        (stretches_place? body).bind fun b => (stretches_place? otherwise).bind fun o => ?_
    refine (Stretches.close ([i.1] ++ [t.1] ++ [u.1] ++ [e.1] ++ [b.1] ++ [o.1])
      fun c => ?_).mono ?_
    · -- the update is shown behind the body, and laid down before it
      rw [Form.children, Graph.mem_present]
      simp only [List.mem_append, List.mem_cons, List.not_mem_nil, or_false]
      tauto
    · intro _ _ _ _ h _ hotherwise _ hbody _ heach _ hupdate _ htest lo hinit
      exact h lo (((((hinit.append htest).append hupdate).append heach).append hbody).append hotherwise)
  | .switch line discriminant clauses =>
    (stretches_place discriminant).bind fun d => (stretches_placeAll clauses).bind fun cs =>
      (Stretches.close ([some d.1] ++ cs.1) fun c => by simp [Form.children, present]).mono
        fun _ _ _ _ h _ hclauses lo hdiscriminant => h lo (hdiscriminant.append hclauses)
  | .clause line test body =>
    (stretches_place? test).bind fun t => (stretches_placeAll body).bind fun bs =>
      (Stretches.close ([t.1] ++ bs.1) fun c => by
        simp only [Form.children, List.mem_append, Graph.mem_present]).mono
        fun _ _ _ _ h _ hbody lo htest => h lo (htest.append hbody)
  | .literal line kind raw truthy => .leaf rfl
  | .composite line array elements =>
    (stretches_placeAll elements).bind fun es => (Stretches.close (es.1) fun _ => Iff.rfl).mono
      fun _ _ _ _ h lo helements => h lo helements
  | .operation line operator operands =>
    (stretches_placeAll operands).bind fun os => (Stretches.close (os.1) fun _ => Iff.rfl).mono
      fun _ _ _ _ h lo hoperands => h lo hoperands
  | .other line kind nodes =>
    (stretches_placeAll nodes).bind fun ns => (Stretches.close (ns.1) fun _ => Iff.rfl).mono
      fun _ _ _ _ h lo hnodes => h lo hnodes
  | .tryCatch line body handler finalizer => by
    refine (stretches_place? handler).bind fun h => (stretches_place body).bind fun b =>
      (stretches_place? finalizer).bind fun f => ?_
    refine (Stretches.close ([h.1] ++ [some b.1] ++ [f.1]) fun c => ?_).mono ?_
    · -- the handler is shown behind the body, and laid down before it
      rw [Form.children, Graph.mem_present]
      simp only [List.mem_append, List.mem_cons, List.not_mem_nil, or_false]
      tauto
    · intro _ _ _ _ h _ hfinalizer _ hbody lo hhandler
      exact h lo ((hhandler.append hbody).append hfinalizer)

theorem stretches_placeAll : (ts : List Tree) →
    Stretches (placeAll ts) fun g lo hi r => g.Stretch lo hi r.1 r.2
  | [] => .pure _ fun g lo => .empty g lo fun r hr => by cases hr
  | t :: ts => (stretches_place t).bind fun _ => (stretches_placeAll ts).bind fun _ =>
    .pure _ fun _ _ _ hts _ ht => ht.append hts

theorem stretches_place? : (t : Option Tree) →
    Stretches (place? t) fun g lo hi r => g.Stretch lo hi [r.1] r.2
  | none => .pure _ fun g lo => .empty g lo fun r hr => by simp at hr
  | some t => (stretches_place t).bind fun _ => .pure _ fun _ _ _ ht => ht

end

theorem Program.stretch_ofTrees (file : String) (trees : List Tree) :
    (ofTrees file trees).graph.Stretch 0 (ofTrees file trees).graph.size (ofTrees file trees).body
      (ofTrees file trees).functions :=
  (stretches_placeAll trees #[]).2 _ (List.prefix_refl _)

/-! ### Scripts -/

namespace Script

theorem exists_ast {load : String → Option String} {file code : String} {p : Program}
    (h : readWith load file code = .ok p) :
    ∃ ast, Parser.parse load file code = .ok ast ∧ p = Program.ofTrees file (Stmt.trees ast) := by
  unfold readWith at h
  cases hast : Parser.parse load file code with
  | error e =>
    rw [hast] at h
    cases h
  | ok ast =>
    rw [hast] at h
    exact ⟨ast, rfl, (Except.ok.inj h).symm⟩

/-- Something of a result is computed only where there is one. -/
theorem exists_ok_of_map {ε α β : Type} {r : Except ε α} {f : α → β} {b : β}
    (h : r.toOption.map f = some b) : ∃ a, r = .ok a ∧ f a = b := by
  cases r with
  | error e => cases h
  | ok a => exact ⟨a, rfl, Option.some.inj h⟩

/-- **The list of functions is complete, without repetition, and goes from the outside
in.** The functions of a script that is read are the function nodes that stand from
its body down; each is listed once, an enclosing one before those inside it. -/
theorem functions_listed_once {load : String → Option String} {file code : String} {p : Program}
    (h : readWith load file code = .ok p) :
    p.functions.Nodup ∧
    (∀ id, id ∈ p.functions ↔
      p.graph.IsFunction id ∧ ∃ root, some root ∈ p.body ∧ p.graph.Within root id) ∧
    ∀ f ∈ p.functions, ∀ g ∈ p.functions, p.graph.Below f g →
      p.functions.idxOf f < p.functions.idxOf g := by
  obtain ⟨ast, _, rfl⟩ := exists_ast h
  have hstretch := Program.stretch_ofTrees file (Stmt.trees ast)
  have hshows := Program.shows_ofTrees file (Stmt.trees ast)
  refine ⟨hstretch.nodup, hstretch.mem_iff, fun f hf g hg hbelow => ?_⟩
  refine hstretch.idxOf_lt hf hg hbelow ?_
  -- a function below itself would make the tree cyclic
  rintro rfl
  obtain ⟨_, root, hroot, hwithin⟩ := (hstretch.mem_iff f).mp hf
  exact (hshows.founded _ hroot).not_cyclic ⟨f, hwithin, hbelow⟩

/-- A function with another in its body and one in a default value. -/
theorem functions_listed_once_nested :
    ∃ p, read "a.js" "function f(a = () => 1) { return function g() {} }" = .ok p ∧
      p.functions.length = 3 ∧ p.functions.Nodup ∧
      (∀ id, id ∈ p.functions ↔
        p.graph.IsFunction id ∧ ∃ root, some root ∈ p.body ∧ p.graph.Within root id) ∧
      ∀ f ∈ p.functions, ∀ g ∈ p.functions, p.graph.Below f g →
        p.functions.idxOf f < p.functions.idxOf g := by
  have hread : (read "a.js" "function f(a = () => 1) { return function g() {} }").toOption.map
      (·.functions.length) = some 3 := by decide +kernel
  obtain ⟨p, h, hlength⟩ := exists_ok_of_map hread
  exact ⟨p, h, hlength, functions_listed_once h⟩

end Script

end TaintReach
