import Mathlib.Data.List.Forall2
import TaintReach.Proofs.Walk.Termination

/-! Two graphs that look the same from a function.

A relation between the fields of two graphs *mirrors* one in the other when related
fields hold nothing, or functions, or the same node, whose own fields are related
again. What is in a function that is met on the way does not count. Every rule of the
walk looks at its node only as far as that, so the analyses of the two functions have
the same outcome, fault or scope, events included (`Walk.analyzeFunction_congr`). -/
namespace TaintReach

/-- Both nodes are functions, or they are the same but for fields that are related. -/
inductive Node.Alike (R : Option NodeId → Option NodeId → Prop) : Node → Node → Prop
  | function {line line' : Int} {name name' : String} {params params' : List (Option NodeId)}
    {body body' : List (Option NodeId)} {locals locals' : List String} :
    Alike R ⟨line, .function name params body locals⟩ ⟨line', .function name' params' body' locals'⟩
  | declaration {line : Int} {kind : DeclKind} {bindings bindings' : List NodeId}
    (hbindings : List.Forall₂ (fun a b => R (some a) (some b)) bindings bindings') :
    Alike R ⟨line, .declaration kind bindings⟩ ⟨line, .declaration kind bindings'⟩
  | binding {line : Int} {target target' init init' : Option NodeId} (htarget : R target target')
    (hinit : R init init') : Alike R ⟨line, .binding target init⟩ ⟨line, .binding target' init'⟩
  | assignment {line : Int} {operator : String} {target target' value value' : Option NodeId}
    (htarget : R target target') (hvalue : R value value') :
    Alike R ⟨line, .assignment operator target value⟩ ⟨line, .assignment operator target' value'⟩
  | name {line : Int} {ident : String} : Alike R ⟨line, .name ident⟩ ⟨line, .name ident⟩
  | pattern {line : Int} {names names' : List NodeId} {defaults defaults' : List (Option NodeId)}
    (hnames : List.Forall₂ (fun a b => R (some a) (some b)) names names')
    (hdefaults : List.Forall₂ R defaults defaults') :
    Alike R ⟨line, .pattern names defaults⟩ ⟨line, .pattern names' defaults'⟩
  | thisRef {line : Int} : Alike R ⟨line, .thisRef⟩ ⟨line, .thisRef⟩
  | call {line : Int} {callee callee' : Option NodeId} {args args' : List (Option NodeId)}
    {isNew : Bool} (hcallee : R callee callee') (hargs : List.Forall₂ R args args') :
    Alike R ⟨line, .call callee args isNew⟩ ⟨line, .call callee' args' isNew⟩
  | member {line : Int} {object object' property property' : Option NodeId} {propName : String}
    {computed : Bool} (hobject : R object object') (hproperty : R property property') :
    Alike R ⟨line, .member object property propName computed⟩
      ⟨line, .member object' property' propName computed⟩
  | conditional {line : Int} {kind : CondKind}
    {init init' test test' update update' : Option NodeId}
    {each each' body body' otherwise otherwise' : Option NodeId}
    (hinit : R init init') (htest : R test test') (hupdate : R update update')
    (heach : R each each') (hbody : R body body') (hotherwise : R otherwise otherwise') :
    Alike R ⟨line, .conditional kind init test update each body otherwise⟩
      ⟨line, .conditional kind init' test' update' each' body' otherwise'⟩
  | switch {line : Int} {discriminant discriminant' : Option NodeId}
    {clauses clauses' : List NodeId} (hdiscriminant : R discriminant discriminant')
    (hclauses : List.Forall₂ (fun a b => R (some a) (some b)) clauses clauses') :
    Alike R ⟨line, .switch discriminant clauses⟩ ⟨line, .switch discriminant' clauses'⟩
  | clause {line : Int} {test test' : Option NodeId} {body body' : List (Option NodeId)}
    (htest : R test test') (hbody : List.Forall₂ R body body') :
    Alike R ⟨line, .clause test body⟩ ⟨line, .clause test' body'⟩
  | literal {line : Int} {kind : LiteralKind} {raw : String} {truthy : Bool} :
    Alike R ⟨line, .literal kind raw truthy⟩ ⟨line, .literal kind raw truthy⟩
  | composite {line : Int} {array : Bool} {elements elements' : List (Option NodeId)}
    (helements : List.Forall₂ R elements elements') :
    Alike R ⟨line, .composite array elements⟩ ⟨line, .composite array elements'⟩
  | operation {line : Int} {operator : String} {operands operands' : List (Option NodeId)}
    (hoperands : List.Forall₂ R operands operands') :
    Alike R ⟨line, .operation operator operands⟩ ⟨line, .operation operator operands'⟩
  | other {line : Int} {kind : String} {nodes nodes' : List (Option NodeId)}
    (hnodes : List.Forall₂ R nodes nodes') :
    Alike R ⟨line, .other kind nodes⟩ ⟨line, .other kind nodes'⟩

/-- What holds of all that a node holds, and where there is nothing, may be added to a
relation between its fields. -/
theorem Node.Alike.and_left {R : Option NodeId → Option NodeId → Prop} {n n' : Node}
    (h : n.Alike R n') {P : Option NodeId → Prop} (hnone : P none)
    (hP : ∀ c ∈ n.form.children, P c) : n.Alike (fun c c' => P c ∧ R c c') n' := by
  have hfield : ∀ {fields : List (Option NodeId)} {c}, (∀ c ∈ present fields, P c) → c ∈ fields →
      P c := by
    intro fields c hfields hc
    cases c with
    | none => exact hnone
    | some id => exact hfields _ (Graph.mem_present.mpr hc)
  have hids : ∀ {ids ids' : List NodeId}, (∀ c ∈ ids.map some, P c) →
      List.Forall₂ (fun a b => R (some a) (some b)) ids ids' →
      List.Forall₂ (fun a b => P (some a) ∧ R (some a) (some b)) ids ids' := fun hids hR =>
    (List.forall₂_and_left _ _).mpr ⟨fun a ha => hids _ (List.mem_map_of_mem ha), hR⟩
  cases h with
  | function => exact .function
  | declaration hbindings => exact .declaration (hids hP hbindings)
  | binding htarget hinit =>
    exact .binding ⟨hfield hP (by simp), htarget⟩ ⟨hfield hP (by simp), hinit⟩
  | assignment htarget hvalue =>
    exact .assignment ⟨hfield hP (by simp), htarget⟩ ⟨hfield hP (by simp), hvalue⟩
  | name => exact .name
  | pattern hnames hdefaults =>
    obtain ⟨hPnames, hPdefaults⟩ := List.forall_mem_append.mp hP
    exact .pattern (hids hPnames hnames) ((List.forall₂_and_left _ _).mpr ⟨hPdefaults, hdefaults⟩)
  | thisRef => exact .thisRef
  | call hcallee hargs =>
    obtain ⟨hPcallee, hPargs⟩ := List.forall_mem_cons.mp hP
    exact .call ⟨hPcallee, hcallee⟩ ((List.forall₂_and_left _ _).mpr ⟨hPargs, hargs⟩)
  | member hobject hproperty =>
    exact .member ⟨hfield hP (by simp), hobject⟩ ⟨hfield hP (by simp), hproperty⟩
  | conditional hinit htest hupdate heach hbody hotherwise =>
    exact .conditional ⟨hfield hP (by simp), hinit⟩ ⟨hfield hP (by simp), htest⟩
      ⟨hfield hP (by simp), hupdate⟩ ⟨hfield hP (by simp), heach⟩ ⟨hfield hP (by simp), hbody⟩
      ⟨hfield hP (by simp), hotherwise⟩
  | switch hdiscriminant hclauses =>
    obtain ⟨hPdiscriminant, hPclauses⟩ := List.forall_mem_append.mp hP
    exact .switch ⟨hfield hPdiscriminant (by simp), hdiscriminant⟩ (hids hPclauses hclauses)
  | clause htest hbody =>
    obtain ⟨hPtest, hPbody⟩ := List.forall_mem_append.mp hP
    exact .clause ⟨hfield hPtest (by simp), htest⟩ ((List.forall₂_and_left _ _).mpr ⟨hPbody, hbody⟩)
  | literal => exact .literal
  | composite helements => exact .composite ((List.forall₂_and_left _ _).mpr ⟨hP, helements⟩)
  | operation hoperands => exact .operation ((List.forall₂_and_left _ _).mpr ⟨hP, hoperands⟩)
  | other hnodes => exact .other ((List.forall₂_and_left _ _).mpr ⟨hP, hnodes⟩)

/-- The relation mirrors what is seen from the function at `root` of one graph in the
other. -/
structure Graph.Mirrors (g g' : Graph) (root : NodeId) (R : Option NodeId → Option NodeId → Prop) :
    Prop where
  isSome : ∀ {c c'}, R c c' → c.isSome = c'.isSome
  node : ∀ {c c'}, R c c' → (g.at? c = none ∧ g'.at? c' = none) ∨
    ∃ n n', g.at? c = some n ∧ g'.at? c' = some n' ∧ n.Alike R n'
  same : ∀ {a b}, R (some a) (some b) →
    a = b ∨ a ≠ root ∧ b ≠ root ∧ g.IsFunction a ∧ g'.IsFunction b
  line : ∀ {n n'}, g.node? root = some n → g'.node? root = some n' → n.line = n'.line

namespace Graph.Mirrors

variable {g g' : Graph} {root : NodeId} {R : Option NodeId → Option NodeId → Prop}
  {c c' : Option NodeId}

theorem name? (h : g.Mirrors g' root R) (hc : R c c') : g.name? c = g'.name? c' := by
  unfold Graph.name?
  rcases h.node hc with ⟨hat, hat'⟩ | ⟨n, n', hat, hat', halike⟩
  · rw [hat, hat']
  · rw [hat, hat']
    cases halike <;> rfl

theorem isMember (h : g.Mirrors g' root R) (hc : R c c') : g.isMember c = g'.isMember c' := by
  unfold Graph.isMember
  rcases h.node hc with ⟨hat, hat'⟩ | ⟨n, n', hat, hat', halike⟩
  · rw [hat, hat']
  · rw [hat, hat']
    cases halike <;> rfl

theorem rootWithin (h : g.Mirrors g' root R) (n : Nat) (hc : R c c') :
    g.rootWithin n c = g'.rootWithin n c' := by
  induction n generalizing c c' with
  | zero => rfl
  | succ n ih =>
    unfold Graph.rootWithin
    rcases h.node hc with ⟨hat, hat'⟩ | ⟨n, n', hat, hat', halike⟩
    · rw [hat, hat']
    · rw [hat, hat']
      cases halike with
      | member hobject _ => exact ih hobject
      | _ => rfl

/-- The base of a chain does not depend on how large the graph is. -/
theorem root? (h : g.Mirrors g' root R) (hc : R c c') : g.root? c = g'.root? c' := by
  have hsize := Nat.le_max_left (g.size + 1) (g'.size + 1)
  have hsize' := Nat.le_max_right (g.size + 1) (g'.size + 1)
  rw [← rootWithin_of_le hsize, ← rootWithin_of_le hsize']
  exact h.rootWithin _ hc

theorem present (h : g.Mirrors g' root R) {cs cs' : List (Option NodeId)}
    (hcs : List.Forall₂ R cs cs') : List.Forall₂ R (present cs) (TaintReach.present cs') :=
  List.rel_filter (fun _ _ hc => iff_of_eq (congrArg (· = true) (h.isSome hc))) hcs

theorem map_some {ids ids' : List NodeId}
    (hids : List.Forall₂ (fun a b => R (some a) (some b)) ids ids') :
    List.Forall₂ R (ids.map some) (ids'.map some) :=
  List.forall₂_map_left_iff.mpr (List.forall₂_map_right_iff.mpr hids)

/-- Nodes that are alike and no functions hold related fields. -/
theorem children (h : g.Mirrors g' root R) {n n' : Node} (halike : n.Alike R n')
    (hform : ∀ name params body locals, n.form ≠ .function name params body locals) :
    List.Forall₂ R n.form.children n'.form.children := by
  cases halike with
  | function => exact absurd rfl (hform _ _ _ _)
  | declaration hbindings => exact map_some hbindings
  | binding htarget hinit => exact h.present (.cons htarget (.cons hinit .nil))
  | assignment htarget hvalue => exact h.present (.cons htarget (.cons hvalue .nil))
  | name => exact .nil
  | pattern hnames hdefaults => exact List.rel_append (map_some hnames) hdefaults
  | thisRef => exact .nil
  | call hcallee hargs => exact .cons hcallee hargs
  | member hobject hproperty => exact h.present (.cons hobject (.cons hproperty .nil))
  | conditional hinit htest hupdate heach hbody hotherwise =>
    exact h.present (.cons hinit (.cons htest (.cons heach (.cons hbody (.cons hupdate
      (.cons hotherwise .nil))))))
  | switch hdiscriminant hclauses =>
    exact List.rel_append (h.present (.cons hdiscriminant .nil)) (map_some hclauses)
  | clause htest hbody => exact List.rel_append (h.present (.cons htest .nil)) hbody
  | literal => exact .nil
  | composite helements => exact helements
  | operation hoperands => exact hoperands
  | other hnodes => exact hnodes

/-! ### Paths -/

/-- Of two related nodes both are on the path or none, and if both are they stand on
the same line. -/
def OnPath (g g' : Graph) (R : Option NodeId → Option NodeId → Prop) (path : List NodeId) : Prop :=
  ∀ {a b}, R (some a) (some b) → (a ∈ path ↔ b ∈ path) ∧
    ∀ {n n'}, a ∈ path → g.node? a = some n → g'.node? b = some n' → n.line = n'.line

theorem onPath_root (h : g.Mirrors g' root R) : OnPath g g' R [root] := by
  intro a b hab
  simp only [List.mem_singleton]
  rcases h.same hab with rfl | ⟨ha, hb, _⟩
  · exact ⟨Iff.rfl, fun ha hn hn' => by subst ha; exact h.line hn hn'⟩
  · exact ⟨iff_of_false ha hb, fun h => absurd h ha⟩

theorem onPath_cons (h : g.Mirrors g' root R) {path : List NodeId} (hpath : OnPath g g' R path)
    {a b : NodeId} {n n' : Node} (hab : R (some a) (some b)) (hn : g.node? a = some n)
    (hn' : g'.node? b = some n') (halike : n.Alike R n')
    (hform : ∀ name params body locals, n.form ≠ .function name params body locals) :
    a = b ∧ OnPath g g' R (a :: path) := by
  have hplain : ¬ g.IsFunction a := by
    rintro ⟨line, name, params, body, locals, hfn⟩
    obtain rfl := Option.some.inj (hn.symm.trans hfn)
    exact hform _ _ _ _ rfl
  have hplain' : ¬ g'.IsFunction b := by
    rintro ⟨line, name, params, body, locals, hfn⟩
    obtain rfl := Option.some.inj (hn'.symm.trans hfn)
    cases halike
    exact hform _ _ _ _ rfl
  have hline : n.line = n'.line := by
    cases halike with
    | function => exact absurd rfl (hform _ _ _ _)
    | _ => rfl
  obtain rfl : a = b := (h.same hab).resolve_right fun hfn => hplain hfn.2.2.1
  refine ⟨rfl, fun {c d} hcd => ?_⟩
  simp only [List.mem_cons]
  rcases h.same hcd with rfl | ⟨_, _, hc, hd⟩
  · refine ⟨Iff.rfl, fun {m m'} hmem hm hm' => ?_⟩
    rcases hmem with rfl | hmem
    · rw [← Option.some.inj (hn.symm.trans hm), ← Option.some.inj (hn'.symm.trans hm'), hline]
    · exact (hpath hcd).2 hmem hm hm'
  · have hca : c ≠ a := fun heq => hplain (heq ▸ hc)
    have hda : d ≠ a := fun heq => hplain' (heq ▸ hd)
    simp only [hca, hda, false_or]
    exact hpath hcd

/-- What two related fields hold: nothing, functions that are not on the path, or the
same node. -/
theorem cases (h : g.Mirrors g' root R) (hc : R c c') :
    (c = none ∧ c' = none) ∨ ∃ a b, c = some a ∧ c' = some b ∧
      ((g.node? a = none ∧ g'.node? b = none) ∨
        ∃ n n', g.node? a = some n ∧ g'.node? b = some n' ∧ n.Alike R n') := by
  have hsome := h.isSome hc
  cases c with
  | none =>
    cases c' with
    | none => exact .inl ⟨rfl, rfl⟩
    | some b => cases hsome
  | some a =>
    cases c' with
    | none => cases hsome
    | some b => exact .inr ⟨a, b, rfl, rfl, h.node hc⟩

end Graph.Mirrors

/-! ### Conditions -/

namespace Walk

open Graph.Mirrors (OnPath)

variable {g g' : Graph} {root : NodeId} {R : Option NodeId → Option NodeId → Prop}

theorem foldParts_congr {part part' : Option NodeId → Classified}
    (hpart : ∀ c c', R c c' → part c = part' c') {cs cs' : List (Option NodeId)}
    (hcs : List.Forall₂ R cs cs') (acc : Classified) :
    foldParts part acc cs = foldParts part' acc cs' := by
  induction hcs generalizing acc with
  | nil => rfl
  | cons hc _ ih =>
    unfold foldParts
    simp only [hpart _ _ hc, ih]

theorem constant?_congr {n n' : Node} (halike : n.Alike R n') (consts : Consts) :
    constant? consts n.form = constant? consts n'.form := by
  cases halike <;> rfl

theorem getLast_congr {c c' : Option NodeId} {cs cs' : List (Option NodeId)} (hc : R c c')
    (hcs : List.Forall₂ R cs cs') :
    R ((c :: cs).getLast (List.cons_ne_nil c cs))
      ((c' :: cs').getLast (List.cons_ne_nil c' cs')) := by
  induction hcs generalizing c c' with
  | nil => exact hc
  | cons hd _ ih => exact ih hd

theorem judge_congr (h : g.Mirrors g' root R)
    {operand operand' part part' : Option NodeId → Classified}
    (hoperand : ∀ c c', R c c' → operand c = operand' c')
    (hpart : ∀ c c', R c c' → part c = part' c') {n n' : Node} (halike : n.Alike R n')
    (hform : ∀ name params body locals, n.form ≠ .function name params body locals) :
    judge operand part n.form = judge operand' part' n'.form := by
  have hfold := foldParts_congr hpart (h.children halike hform) ⟨.always, none⟩
  cases halike with
  | function => exact absurd rfl (hform _ _ _ _)
  | name => rfl
  | thisRef => rfl
  | @operation line operator operands operands' hoperands =>
    -- what an operator does to its operands depends on it and on their number only
    rcases hoperands with _ | ⟨ha, _ | ⟨hb, _ | ⟨_, _⟩⟩⟩
    · simpa [judge] using hfold
    · by_cases hnot : operator = "!"
      · subst hnot
        simp only [judge, hoperand _ _ ha]
      · simpa [judge, hnot] using hfold
    · by_cases hand : operator = "&&"
      · subst hand
        simp only [judge, hoperand _ _ ha, hoperand _ _ hb]
      by_cases hor : operator = "||"
      · subst hor
        simp only [judge, hoperand _ _ ha, hoperand _ _ hb]
      by_cases hnull : operator = "??"
      · subst hnull
        simp only [judge, hoperand _ _ ha, hoperand _ _ hb]
      simpa [judge, hand, hor, hnull] using hfold
    · simpa [judge] using hfold
  | @other line kind nodes nodes' hnodes =>
    rcases hnodes with _ | ⟨hfirst, hrest⟩
    · simpa [judge] using hfold
    · by_cases hkind : kind = "sequence"
      · subst hkind
        simp only [judge, hoperand _ _ (getLast_congr hfirst hrest)]
      · simpa [judge, hkind] using hfold
  | _ => exact hfold

theorem operand_congr (h : g.Mirrors g' root R) (consts : Consts) {path : List NodeId}
    (hpath : OnPath g g' R path) {c c' : Option NodeId} (hc : R c c') :
    operand g consts path c = operand g' consts path c' := by
  induction hroom : g.room path using Nat.strongRecOn generalizing path c c' with
  | _ n ih =>
    rw [operand_eq, operand_eq]
    unfold operandCall
    rcases h.cases hc with ⟨rfl, rfl⟩ | ⟨a, b, rfl, rfl, ⟨hn, hn'⟩ | ⟨n, n', hn, hn', halike⟩⟩
    · rfl
    · simp only [hn, hn']
    simp only [hn, hn', constant?_congr halike]
    by_cases hconst : (constant? consts n'.form).isSome = true
    · rw [if_pos hconst, if_pos hconst]
    rw [if_neg hconst, if_neg hconst]
    have hform : ∀ name params body locals, n.form ≠ .function name params body locals := by
      intro name params body locals hfn
      refine hconst ?_
      rw [← constant?_congr halike, hfn]
      rfl
    obtain ⟨hmem, hline⟩ := hpath hc
    have hfold : (if a ∈ path then (⟨.never, some n.line⟩ : Classified)
          else foldParts (operand g consts (a :: path)) ⟨.always, none⟩ n.form.children) =
        if b ∈ path then ⟨.never, some n'.line⟩
          else foldParts (operand g' consts (b :: path)) ⟨.always, none⟩ n'.form.children := by
      by_cases ha : a ∈ path
      · rw [if_pos ha, if_pos (hmem.mp ha), hline ha hn hn']
      · rw [if_neg ha, if_neg (mt hmem.mpr ha)]
        obtain ⟨rfl, hon⟩ := h.onPath_cons hpath hc hn hn' halike hform
        have hless := hroom ▸ g.room_cons_lt hn ha
        exact foldParts_congr (fun c c' hcc => ih _ hless hon hcc rfl)
          (h.children halike hform) _
    cases halike with
    | name => rfl
    | thisRef => rfl
    | _ => exact hfold

theorem classify_congr (h : g.Mirrors g' root R) (consts : Consts) {path : List NodeId}
    (hpath : OnPath g g' R path) {c c' : Option NodeId} (hc : R c c') :
    classify g consts path c = classify g' consts path c' := by
  induction hroom : g.room path using Nat.strongRecOn generalizing path c c' with
  | _ n ih =>
    rw [classify_eq, classify_eq]
    unfold classifyCall
    rcases h.cases hc with ⟨rfl, rfl⟩ | ⟨a, b, rfl, rfl, ⟨hn, hn'⟩ | ⟨n, n', hn, hn', halike⟩⟩
    · rfl
    · simp only [hn, hn']
    obtain ⟨hmem, hline⟩ := hpath hc
    simp only [hn, hn', constant?_congr halike]
    by_cases ha : a ∈ path
    · rw [if_pos ha, if_pos (hmem.mp ha), hline ha hn hn']
    rw [if_neg ha, if_neg (mt hmem.mpr ha)]
    rcases hconst : constant? consts n'.form with _ | truthy
    · have hform : ∀ name params body locals, n.form ≠ .function name params body locals := by
        intro name params body locals hfn
        rw [← constant?_congr halike, hfn] at hconst
        cases hconst
      obtain ⟨rfl, hon⟩ := h.onPath_cons hpath hc hn hn' halike hform
      have hless := hroom ▸ g.room_cons_lt hn ha
      exact judge_congr h (fun c c' hcc => ih _ hless hon hcc rfl)
        (fun c c' hcc => operand_congr h consts hon hcc) halike hform
    · rfl

/-! ### The rules -/

theorem foldl_congr {α : Type} {S : α → α → Prop} {f f' : State → α → State}
    (hf : ∀ x y, S x y → ∀ s, f s x = f' s y) {xs ys : List α} (hxs : List.Forall₂ S xs ys)
    (s : State) : xs.foldl f s = ys.foldl f' s :=
  List.rel_foldl (P := Eq) (fun s _ hs _ _ hxy => hs ▸ hf _ _ hxy s) rfl hxs

section
variable {E : Setting} {visit visit' : Visit} (h : E.graph.Mirrors g' root R)
  (hv : ∀ c c', R c c' → ∀ s, visit c s = visit' c' s)

include hv in
theorem visitAll_congr {cs cs' : List (Option NodeId)} (hcs : List.Forall₂ R cs cs') (s : State) :
    visitAll visit cs s = visitAll visit' cs' s :=
  foldl_congr hv hcs s

include h hv in
theorem assign_congr {target target' value value' : Option NodeId} (ht : R target target')
    (hval : R value value') (s : State) :
    assign E visit target value s = assign { E with graph := g' } visit' target' value' s := by
  have hvalue : visit value = visit' value' := funext (hv _ _ hval)
  have htarget : visit target = visit' target' := funext (hv _ _ ht)
  unfold assign
  simp only [h.root? ht, h.name? hval, hvalue, htarget]
  rcases h.node ht with ⟨hat, hat'⟩ | ⟨n, n', hat, hat', halike⟩
  · rw [hat, hat']
  rw [hat, hat']
  cases halike with
  | @pattern line names names' defaults defaults' hnames hdefaults =>
    have hempty : names = [] ↔ names' = [] := by
      cases hnames <;> simp
    simp only [hempty]
    refine congrArg (Prod.mk none) ?_
    rw [foldl_congr (fun d d' hd s => ?_) hdefaults]
    · congr 1
      refine foldl_congr (fun a b hab s => ?_) hnames _
      rw [h.name? hab]
    · rw [show visit d = visit' d' from funext (hv _ _ hd)]
  | @member line object object' property property' propName computed hobject hproperty =>
    simp only [show visit property = visit' property' from funext (hv _ _ hproperty)]
  | _ => rfl

include h in
theorem recordConst_congr {a b : NodeId} (hab : R (some a) (some b)) (s : State) :
    recordConst E.graph a s = recordConst g' b s := by
  unfold recordConst
  have hnode := h.node hab
  simp only [Graph.at?, Option.bind_some] at hnode
  rcases hnode with ⟨hn, hn'⟩ | ⟨n, n', hn, hn', halike⟩
  · rw [hn, hn']
  rw [hn, hn']
  cases halike with
  | @binding line target target' init init' htarget hinit =>
    simp only [h.name? htarget]
    rcases g'.name? target' with _ | p
    · rfl
    rcases h.node hinit with ⟨hat, hat'⟩ | ⟨m, m', hat, hat', hinner⟩
    · rw [hat, hat']
    · rw [hat, hat']
      cases hinner <;> rfl
  | _ => rfl

include h hv in
theorem declaration_congr (kind : DeclKind) {bindings bindings' : List NodeId}
    (hbindings : List.Forall₂ (fun a b => R (some a) (some b)) bindings bindings') (s : State) :
    declaration E visit kind bindings s =
      declaration { E with graph := g' } visit' kind bindings' s := by
  refine foldl_congr (fun a b hab s => ?_) hbindings s
  simp only [hv _ _ hab, recordConst_congr h hab]

include h in
theorem methodCall_congr {callee callee' : Option NodeId} {args args' : List (Option NodeId)}
    (hcallee : R callee callee') (hargs : List.Forall₂ R args args') (s : State) :
    methodCall E callee args s = methodCall { E with graph := g' } callee' args' s := by
  unfold methodCall
  simp only [h.isMember hcallee, h.root? hcallee]
  split
  · refine foldl_congr (fun a b hab s => ?_) hargs _
    rw [h.name? hab]
  · rfl

include h hv in
theorem call_congr (line : Int) {callee callee' : Option NodeId} {args args' : List (Option NodeId)}
    (isNew : Bool) (hcallee : R callee callee') (hargs : List.Forall₂ R args args') (s : State) :
    call E visit line callee args isNew s =
      call { E with graph := g' } visit' line callee' args' isNew s := by
  have hempty : args = [] ↔ args' = [] := by
    cases hargs <;> simp
  unfold call
  simp only [h.name? hcallee, hempty, visitAll_congr hv hargs, methodCall_congr h hcallee hargs,
    hv _ _ hcallee]
  rcases hargs with _ | ⟨ha, _ | ⟨_, _⟩⟩
  · rfl
  · simp only [h.name? ha]
  · rfl

include h hv in
theorem conditional_congr {path : List NodeId} (hpath : OnPath E.graph g' R path) (line : Int)
    (kind : CondKind) {init init' test test' update update' : Option NodeId}
    {each each' body body' otherwise otherwise' : Option NodeId}
    (hinit : R init init') (htest : R test test') (hupdate : R update update')
    (heach : R each each') (hbody : R body body') (hotherwise : R otherwise otherwise')
    (s : State) :
    conditional E path visit line kind init test update each body otherwise s =
      conditional { E with graph := g' } path visit' line kind init' test' update' each' body'
        otherwise' s := by
  have hnone : otherwise.isNone = otherwise'.isNone := by
    have hsome := h.isSome hotherwise
    cases otherwise <;> cases otherwise' <;> simp_all
  unfold conditional
  simp only [hv _ _ hinit, hv _ _ hupdate, hv _ _ heach, hv _ _ hbody, hnone,
    show visit otherwise = visit' otherwise' from funext (hv _ _ hotherwise),
    classify_congr h _ hpath htest]

include h hv in
theorem switch_congr {clauses clauses' : List NodeId}
    (hclauses : List.Forall₂ (fun a b => R (some a) (some b)) clauses clauses') (s : State) :
    switch E visit clauses s = switch { E with graph := g' } visit' clauses' s := by
  unfold switch
  simp only
  rw [foldl_congr (fun a b hab s => ?_) hclauses]
  have hnode := h.node hab
  simp only [Graph.at?, Option.bind_some] at hnode
  rcases hnode with ⟨hn, hn'⟩ | ⟨n, n', hn, hn', halike⟩
  · rw [hn, hn']
  rw [hn, hn']
  cases halike with
  | clause _ hbody => exact visitAll_congr hv hbody s
  | _ => rfl

include h hv in
theorem visitNode_congr {path : List NodeId} (hpath : OnPath E.graph g' R path) {n n' : Node}
    (halike : n.Alike R n') (s : State) :
    visitNode E path visit n s = visitNode { E with graph := g' } path visit' n' s := by
  cases halike with
  | function => rfl
  | declaration hbindings => exact declaration_congr h hv _ hbindings s
  | binding htarget hinit => exact congrArg Prod.snd (assign_congr h hv htarget hinit s)
  | assignment htarget hvalue =>
    unfold visitNode
    simp only [assign_congr h hv htarget hvalue]
  | call hcallee hargs => exact call_congr h hv _ _ hcallee hargs s
  | conditional hinit htest hupdate heach hbody hotherwise =>
    exact conditional_congr h hv hpath _ _ hinit htest hupdate heach hbody hotherwise s
  | switch _ hclauses => exact switch_congr h hv hclauses s
  | name => rfl
  | thisRef => rfl
  | literal => rfl
  | pattern hnames hdefaults =>
    exact visitAll_congr hv (List.rel_append (Graph.Mirrors.map_some hnames) hdefaults) s
  | member hobject hproperty =>
    exact visitAll_congr hv (h.present (.cons hobject (.cons hproperty .nil))) s
  | clause htest hbody =>
    exact visitAll_congr hv (List.rel_append (h.present (.cons htest .nil)) hbody) s
  | composite helements => exact visitAll_congr hv helements s
  | operation hoperands => exact visitAll_congr hv hoperands s
  | other hnodes => exact visitAll_congr hv hnodes s

end

theorem walk_congr {E : Setting} (h : E.graph.Mirrors g' root R) {path : List NodeId}
    (hpath : OnPath E.graph g' R path) {c c' : Option NodeId} (hc : R c c') (s : State) :
    walk E path c s = walk { E with graph := g' } path c' s := by
  induction hroom : E.graph.room path using Nat.strongRecOn generalizing path c c' s with
  | _ n ih =>
    rcases h.cases hc with ⟨rfl, rfl⟩ | ⟨a, b, rfl, rfl, hnodes⟩
    · rw [walk_none, walk_none]
    rcases hs : s.fault with _ | f
    · rcases hnodes with ⟨hn, hn'⟩ | ⟨n, n', hn, hn', halike⟩
      · rw [walk_missing hn, walk_missing (E := { E with graph := g' }) hn']
      obtain ⟨hmem, hline⟩ := hpath hc
      by_cases ha : a ∈ path
      · rw [walk_cyclic hs hn ha, walk_cyclic (E := { E with graph := g' }) hs hn' (hmem.mp ha),
          hline ha hn hn']
      rw [walk_some hs hn ha, walk_some (E := { E with graph := g' }) hs hn' (mt hmem.mpr ha)]
      by_cases hform : ∃ name params body locals, n.form = .function name params body locals
      · obtain ⟨line, form⟩ := n
        obtain ⟨name, params, body, locals, rfl⟩ := hform
        cases halike
        rfl
      · have hplain : ∀ name params body locals, n.form ≠ .function name params body locals :=
          fun _ _ _ _ hfn => hform ⟨_, _, _, _, hfn⟩
        obtain ⟨rfl, hon⟩ := h.onPath_cons hpath hc hn hn' halike hplain
        have hless := hroom ▸ E.graph.room_cons_lt hn ha
        exact visitNode_congr h (fun c c' hcc s => ih _ hless hon hcc s rfl) hon halike s
    · rw [walk_of_fault _ (by rw [hs]; rfl), walk_of_fault _ (by rw [hs]; rfl)]

/-- **What mirrors a function is analysed like it.** -/
theorem analyzeFunction_congr {E : Setting} (h : E.graph.Mirrors g' root R) {line : Int}
    {name : String} {params params' body body' : List (Option NodeId)}
    {locals locals' : List String}
    (hfn : E.graph.node? root = some ⟨line, .function name params body locals⟩)
    (hfn' : g'.node? root = some ⟨line, .function name params' body' locals'⟩)
    (hparams : List.Forall₂ R params params') (hbody : List.Forall₂ R body body') :
    analyzeFunction E (some root) = analyzeFunction { E with graph := g' } (some root) := by
  have hat : E.graph.at? (some root) = some ⟨line, .function name params body locals⟩ := hfn
  have hat' : g'.at? (some root) = some ⟨line, .function name params' body' locals'⟩ := hfn'
  have hv : ∀ c c', R c c' → ∀ s, walk E [root] c s = walk { E with graph := g' } [root] c' s :=
    fun _ _ hc s => walk_congr h h.onPath_root hc s
  unfold analyzeFunction
  simp only [hat, hat', visitAll_congr hv hparams, visitAll_congr hv hbody]

end Walk

end TaintReach
