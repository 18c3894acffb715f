import TaintReach.Proofs.Script.Outline
import TaintReach.Proofs.Walk.Analysed

/-! The names a function declares.

Which names those are is said over the syntax: the names that the patterns of its
parameters bind, and those that some statement of its body introduces, however deep
inside other statements (`Function.Declares`). Expressions introduce none, so nothing
is said of functions inside. The locals of a function are these names (`mem_locals`),
and they decide for every variable of an analysed scope whether it escapes
(`locals_exact`). -/
namespace TaintReach.Script

/-! ### What binds a name -/

/-- The pattern binds `x`. -/
inductive Pattern.Binds (x : String) : Pattern → Prop
  | name (pos : Pos) : Binds x (.name pos x)
  | withDefault {target : Pattern} (value : Expr) (h : Binds x target) :
    Binds x (.withDefault target value)
  | element (pos : Pos) {p : Pattern} {elements : List Pattern} (rest : Option Pattern)
    (hp : p ∈ elements) (h : Binds x p) : Binds x (.array pos elements rest)
  | arrayRest (pos : Pos) (elements : List Pattern) {p : Pattern} (h : Binds x p) :
    Binds x (.array pos elements (some p))
  | short (pos : Pos) {at_ : Pos} {default : Option Expr} {properties : List PatternProperty}
    (rest : Option Pattern) (hp : .short at_ x default ∈ properties) :
    Binds x (.object pos properties rest)
  | keyed (pos : Pos) {key : Key} {p : Pattern} {properties : List PatternProperty}
    (rest : Option Pattern) (hp : .keyed key p ∈ properties) (h : Binds x p) :
    Binds x (.object pos properties rest)
  | objectRest (pos : Pos) (properties : List PatternProperty) {p : Pattern} (h : Binds x p) :
    Binds x (.object pos properties (some p))

/-- A statement and one that stands directly in it. -/
inductive Stmt.Part : Stmt → Stmt → Prop
  | block (pos : Pos) {list : List Stmt} {s : Stmt} (h : s ∈ list) : Part (.block pos list) s
  | thenBranch (test : Expr) (yes : Stmt) (no : Option Stmt) : Part (.ifElse test yes no) yes
  | elseBranch (test : Expr) (yes no : Stmt) : Part (.ifElse test yes (some no)) no
  | init (pos : Pos) (s : Stmt) (test update : Option Expr) (body : Stmt) :
    Part (.forLoop pos (some s) test update body) s
  | forBody (pos : Pos) (init : Option Stmt) (test update : Option Expr) (body : Stmt) :
    Part (.forLoop pos init test update body) body
  | eachBody (pos : Pos) (kind : CondKind) (declares : Bool) (target : Pattern) (source : Expr)
    (body : Stmt) : Part (.forEach pos kind declares target source body) body
  | whileBody (pos : Pos) (test : Expr) (body : Stmt) : Part (.whileLoop pos test body) body
  | doBody (pos : Pos) (body : Stmt) (test : Expr) : Part (.doLoop pos body test) body
  | clause (pos : Pos) (discriminant : Expr) {clauses : List Clause} {at_ : Pos}
    {test : Option Expr} {body : List Stmt} {s : Stmt} (hc : .mk at_ test body ∈ clauses)
    (h : s ∈ body) : Part (.switch pos discriminant clauses) s
  | tryBody (pos : Pos) (body : Stmt) (handler : Option Handler) (finalizer : Option Stmt) :
    Part (.tryCatch pos body handler finalizer) body
  | handler (pos : Pos) (body : Stmt) (at_ : Pos) (param : Option Pattern) (s : Stmt)
    (finalizer : Option Stmt) : Part (.tryCatch pos body (some (.mk at_ param s)) finalizer) s
  | finalizer (pos : Pos) (body : Stmt) (handler : Option Handler) (s : Stmt) :
    Part (.tryCatch pos body handler (some s)) s
  | labelled (label : String) (body : Stmt) : Part (.labelled label body) body
  | withBody (pos : Pos) (object : Expr) (body : Stmt) : Part (.withObject pos object body) body

/-- The statement itself introduces `x`. -/
inductive Stmt.Introduces (x : String) : Stmt → Prop
  | declare (pos : Pos) (kind : DeclKind) {bindings : List Binding} {target : Pattern}
    {init : Option Expr} (hb : .mk target init ∈ bindings) (h : target.Binds x) :
    Introduces x (.declare pos kind bindings)
  | function (pos : Pos) (params : List Binding) (rest : Option Pattern) (body : FunctionBody) :
    Introduces x (.function (.mk pos (some x) params rest body))
  | classDecl (pos : Pos) (superClass : Option Expr) (members : List Member) :
    Introduces x (.classDecl (.mk pos (some x) superClass members))
  | forEach (pos : Pos) (kind : CondKind) {target : Pattern} (source : Expr) (body : Stmt)
    (h : target.Binds x) : Introduces x (.forEach pos kind true target source body)
  | handler (pos : Pos) (body : Stmt) (at_ : Pos) {param : Pattern} (caught : Stmt)
    (finalizer : Option Stmt) (h : param.Binds x) :
    Introduces x (.tryCatch pos body (some (.mk at_ (some param) caught)) finalizer)

/-- The statement, or one in it, introduces `x`. -/
def Stmt.Declares (s : Stmt) (x : String) : Prop :=
  ∃ t, Relation.ReflTransGen Stmt.Part s t ∧ t.Introduces x

/-- The function declares `x`. -/
inductive Function.Declares (x : String) : Function → Prop
  | param (pos : Pos) (name : Option String) {params : List Binding} (rest : Option Pattern)
    (body : FunctionBody) {target : Pattern} {init : Option Expr}
    (hb : .mk target init ∈ params) (h : target.Binds x) :
    Declares x (.mk pos name params rest body)
  | rest (pos : Pos) (name : Option String) (params : List Binding) {p : Pattern}
    (body : FunctionBody) (h : p.Binds x) : Declares x (.mk pos name params (some p) body)
  | body (pos : Pos) (name : Option String) (params : List Binding) (rest : Option Pattern)
    {list : List Stmt} {s : Stmt} (hs : s ∈ list) (h : s.Declares x) :
    Declares x (.mk pos name params rest (.block list))

/-! ### The names are computed -/

variable {x : String}

mutual

theorem Pattern.binds_of_mem : (p : Pattern) → x ∈ p.names.map Prod.snd → p.Binds x
  | .name pos ident, h => by
    obtain rfl := List.mem_singleton.mp h
    exact .name pos
  | .member _, h => by cases h
  | .withDefault target value, h => .withDefault value (target.binds_of_mem h)
  | .array pos elements rest, h => by
    rcases List.mem_append.mp (List.map_append ▸ h) with h | h
    · obtain ⟨p, hp, hx⟩ := binds_of_mem_elements elements h
      exact .element pos rest hp hx
    · obtain ⟨p, rfl, hx⟩ := binds_of_mem_rest rest h
      exact .arrayRest pos elements hx
  | .object pos properties rest, h => by
    rcases List.mem_append.mp (List.map_append ▸ h) with h | h
    · rcases binds_of_mem_properties properties h with ⟨at_, default, hp⟩ | ⟨key, p, hp, hx⟩
      · exact .short pos rest hp
      · exact .keyed pos rest hp hx
    · obtain ⟨p, rfl, hx⟩ := binds_of_mem_rest rest h
      exact .objectRest pos properties hx

theorem binds_of_mem_elements : (ps : List Pattern) → x ∈ (namesOfElements ps).map Prod.snd →
    ∃ p ∈ ps, p.Binds x
  | [], h => by cases h
  | p :: ps, h => by
    rcases List.mem_append.mp (List.map_append ▸ h) with h | h
    · exact ⟨p, List.mem_cons_self, p.binds_of_mem h⟩
    · obtain ⟨q, hq, hx⟩ := binds_of_mem_elements ps h
      exact ⟨q, List.mem_cons_of_mem p hq, hx⟩

theorem binds_of_mem_properties : (ps : List PatternProperty) →
    x ∈ (namesOfProperties ps).map Prod.snd →
      (∃ at_ default, .short at_ x default ∈ ps) ∨ ∃ key p, .keyed key p ∈ ps ∧ p.Binds x
  | [], h => by cases h
  | .short pos name default :: ps, h => by
    rcases List.mem_cons.mp h with rfl | h
    · exact Or.inl ⟨pos, default, List.mem_cons_self⟩
    · rcases binds_of_mem_properties ps h with ⟨at_, default, hp⟩ | ⟨key, p, hp, hx⟩
      · exact Or.inl ⟨at_, default, List.mem_cons_of_mem _ hp⟩
      · exact Or.inr ⟨key, p, List.mem_cons_of_mem _ hp, hx⟩
  | .keyed key value :: ps, h => by
    rcases List.mem_append.mp (List.map_append ▸ h) with h | h
    · exact Or.inr ⟨key, value, List.mem_cons_self, value.binds_of_mem h⟩
    · rcases binds_of_mem_properties ps h with ⟨at_, default, hp⟩ | ⟨key, p, hp, hx⟩
      · exact Or.inl ⟨at_, default, List.mem_cons_of_mem _ hp⟩
      · exact Or.inr ⟨key, p, List.mem_cons_of_mem _ hp, hx⟩

theorem binds_of_mem_rest : (rest : Option Pattern) → x ∈ (namesOfRest rest).map Prod.snd →
    ∃ p, rest = some p ∧ p.Binds x
  | none, h => by cases h
  | some p, h => ⟨p, rfl, p.binds_of_mem h⟩

end

theorem names_subset_elements {p : Pattern} {ps : List Pattern} (h : p ∈ ps) :
    p.names ⊆ namesOfElements ps := by
  induction h with
  | head ps => exact List.subset_append_left _ _
  | tail q _ ih => exact List.subset_append_of_subset_right _ ih

theorem names_subset_properties {p : Pattern} {key : Key} {ps : List PatternProperty}
    (h : .keyed key p ∈ ps) : p.names ⊆ namesOfProperties ps := by
  induction ps with
  | nil => cases h
  | cons q ps ih =>
    rcases List.mem_cons.mp h with rfl | hp
    · exact List.subset_append_left _ _
    · cases q with
      | short => exact List.subset_cons_of_subset _ (ih hp)
      | keyed => exact List.subset_append_of_subset_right _ (ih hp)

theorem short_mem_properties {pos : Pos} {default : Option Expr} {ps : List PatternProperty}
    (h : .short pos x default ∈ ps) : (pos.line, x) ∈ namesOfProperties ps := by
  induction ps with
  | nil => cases h
  | cons q ps ih =>
    rcases List.mem_cons.mp h with rfl | hp
    · exact List.mem_cons_self
    · cases q with
      | short => exact List.mem_cons_of_mem _ (ih hp)
      | keyed => exact List.mem_append_right _ (ih hp)

/-- The names of a pattern are those it binds. -/
theorem Pattern.mem_idents {p : Pattern} : x ∈ p.idents ↔ p.Binds x := by
  refine ⟨p.binds_of_mem, fun h => ?_⟩
  unfold idents
  induction h with
  | name pos => exact List.mem_singleton_self x
  | withDefault value _ ih => exact ih
  | element pos rest hp _ ih =>
    exact List.map_subset _ (List.subset_append_of_subset_left _ (names_subset_elements hp)) ih
  | arrayRest pos elements _ ih => exact List.map_subset _ (List.subset_append_right _ _) ih
  | short pos rest hp =>
    exact List.mem_map.mpr ⟨_, List.mem_append_left _ (short_mem_properties hp), rfl⟩
  | keyed pos rest hp _ ih =>
    exact List.map_subset _ (List.subset_append_of_subset_left _ (names_subset_properties hp)) ih
  | objectRest pos properties _ ih => exact List.map_subset _ (List.subset_append_right _ _) ih

theorem mem_bindingIdents {bs : List Binding} :
    x ∈ bindingIdents bs ↔ ∃ target init, .mk target init ∈ bs ∧ target.Binds x := by
  unfold bindingIdents
  rw [List.mem_flatMap]
  constructor
  · rintro ⟨⟨target, init⟩, hb, hx⟩
    exact ⟨target, init, hb, Pattern.mem_idents.mp hx⟩
  · rintro ⟨target, init, hb, hx⟩
    exact ⟨.mk target init, hb, Pattern.mem_idents.mpr hx⟩

/-! ### Statements -/

open Stmt (Part Introduces)

theorem Stmt.Introduces.declares {s : Stmt} (h : s.Introduces x) : s.Declares x := ⟨s, .refl, h⟩

theorem Stmt.Part.declares {s t : Stmt} (hpart : s.Part t) (h : t.Declares x) : s.Declares x := by
  obtain ⟨u, htu, hu⟩ := h
  exact ⟨u, .head hpart htu, hu⟩

mutual

theorem Stmt.declares_of_mem : (s : Stmt) → x ∈ s.declared → s.Declares x
  | .block pos list, h => by
    obtain ⟨s, hs, hx⟩ := declares_of_mem_all list h
    exact (Part.block pos hs).declares hx
  | .expression _, h | .ret .., h | .throw .., h | .nothing, h => by cases h
  | .declare pos kind bindings, h => by
    obtain ⟨target, init, hb, hx⟩ := mem_bindingIdents.mp h
    exact (Introduces.declare pos kind hb hx).declares
  | .function (.mk pos name params rest body), h => by
    obtain rfl := Option.mem_toList.mp h
    exact (Introduces.function pos params rest body).declares
  | .classDecl (.mk pos name superClass members), h => by
    obtain rfl := Option.mem_toList.mp h
    exact (Introduces.classDecl pos superClass members).declares
  | .ifElse test yes no, h => by
    rcases List.mem_append.mp h with h | h
    · exact (Part.thenBranch test yes no).declares (yes.declares_of_mem h)
    · obtain ⟨s, rfl, hx⟩ := declares_of_mem? no h
      exact (Part.elseBranch test yes s).declares hx
  | .forLoop pos init test update body, h => by
    rcases List.mem_append.mp h with h | h
    · obtain ⟨s, rfl, hx⟩ := declares_of_mem? init h
      exact (Part.init pos s test update body).declares hx
    · exact (Part.forBody pos init test update body).declares (body.declares_of_mem h)
  | .forEach pos kind declares target source body, h => by
    rcases List.mem_append.mp h with h | h
    · cases declares with
      | true => exact (Introduces.forEach pos kind source body (Pattern.mem_idents.mp h)).declares
      | false => cases h
    · exact (Part.eachBody pos kind declares target source body).declares (body.declares_of_mem h)
  | .whileLoop pos test body, h =>
    (Part.whileBody pos test body).declares (body.declares_of_mem h)
  | .doLoop pos body test, h => (Part.doBody pos body test).declares (body.declares_of_mem h)
  | .switch pos discriminant clauses, h => by
    obtain ⟨at_, test, body, hc, s, hs, hx⟩ := declares_of_mem_clauses clauses h
    exact (Part.clause pos discriminant hc hs).declares hx
  | .tryCatch pos body handler finalizer, h => by
    rcases List.mem_append.mp h with h | h
    · rcases List.mem_append.mp h with h | h
      · exact (Part.tryBody pos body handler finalizer).declares (body.declares_of_mem h)
      · rcases declares_of_mem_handler handler h with
          ⟨at_, p, s, rfl, hx⟩ | ⟨at_, param, s, rfl, hx⟩
        · exact (Introduces.handler pos body at_ s finalizer hx).declares
        · exact (Part.handler pos body at_ param s finalizer).declares hx
    · obtain ⟨s, rfl, hx⟩ := declares_of_mem? finalizer h
      exact (Part.finalizer pos body handler s).declares hx
  | .labelled label body, h => (Part.labelled label body).declares (body.declares_of_mem h)
  | .withObject pos object body, h =>
    (Part.withBody pos object body).declares (body.declares_of_mem h)

theorem declares_of_mem_all : (list : List Stmt) → x ∈ declaredByAll list →
    ∃ s ∈ list, s.Declares x
  | [], h => by cases h
  | s :: ss, h => by
    rcases List.mem_append.mp h with h | h
    · exact ⟨s, List.mem_cons_self, s.declares_of_mem h⟩
    · obtain ⟨t, ht, hx⟩ := declares_of_mem_all ss h
      exact ⟨t, List.mem_cons_of_mem s ht, hx⟩

theorem declares_of_mem? : (s : Option Stmt) → x ∈ declaredBy? s → ∃ t, s = some t ∧ t.Declares x
  | none, h => by cases h
  | some s, h => ⟨s, rfl, s.declares_of_mem h⟩

theorem declares_of_mem_clauses : (cs : List Clause) → x ∈ declaredByClauses cs →
    ∃ at_ test body, Clause.mk at_ test body ∈ cs ∧ ∃ s ∈ body, s.Declares x
  | [], h => by cases h
  | .mk pos test body :: cs, h => by
    rcases List.mem_append.mp h with h | h
    · exact ⟨pos, test, body, List.mem_cons_self, declares_of_mem_all body h⟩
    · obtain ⟨at_, test', body', hc, hs⟩ := declares_of_mem_clauses cs h
      exact ⟨at_, test', body', List.mem_cons_of_mem _ hc, hs⟩

theorem declares_of_mem_handler : (handler : Option Handler) → x ∈ declaredByHandler handler →
    (∃ at_ p s, handler = some (.mk at_ (some p) s) ∧ p.Binds x) ∨
    ∃ at_ param s, handler = some (.mk at_ param s) ∧ s.Declares x
  | none, h => by cases h
  | some (.mk pos none body), h => Or.inr ⟨pos, none, body, rfl, body.declares_of_mem h⟩
  | some (.mk pos (some p) body), h => by
    rcases List.mem_append.mp h with h | h
    · exact Or.inl ⟨pos, p, body, rfl, Pattern.mem_idents.mp h⟩
    · exact Or.inr ⟨pos, some p, body, rfl, body.declares_of_mem h⟩

end

theorem declared_subset_all {s : Stmt} {list : List Stmt} (h : s ∈ list) :
    s.declared ⊆ declaredByAll list := by
  induction h with
  | head ss => exact List.subset_append_left _ _
  | tail t _ ih => exact List.subset_append_of_subset_right _ ih

theorem declared_subset_clauses {pos : Pos} {test : Option Expr} {body : List Stmt}
    {cs : List Clause} (h : .mk pos test body ∈ cs) :
    declaredByAll body ⊆ declaredByClauses cs := by
  induction cs with
  | nil => cases h
  | cons c cs ih =>
    obtain ⟨at_, test', body'⟩ := c
    rcases List.mem_cons.mp h with heq | hc
    · cases heq
      exact List.subset_append_left _ _
    · exact List.subset_append_of_subset_right _ (ih hc)

theorem Stmt.Part.declared_subset {s t : Stmt} (h : s.Part t) : t.declared ⊆ s.declared := by
  cases h with
  | block pos hs => exact declared_subset_all hs
  | thenBranch | init => exact List.subset_append_left _ _
  | elseBranch | forBody | eachBody | finalizer => exact List.subset_append_right _ _
  | clause pos discriminant hc hs =>
    exact List.Subset.trans (declared_subset_all hs) (declared_subset_clauses hc)
  | tryBody =>
    exact List.subset_append_of_subset_left _ (List.subset_append_left _ _)
  | handler =>
    exact List.subset_append_of_subset_left _ (List.subset_append_of_subset_right _
      (List.subset_append_right _ _))
  | whileBody | doBody | labelled | withBody => exact List.Subset.refl _

theorem Stmt.Introduces.mem_declared {s : Stmt} (h : s.Introduces x) : x ∈ s.declared := by
  cases h with
  | declare pos kind hb hx => exact mem_bindingIdents.mpr ⟨_, _, hb, hx⟩
  | function | classDecl => exact List.mem_singleton_self x
  | forEach pos kind source body hx => exact List.mem_append_left _ (Pattern.mem_idents.mpr hx)
  | handler pos body at_ caught finalizer hx =>
    exact List.mem_append_left _ (List.mem_append_right _
      (List.mem_append_left _ (Pattern.mem_idents.mpr hx)))

/-- What a statement declares is introduced in it. -/
theorem Stmt.mem_declared {s : Stmt} : x ∈ s.declared ↔ s.Declares x := by
  refine ⟨s.declares_of_mem, ?_⟩
  rintro ⟨t, hparts, ht⟩
  induction hparts using Relation.ReflTransGen.head_induction_on with
  | refl => exact ht.mem_declared
  | head hpart _ ih => exact hpart.declared_subset ih

/-! ### Functions -/

theorem Function.mem_declared {f : Function} : x ∈ f.declared ↔ f.Declares x := by
  obtain ⟨pos, name, params, rest, body⟩ := f
  unfold Function.declared
  simp only [List.mem_append, mem_bindingIdents]
  constructor
  · rintro ((⟨target, init, hb, hx⟩ | hx) | hx)
    · exact .param pos name rest body hb hx
    · cases rest with
      | none => cases hx
      | some p => exact .rest pos name params body (Pattern.mem_idents.mp hx)
    · cases body with
      | concise value => cases hx
      | block list =>
        obtain ⟨s, hs, hx⟩ := declares_of_mem_all list hx
        exact .body pos name params rest hs hx
  · intro h
    cases h with
    | param _ _ _ _ hb hx => exact Or.inl (Or.inl ⟨_, _, hb, hx⟩)
    | rest _ _ _ _ hx => exact Or.inl (Or.inr (Pattern.mem_idents.mpr hx))
    | body _ _ _ _ hs hx => exact Or.inr (declared_subset_all hs (Stmt.mem_declared.mpr hx))

theorem mem_eraseReps_loop {a : String} {as acc : List String} :
    x ∈ List.eraseRepsBy.loop (· == ·) a as acc ↔ x ∈ acc ∨ x = a ∨ x ∈ as := by
  induction as generalizing a acc with
  | nil =>
    simp [List.eraseRepsBy.loop, or_comm]
  | cons b as ih =>
    unfold List.eraseRepsBy.loop
    split
    · rename_i hab
      obtain rfl := eq_of_beq hab
      rw [ih]
      simp
    · rw [ih]
      simp only [List.mem_cons]
      tauto

theorem mem_eraseReps {l : List String} : x ∈ l.eraseReps ↔ x ∈ l := by
  cases l with
  | nil => rfl
  | cons a as => exact mem_eraseReps_loop.trans (by simp)

/-- The locals of a function are the names it declares. -/
theorem Function.mem_locals {f : Function} : x ∈ f.locals ↔ f.Declares x := by
  unfold Function.locals
  rw [mem_eraseReps, List.mem_mergeSort, mem_declared]

open Walk (declaredBy analyzeProgram Endpoints ownSetting)

/-- At its node, a function has the locals it has in the script. -/
theorem Function.StandsAt.declaredBy_eq {g : Graph} {f : Function} {id : NodeId}
    (h : f.StandsAt g id) : declaredBy g (some id) = f.locals := by
  obtain ⟨pos, name, params, rest, body⟩ := f
  obtain ⟨given, ps, bs, hn, _⟩ := h
  have hat : g.at? (some id) = _ := hn
  unfold declaredBy
  rw [hat]

/-- A function of a script is analysed, and what escapes is what it does not declare. -/
theorem Function.StandsAt.exists_scope {g : Graph} {f : Function} {id : NodeId}
    (h : f.StandsAt g id) (endpoints : Endpoints) :
    ∃ s, (Walk.analyzeFunction (ownSetting g endpoints (some id)) (some id)).result = .ok s ∧
      ∀ v ∈ s.vars, v.escaped = true ↔ ¬ f.Declares v.name := by
  have hlocals := h.declaredBy_eq
  obtain ⟨pos, name, params, rest, body⟩ := f
  obtain ⟨given, hshows⟩ := h
  have hacyclic := hshows.founded.not_cyclic
  obtain ⟨ps, bs, hn, _⟩ := hshows
  obtain ⟨s, hs⟩ := Walk.exists_analyzeFunction (E := ownSetting g endpoints (some id)) hn
    hacyclic
  refine ⟨s, hs, Walk.lasting_of_analyzeFunction hs ⟨?_, fun _ _ h => h, fun _ h => h,
    fun _ _ _ h => h, fun _ _ h => h⟩⟩
  intro home name line reachable
  simp [ownSetting, hlocals, mem_locals]

/-- The functions of a script are analysed one by one. -/
theorem exists_scopes {g : Graph} {fs : List Function} {ids : List NodeId}
    (h : List.Forall₂ (Function.StandsAt g) fs ids) (endpoints : Endpoints) :
    ∃ scopes, (analyzeProgram g endpoints (some (ids.map some))).result = .ok scopes ∧
      List.Forall₂ (fun f s => ∀ v ∈ s.vars, v.escaped = true ↔ ¬ f.Declares v.name) fs scopes := by
  suffices hall : ∃ scopes, List.Forall₂ (fun fn s =>
      (Walk.analyzeFunction (ownSetting g endpoints fn) fn).result = .ok s) (ids.map some) scopes ∧
      List.Forall₂ (fun f s => ∀ v ∈ s.vars, v.escaped = true ↔ ¬ f.Declares v.name) fs scopes by
    obtain ⟨scopes, hscopes, hescaped⟩ := hall
    exact ⟨scopes, Walk.analyzeAll_eq_ok.mpr hscopes, hescaped⟩
  induction h with
  | nil => exact ⟨[], .nil, .nil⟩
  | cons hf _ ih =>
    obtain ⟨scopes, hscopes, hescaped⟩ := ih
    obtain ⟨s, hs, hs'⟩ := hf.exists_scope endpoints
    exact ⟨s :: scopes, .cons hs hscopes, .cons hs' hescaped⟩

/-- **Locals and escaped variables are exact.** The locals of every function of a script
are the names it declares; the functions can be analysed, whatever the endpoints, and
a variable in the scope of one escapes if and only if the function does not declare
its name. -/
theorem locals_exact {load : String → Option String} {file code : String} {p : Program}
    (h : readWith load file code = .ok p) (endpoints : Endpoints) :
    ∃ ast, Parser.parse load file code = .ok ast ∧
      List.Forall₂ (fun f id => f.StandsAt p.graph id ∧
        ∀ x, x ∈ declaredBy p.graph (some id) ↔ f.Declares x)
        (Stmt.outlines ast).listing p.functions ∧
      ∃ scopes, (analyzeProgram p.graph endpoints (some (p.functions.map some))).result =
          .ok scopes ∧
        List.Forall₂ (fun f s => ∀ v ∈ s.vars, v.escaped = true ↔ ¬ f.Declares v.name)
          (Stmt.outlines ast).listing scopes := by
  obtain ⟨ast, hast, hlisted⟩ := functions_outlined h
  refine ⟨ast, hast, hlisted.imp fun f id hf => ⟨hf, fun x => ?_⟩, exists_scopes hlisted endpoints⟩
  rw [hf.declaredBy_eq, Function.mem_locals]

/-- A function that declares names in patterns, a loop, a handler and a class, with a
function inside. It assigns to one name more, and the function inside reads one of its. -/
def Sample.declaring : String :=
  "function f(\x7ba, k: [b]\x7d, ...c) \x7b try \x7b for (let d of a) " ++
    "\x7b z = d; b = () => \x7b let y = b \x7d \x7d \x7d catch (e) \x7b class g \x7b\x7d \x7d \x7d"

/-- What its two functions declare. -/
def Sample.declaredNames : List (List String) := [["a", "b", "c", "d", "e", "g"], ["y"]]

theorem locals_exact_declaring : ∃ p scopes, read "a.js" Sample.declaring = .ok p ∧
    List.Forall₂ (fun names id => ∀ x, x ∈ declaredBy p.graph (some id) ↔ x ∈ names)
      Sample.declaredNames p.functions ∧
    (analyzeProgram p.graph {} (some (p.functions.map some))).result = .ok scopes ∧
    scopes.map (fun s => s.vars.map fun v => (v.name, v.escaped)) =
      [[("a", false), ("b", false), ("c", false), ("d", false), ("z", true), ("e", false)],
        [("y", false), ("b", true)]] := by
  have hparse : (Parser.parse (fun _ => none) "a.js" Sample.declaring).toOption.map
      (fun ast => (Stmt.outlines ast).listing.map Function.declared) =
        some Sample.declaredNames := by decide +kernel
  have hread : (read "a.js" Sample.declaring).toOption.map (fun p =>
      (analyzeProgram p.graph {} (some (p.functions.map some))).result.toOption.map
        (·.map (·.vars.map Variable.name))) =
        some (some [["a", "b", "c", "d", "z", "e"], ["y", "b"]]) := by decide +kernel
  obtain ⟨p, hp, hvars⟩ := exists_ok_of_map hread
  obtain ⟨ast, hast, hnames⟩ := exists_ok_of_map hparse
  obtain ⟨ast', hast', hlisted, scopes, hscopes, hescaped⟩ := locals_exact hp {}
  obtain rfl := Except.ok.inj (hast.symm.trans hast')
  rw [hscopes] at hvars
  refine ⟨p, scopes, hp, ?_, hscopes, ?_⟩
  · rw [← hnames, List.forall₂_map_left_iff]
    exact hlisted.imp fun f id hf x => (hf.2 x).trans Function.mem_declared.symm
  · -- whether a variable escapes is decided by its name
    have hpairs : List.Forall₂ (fun names (s : Scope) => s.vars.map (fun v => (v.name, v.escaped)) =
        (s.vars.map Variable.name).map fun x => (x, decide (x ∉ names)))
        Sample.declaredNames scopes := by
      rw [← hnames, List.forall₂_map_left_iff]
      refine hescaped.imp fun f s hs => ?_
      rw [List.map_map]
      refine List.map_congr_left fun v hv => Prod.ext rfl ?_
      rw [Function.comp_apply, Bool.eq_iff_iff, hs v hv, decide_eq_true_iff, Function.mem_declared]
    rcases hpairs with _ | ⟨hf, _ | ⟨hg, _ | _⟩⟩
    obtain ⟨hfirst, hsecond⟩ := List.cons.inj (Option.some.inj hvars)
    obtain ⟨hsecond, -⟩ := List.cons.inj hsecond
    dsimp only at hfirst hsecond
    rw [List.map_cons, List.map_cons, hf, hg, hfirst, hsecond]
    decide

end TaintReach.Script
