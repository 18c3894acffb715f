import TaintReach.Proofs.LoopFree.Value
import TaintReach.Report

/-! The analysis misses no flow of loop-free code.

One walk over a function is compared with every path through it. What a path
carries survives the visits of branches that it does not take, since the walk
only adds. So every statement that is walked covers all paths through it
(`stmt_walk`): it leaves carried what a path leaves, and the origins that sinks
meet on the path are reported. For a whole function this is
`sink_origins_reported`. -/
namespace TaintReach.LoopFree

open TaintReach.Graph (at?_of_name?)
open Walk (Setting Steps walk)
open Lexical (Site Agrees)

section
variable {E : Setting} {fn : NodeId} (hacyclic : ¬ E.graph.Cyclic fn)
include hacyclic

/-! ### Statements -/

/-- A step of the walk at a site covers the paths through a statement. -/
def Covers (E : Setting) (passOn : Bool) (fn : NodeId) (site : Site)
    (step : Walk.State → Walk.State) (form : Form) : Prop :=
  ∀ s O O' met, Steady E fn site s → Carried O s → Runs E passOn O form O' met →
    Carried O' (step s) ∧ ∀ z ∈ met, Reported (step s).scope z

omit hacyclic in
theorem foldl_steady {α : Type} {site : Site} {f : Walk.State → α → Walk.State} (xs : List α)
    (hstep : ∀ x ∈ xs, ∀ s, Steady E fn site s →
      Steady E fn site (f s x) ∧ s.scope.Grows (f s x).scope) {s : Walk.State}
    (hs : Steady E fn site s) :
    Steady E fn site (xs.foldl f s) ∧ s.scope.Grows (xs.foldl f s).scope := by
  induction xs generalizing s with
  | nil => exact ⟨hs, .refl _⟩
  | cons x xs ih =>
    obtain ⟨hone, hgrow⟩ := hstep x List.mem_cons_self s hs
    obtain ⟨hrest, hmore⟩ := ih (fun y hy => hstep y (List.mem_cons_of_mem x hy)) hone
    exact ⟨hrest, hgrow.trans hmore⟩

omit hacyclic in
/-- If each step covers its statement, all steps cover the paths through all. -/
theorem foldl_covers {passOn : Bool} {site : Site} {f : Walk.State → Option NodeId → Walk.State}
    (cs : List (Option NodeId))
    (hstep : ∀ c ∈ cs, ∀ s, Steady E fn site s →
      Steady E fn site (f s c) ∧ s.scope.Grows (f s c).scope)
    (hcovers : ∀ c ∈ cs, ∀ n, E.graph.at? c = some n →
      Covers E passOn fn site (fun s => f s c) n.form)
    {s : Walk.State} {O O' : Origins} {met : Set String} (hs : Steady E fn site s)
    (hO : Carried O s) (hr : RunsAll E passOn O cs O' met) :
    Carried O' (cs.foldl f s) ∧ ∀ z ∈ met, Reported (cs.foldl f s).scope z := by
  induction cs generalizing s O met with
  | nil =>
    cases hr with
    | nil => exact ⟨hO, fun z hz => absurd hz (Set.notMem_empty z)⟩
  | cons c cs ih =>
    have hstep' := fun d hd => hstep d (List.mem_cons_of_mem c hd)
    have hcovers' := fun d hd => hcovers d (List.mem_cons_of_mem c hd)
    obtain ⟨hone, hgrow⟩ := hstep c List.mem_cons_self s hs
    cases hr with
    | skip _ hr => exact ih hstep' hcovers' hone (hO.mono hgrow) hr
    | cons hn hfirst hrest =>
      obtain ⟨hcarried, hmet⟩ := hcovers c List.mem_cons_self _ hn s _ _ _ hs hO hfirst
      obtain ⟨hdone, hmet'⟩ := ih hstep' hcovers' hone hcarried hrest
      have hmore := (foldl_steady cs hstep' hone).2
      refine ⟨hdone, fun z hz => ?_⟩
      rcases hz with hz | hz
      · exact (hmet z hz).mono hmore
      · exact hmet' z hz

/-- Statements visited in order. -/
theorem visitAll_covers {passOn : Bool} {site : Site} {path : List NodeId}
    {cs : List (Option NodeId)} (hc : ∀ c ∈ cs, Reached E.graph fn path c)
    (hcovers : ∀ c ∈ cs, ∀ n, E.graph.at? c = some n →
      Covers E passOn fn site (walk E path c) n.form)
    {s : Walk.State} {O O' : Origins} {met : Set String} (hs : Steady E fn site s)
    (hO : Carried O s) (hr : RunsAll E passOn O cs O' met) :
    Carried O' (Walk.visitAll (walk E path) cs s) ∧
      ∀ z ∈ met, Reported (Walk.visitAll (walk E path) cs s).scope z :=
  foldl_covers cs (fun c hmem _ hs => ⟨hs.visit hacyclic (hc c hmem),
    hs.grows (Walk.walk_steps (hc c hmem) _)⟩) hcovers hs hO hr

omit hacyclic in
theorem name?_of_isMember {g : Graph} {c : Option NodeId} (h : g.isMember c = true) :
    g.name? c = none := by
  unfold Graph.isMember at h
  unfold Graph.name?
  split at h
  · rename_i heq
    rw [heq]
  · cases h

omit hacyclic in
theorem call_of_member {E : Setting} {callee : Option NodeId}
    (hmember : E.graph.isMember callee = true) (visit : Walk.Visit) (line : Int)
    (args : List (Option NodeId)) (isNew : Bool) (s : Walk.State) :
    Walk.call E visit line callee args isNew s =
      Walk.visitAll visit args (visit callee (Walk.methodCall E callee args s)) := by
  simp only [Walk.call, name?_of_isMember hmember, ite_self]

omit hacyclic in
theorem call_of_sink {E : Setting} {callee arg : Option NodeId} {y : String} {cLine yLine : Int}
    (hcallee : E.graph.name? callee = some (E.endpoints.sink, cLine))
    (hends : E.endpoints.source ≠ E.endpoints.sink) (hy : E.graph.name? arg = some (y, yLine))
    (visit : Walk.Visit) (line : Int) (s : Walk.State) :
    Walk.call E visit line callee [arg] false s = (s.lookup E.declared y yLine).sink y line := by
  simp only [Walk.call, Bool.false_eq_true, if_false, hcallee, Ne.symm hends, if_true, hy]

omit hacyclic in
/-- A sink that may run finds the sources that its argument carries. -/
theorem sink_reports {site : Site} {s : Walk.State} (hs : Steady E fn site s)
    (hmay : Taint.may.rank ≤ site.ambient.taint.rank) {y z : String} (hz : s.scope.Carries y z)
    (line : Int) : Reported (s.sink y line).scope z := by
  obtain ⟨u, hu⟩ := hs.agrees
  obtain ⟨⟨w, hw, hsource⟩, hbehind⟩ := hz
  have hfound : ∃ v, s.scope.lookup? y = some v ∧ w.ref ∈ v.ref :: v.dependents := by
    rcases hbehind with rfl | ⟨v, w', hv, hw', hmem⟩
    · exact ⟨w, hw, List.mem_cons_self⟩
    · obtain rfl := Option.some.inj (hw.symm.trans hw')
      exact ⟨v, hv, List.mem_cons_of_mem _ hmem⟩
  obtain ⟨v, hv, hmem⟩ := hfound
  obtain ⟨w', hw', heq⟩ := hu.lookup?_sink hv hw hmem line
  have hsource' : w'.plain.source = true := by
    rw [heq, Lexical.Entry.source_raise]
    exact hsource
  have htaint : site.ambient.taint.rank ≤ w'.plain.taint.rank := by
    rw [heq]
    exact Lexical.Entry.le_taint_raise hsource _
  exact ⟨w', hw', hsource', Int.le_trans hmay htaint⟩

/-- A statement that gives a value to a target. -/
theorem assign_carries {passOn : Bool} {path : List NodeId} {p : NodeId} {t v : Option NodeId}
    {target : Target} {n : Node} {O O' : Origins} {h : Handed}
    (hp : Reached E.graph fn path (some p)) (ht : E.graph.Holds p t) (hv : E.graph.Holds p v)
    (htarget : IsTarget E t target) (hn : E.graph.at? v = some n)
    (hvalue : IsValue E passOn n.form) (hyields : Yields E passOn O n.form O' h) {site : Site}
    {s : Walk.State} (hs : Steady E fn site s) (hO : Carried O s) (keep : Prop) :
    Carried (O'.receive target keep h) (Walk.assign E (walk E (p :: path)) t v s).2 :=
  (assign_receives hacyclic htarget (hp.child ht) hn (hp.child hv) hyields
    (value_walk hacyclic hvalue hn (hp.child hv) hyields) hs hO keep).2.1

/-- Names that flow into `x` one after the other. -/
theorem names_carried {site : Site} {s t : Walk.State} {x : String} (args : List (Option NodeId))
    (hs : Steady E fn site s) (hx : Registered s.scope x)
    (ht : t = args.foldl (fun s a =>
      match E.graph.name? a with
      | some (on, onLine) => (s.lookup E.declared on onLine).depend x on
      | none => s) s) :
    s.scope.Grows t.scope ∧ ∀ a ∈ args, ∀ y line, E.graph.name? a = some (y, line) →
      ∀ z, s.scope.Carries y z → t.scope.Carries x z := by
  induction args generalizing s with
  | nil => exact ⟨ht ▸ .refl _, fun a ha => absurd ha List.not_mem_nil⟩
  | cons b bs ih =>
    rw [List.foldl_cons] at ht
    rcases hb : E.graph.name? b with _ | ⟨w, wLine⟩
    · simp only [hb] at ht
      obtain ⟨hgrow, hrest⟩ := ih hs hx ht
      refine ⟨hgrow, fun a ha y line hy => ?_⟩
      rcases List.mem_cons.mp ha with rfl | ha
      · rw [hb] at hy
        cases hy
      · exact hrest a ha y line hy
    · simp only [hb] at ht
      have hone := (hs.register hacyclic w wLine).depend hacyclic x w
      have hstep := hs.grows ((Steps.single (.register s w wLine)).step (.depend _ x w))
      obtain ⟨hgrow, hrest⟩ := ih hone (hx.mono hstep) ht
      refine ⟨hstep.trans hgrow, fun a ha y line hy z hz => ?_⟩
      rcases List.mem_cons.mp ha with rfl | ha
      · rw [hb] at hy
        cases hy
        exact (name_gives hacyclic hs hx wLine hz).mono hgrow
      · exact hrest a ha y line hy z (hz.mono hstep)

/-- The names passed to a method flow into the base of its object. -/
theorem methodCall_carries {site : Site} {s : Walk.State} {O : Origins} {callee : Option NodeId}
    (args : List (Option NodeId)) {x : String} {line : Int}
    (hmember : E.graph.isMember callee = true)
    (hroot : E.graph.root? callee = some (x, line)) (hs : Steady E fn site s) (hO : Carried O s) :
    Carried (O.receive (.member x) False
      ⟨{z | ∃ a ∈ args, ∃ y yLine, E.graph.name? a = some (y, yLine) ∧ z ∈ O y}, False⟩)
      (Walk.methodCall E callee args s) := by
  have hgrow := hs.grows (.single (.register s x line))
  obtain ⟨hmore, hflow⟩ := names_carried hacyclic args (hs.register hacyclic x line)
    (registered_lookup s E.declared x line) rfl
  simp only [Walk.methodCall, hmember, hroot]
  refine (hO.mono (hgrow.trans hmore)).receive (fun y hy => ⟨?_, False.elim⟩) False
  rw [List.mem_singleton.mp hy]
  rintro z ⟨a, ha, w, wLine, hw, hz⟩
  exact hflow a ha w wLine hw z ((hO w z hz).mono hgrow)

theorem declaration_covers {passOn : Bool} {site : Site} {path : List NodeId} {p : NodeId}
    {line : Int} {kind : DeclKind} {bindings : List NodeId}
    (hp : Reached E.graph fn path (some p))
    (hnode : E.graph.node? p = some ⟨line, .declaration kind bindings⟩)
    (hcovers : ∀ c ∈ bindings.map some, ∀ n, E.graph.at? c = some n →
      Covers E passOn fn site (walk E (p :: path) c) n.form)
    {s : Walk.State} {O O' : Origins} {met : Set String} (hs : Steady E fn site s)
    (hO : Carried O s) (hr : RunsAll E passOn O (bindings.map some) O' met) :
    Carried O' (Walk.declaration E (walk E (p :: path)) kind bindings s) ∧
      ∀ z ∈ met, Reported (Walk.declaration E (walk E (p :: path)) kind bindings s).scope z := by
  -- one binding: its walk, and then what a constant makes known
  let f : Walk.State → Option NodeId → Walk.State := fun s c =>
    if kind = .const then c.elim (walk E (p :: path) c s) fun b =>
      Walk.recordConst E.graph b (walk E (p :: path) c s)
    else walk E (p :: path) c s
  have hscope : ∀ s c, (f s c).scope = (walk E (p :: path) c s).scope := by
    intro s c
    simp only [f]
    split
    · cases c with
      | none => rfl
      | some b =>
        obtain ⟨_, hrecord⟩ := Walk.recordConst_eq E.graph b (walk E (p :: path) (some b) s)
        show (Walk.recordConst E.graph b (walk E (p :: path) (some b) s)).scope = _
        rw [hrecord]
    · rfl
  have hfold : Walk.declaration E (walk E (p :: path)) kind bindings s =
      (bindings.map some).foldl f s := by
    rw [List.foldl_map]
    rfl
  rw [hfold]
  refine foldl_covers (bindings.map some) (fun c hmem s hs => ?_) (fun c hmem n hn => ?_) hs hO hr
  · obtain ⟨b, hb, rfl⟩ := List.mem_map.mp hmem
    have hb' := hp.child (Graph.holds_child hnode (List.mem_map_of_mem hb))
    have hvisit := hs.visit hacyclic hb'
    refine ⟨?_, hscope s (some b) ▸ hs.grows (Walk.walk_steps hb' s)⟩
    simp only [f]
    split
    · rename_i hkind
      subst hkind
      exact hvisit.move hacyclic (Walk.recordConst_steps (hp p rfl).1 hnode hb _) fun u hu =>
        ⟨_, Lexical.recordConst_agrees b hu⟩
    · exact hvisit
  · intro s O O' met hs hO hr
    obtain ⟨hcarried, hmet⟩ := hcovers c hmem n hn s O O' met hs hO hr
    refine ⟨fun x z hz => ?_, fun z hz => ?_⟩
    · rw [hscope]
      exact hcarried x z hz
    · simp only [hscope]
      exact hmet z hz

omit hacyclic in
/-- Neither class that loop-free code is walked at is `never`. -/
theorem meet_maybe {r : Reachable} (h : r = .always ∨ r = .maybe) : r.meet .maybe = .maybe := by
  rcases h with rfl | rfl <;> decide

omit hacyclic in
theorem may_le_taint {r : Reachable} (h : r = .always ∨ r = .maybe) :
    Taint.may.rank ≤ r.taint.rank := by
  rcases h with rfl | rfl <;> decide

section
variable {site : Site} {f : Walk.State → Walk.State}
  (hsite : site.ambient = .always ∨ site.ambient = .maybe)
  (hkeep : ∀ s, Steady E fn { site with ambient := .maybe } s →
    Steady E fn { site with ambient := .maybe } (f s) ∧ s.scope.Grows (f s).scope)
include hsite

omit hacyclic in
theorem branch_of_maybe (s : Walk.State) :
    Walk.branch (site.ambient.meet .maybe) site.ambient f s =
      (f (s.enter .maybe)).enter site.ambient := by
  simp only [Walk.branch, meet_maybe hsite]
  rfl

include hkeep

/-- A branch that may run leaves the walk at its site. -/
theorem branch_keeps {s : Walk.State} (hs : Steady E fn site s) :
    Steady E fn site (Walk.branch (site.ambient.meet .maybe) site.ambient f s) ∧
      s.scope.Grows (Walk.branch (site.ambient.meet .maybe) site.ambient f s).scope := by
  rw [branch_of_maybe hsite]
  obtain ⟨hsteady, hgrow⟩ := hkeep _ (hs.enter hacyclic .maybe)
  exact ⟨hsteady.enter hacyclic site.ambient, (Scope.grows_stamp _ _).trans
    (hgrow.trans (Scope.grows_stamp _ _))⟩

omit hkeep in
/-- What is carried and reported at the end of a branch stays so after it. -/
theorem branch_carries {s : Walk.State} {O O' : Origins} {met : Set String}
    (hs : Steady E fn site s) (hO : Carried O s)
    (hf : ∀ s, Steady E fn { site with ambient := .maybe } s → Carried O s →
      Carried O' (f s) ∧ ∀ z ∈ met, Reported (f s).scope z) :
    Carried O' (Walk.branch (site.ambient.meet .maybe) site.ambient f s) ∧
      ∀ z ∈ met, Reported (Walk.branch (site.ambient.meet .maybe) site.ambient f s).scope z := by
  rw [branch_of_maybe hsite]
  have hin := hs.enter hacyclic .maybe
  obtain ⟨hcarried, hmet⟩ := hf _ hin (hO.mono (Scope.grows_stamp _ _))
  exact ⟨hcarried.mono (Scope.grows_stamp _ _),
    fun z hz => (hmet z hz).mono (Scope.grows_stamp _ _)⟩

end

omit hacyclic in
/-- A name that is not known as a constant may be true or not. -/
theorem classify_name {g : Graph} {consts : Walk.Consts} {path : List NodeId}
    {test : Option NodeId} {x : String} {line : Int} (htest : g.name? test = some (x, line))
    (hfresh : ∀ id, test = some id → id ∉ path) (hx : consts.truth? x = none) :
    Walk.classify g consts path test = ⟨.maybe, none⟩ := by
  obtain ⟨id, rfl, hnode⟩ := Graph.node?_of_at? (at?_of_name? htest)
  rw [Walk.classify_of_name hnode (hfresh id rfl), hx]
  rfl

omit hacyclic in
theorem conditional_of_name {path : List NodeId} {test body otherwise : Option NodeId} {x : String}
    {xLine : Int} (htest : E.graph.name? test = some (x, xLine))
    (hfresh : ∀ id, test = some id → id ∉ path) {s : Walk.State}
    (hx : s.consts.truth? x = none) (line : Int) :
    Walk.conditional E path (walk E path) line .branch none test none none body otherwise s =
      let t := Walk.branch (s.ambient.meet .maybe) s.ambient (walk E path body)
        (s.tell (.guardClassified .branch line .maybe))
      if otherwise.isNone then t
      else Walk.branch (s.ambient.meet .maybe) s.ambient (walk E path otherwise) t := by
  have hkind : ¬ (CondKind.branch = .forLoop) ∧
      ¬ (CondKind.branch = .forIn ∨ CondKind.branch = .forOf) := by decide
  have hnegate : Reachable.maybe.negate = .maybe := by decide
  simp only [Walk.conditional, hkind.1, hkind.2, if_false, classify_name htest hfresh hx, hnegate,
    Walk.walk_none, Option.elim_none]

/-- Two branches in turn, one of which a path takes. -/
theorem branches_cover {passOn : Bool} {site : Site} {path : List NodeId}
    {body otherwise : Option NodeId} (hsite : site.ambient = .always ∨ site.ambient = .maybe)
    (hbody : Reached E.graph fn path body) (helse : Reached E.graph fn path otherwise)
    (hyes : ∀ n, E.graph.at? body = some n →
      Covers E passOn fn { site with ambient := .maybe } (walk E path body) n.form)
    (hno : ∀ n, E.graph.at? otherwise = some n →
      Covers E passOn fn { site with ambient := .maybe } (walk E path otherwise) n.form)
    {s : Walk.State} {O O' : Origins} {met : Set String} (hs : Steady E fn site s)
    (hO : Carried O s)
    (hr : RunsAll E passOn O [body] O' met ∨ RunsAll E passOn O [otherwise] O' met) :
    let t := Walk.branch (site.ambient.meet .maybe) site.ambient (walk E path body) s
    let u := if otherwise.isNone then t
      else Walk.branch (site.ambient.meet .maybe) site.ambient (walk E path otherwise) t
    Carried O' u ∧ ∀ z ∈ met, Reported u.scope z := by
  intro t u
  have hkeep : ∀ c, Reached E.graph fn path c → ∀ s,
      Steady E fn { site with ambient := .maybe } s →
        Steady E fn { site with ambient := .maybe } (walk E path c s) ∧
          s.scope.Grows (walk E path c s).scope :=
    fun c hc s hs => ⟨hs.visit hacyclic hc, hs.grows (Walk.walk_steps hc s)⟩
  obtain ⟨hthen, hgrow⟩ := branch_keeps hacyclic hsite (hkeep body hbody) hs
  have hmore : t.scope.Grows u.scope := by
    simp only [u]
    split
    · exact .refl _
    · exact (branch_keeps hacyclic hsite (hkeep otherwise helse) hthen).2
  rcases hr with hr | hr
  · obtain ⟨hcarried, hmet⟩ := branch_carries hacyclic hsite hs hO fun s hs hO =>
      visitAll_covers hacyclic (fun c hc => List.mem_singleton.mp hc ▸ hbody)
        (fun c hc => List.mem_singleton.mp hc ▸ hyes) hs hO hr
    exact ⟨hcarried.mono hmore, fun z hz => (hmet z hz).mono hmore⟩
  · cases otherwise with
    | none =>
      cases hr with
      | skip _ hr =>
        cases hr with
        | nil => exact ⟨hO.mono hgrow, fun z hz => absurd hz (Set.notMem_empty z)⟩
      | cons hn _ _ => cases hn
    | some e =>
      exact branch_carries hacyclic hsite hthen (hO.mono hgrow) fun s hs hO =>
        visitAll_covers hacyclic (fun c hc => List.mem_singleton.mp hc ▸ helse)
          (fun c hc => List.mem_singleton.mp hc ▸ hno) hs hO hr

omit hacyclic in
theorem Reached.clauseBody {path : List NodeId} {d : NodeId} {a : Option NodeId}
    (h : Reached E.graph fn path (some d)) (ha : a ∈ clauseBody E.graph d) :
    Reached E.graph fn path a := by
  unfold LoopFree.clauseBody at ha
  split at ha
  · rename_i hnode
    exact h.below hnode fun id hn => Graph.holds_child hn (List.mem_append_right _ ha)
  · cases ha

omit hacyclic in
/-- A switch walks the statements of all its clauses in order. -/
theorem switch_eq_visitAll (visit : Walk.Visit) (clauses : List NodeId) (s : Walk.State) :
    Walk.switch E visit clauses s =
      (Walk.visitAll visit (clauses.flatMap (clauseBody E.graph))
        (s.enter (s.ambient.meet .maybe))).enter s.ambient := by
  rw [Walk.visitAll, List.foldl_flatMap]
  refine congrArg
    (fun step => (clauses.foldl step (s.enter (s.ambient.meet .maybe))).enter s.ambient) ?_
  funext s c
  unfold clauseBody
  rcases E.graph.node? c with _ | ⟨_, form⟩
  · rfl
  · cases form <;> rfl

/-- A path that takes some of the statements in a row. -/
theorem visitAll_covers_part {passOn : Bool} {site : Site} {path : List NodeId}
    {before run after : List (Option NodeId)}
    (hall : ∀ c ∈ before ++ run ++ after, Reached E.graph fn path c ∧
      ∀ n, E.graph.at? c = some n → Covers E passOn fn site (walk E path c) n.form)
    {s : Walk.State} {O O' : Origins} {met : Set String} (hs : Steady E fn site s)
    (hO : Carried O s) (hr : RunsAll E passOn O run O' met) :
    Carried O' (Walk.visitAll (walk E path) (before ++ run ++ after) s) ∧
      ∀ z ∈ met, Reported (Walk.visitAll (walk E path) (before ++ run ++ after) s).scope z := by
  have hbefore := fun c hc => hall c (List.mem_append_left _ (List.mem_append_left _ hc))
  have hrun := fun c hc => hall c (List.mem_append_left _ (List.mem_append_right _ hc))
  have hafter := fun c hc => hall c (List.mem_append_right _ hc)
  obtain ⟨hs₁, hgrow₁⟩ := hs.visits hacyclic fun c hc => (hbefore c hc).1
  obtain ⟨hcarried, hmet⟩ := visitAll_covers hacyclic (fun c hc => (hrun c hc).1)
    (fun c hc => (hrun c hc).2) hs₁ (hO.mono hgrow₁) hr
  obtain ⟨hs₂, _⟩ := hs₁.visits hacyclic fun c hc => (hrun c hc).1
  obtain ⟨_, hgrow₃⟩ := hs₂.visits hacyclic fun c hc => (hafter c hc).1
  have hsplit : Walk.visitAll (walk E path) (before ++ run ++ after) s =
      Walk.visitAll (walk E path) after (Walk.visitAll (walk E path) run
        (Walk.visitAll (walk E path) before s)) := by
    simp only [Walk.visitAll, List.foldl_append]
  rw [hsplit]
  exact ⟨hcarried.mono hgrow₃, fun z hz => (hmet z hz).mono hgrow₃⟩

section
variable {passOn : Bool} {site : Site} {path : List NodeId} {c : Option NodeId} {line : Int}

theorem method_covers {callee : Option NodeId} {args : List (Option NodeId)}
    (hmember : E.graph.isMember callee = true)
    (hn : E.graph.at? c = some ⟨line, .call callee args false⟩)
    (hc : Reached E.graph fn path c) :
    Covers E passOn fn site (walk E path c) (.call callee args false) := by
  intro s O O' met hs hO hr
  obtain ⟨id, rfl, hnode, heq⟩ := walk_at hacyclic hs hc hn
  have hheld := fun a ha => hc.child (Graph.holds_child (c := a) hnode ha)
  cases hr with
  | sink hsink _ =>
    rw [name?_of_isMember hmember] at hsink
    cases hsink
  | method _ hroot =>
    have hcarried := methodCall_carries hacyclic args hmember hroot hs hO
    refine ⟨?_, fun z hz => absurd hz (Set.notMem_empty z)⟩
    rw [heq.trans (call_of_member hmember _ line args false s)]
    obtain ⟨hcalled, _⟩ := hs.methodCall hacyclic callee args
    have hgrow := hcalled.grows (Walk.walk_steps (hheld _ List.mem_cons_self) _)
    have hvisited := hcalled.visit hacyclic (hheld _ List.mem_cons_self)
    exact hcarried.mono (hgrow.trans
      (hvisited.visits hacyclic fun a ha => hheld a (List.mem_cons_of_mem _ ha)).2)

theorem sink_covers (hends : E.endpoints.source ≠ E.endpoints.sink)
    (hsite : site.ambient = .always ∨ site.ambient = .maybe) {callee arg : Option NodeId}
    {y : String} {cLine yLine : Int}
    (hcallee : E.graph.name? callee = some (E.endpoints.sink, cLine))
    (hy : E.graph.name? arg = some (y, yLine))
    (hn : E.graph.at? c = some ⟨line, .call callee [arg] false⟩)
    (hc : Reached E.graph fn path c) :
    Covers E passOn fn site (walk E path c) (.call callee [arg] false) := by
  intro s O O' met hs hO hr
  obtain ⟨id, rfl, hnode, heq⟩ := walk_at hacyclic hs hc hn
  cases hr with
  | method hmember _ =>
    rw [name?_of_isMember hmember] at hcallee
    cases hcallee
  | sink _ hy' =>
    rw [hy] at hy'
    cases hy'
    have hlook := hs.register hacyclic y yLine
    have hO' := hO.mono (hs.grows (.single (.register s y yLine)))
    rw [heq.trans (call_of_sink hcallee hends hy _ line s)]
    exact ⟨hO'.mono (hlook.grows (.single (.sink _ y line))), fun z hz =>
      sink_reports hlook (may_le_taint hsite) (hO' y z hz) line⟩

theorem conditional_covers (hsite : site.ambient = .always ∨ site.ambient = .maybe)
    {test body otherwise : Option NodeId} {x : String} {xLine : Int}
    (htest : E.graph.name? test = some (x, xLine))
    (hfree : ∀ d, E.graph.Within fn d → ¬ DeclaresConst E.graph d x)
    (hyes : ∀ path, Reached E.graph fn path body → ∀ n, E.graph.at? body = some n →
      Covers E passOn fn { site with ambient := .maybe } (walk E path body) n.form)
    (hno : ∀ path, Reached E.graph fn path otherwise → ∀ n, E.graph.at? otherwise = some n →
      Covers E passOn fn { site with ambient := .maybe } (walk E path otherwise) n.form)
    (hn : E.graph.at? c =
      some ⟨line, .conditional .branch none test none none body otherwise⟩)
    (hc : Reached E.graph fn path c) :
    Covers E passOn fn site (walk E path c)
      (.conditional .branch none test none none body otherwise) := by
  intro s O O' met hs hO hr
  obtain ⟨id, rfl, hnode, heq⟩ := walk_at hacyclic hs hc hn
  have hfield : ∀ a ∈ [none, test, none, body, none, otherwise],
      Reached E.graph fn (id :: path) a :=
    fun a ha => hc.child (Graph.holds_present hnode (fun _ h => h) ha)
  have hthen := hfield body (by simp)
  have helse := hfield otherwise (by simp)
  have hfresh : ∀ d, test = some d → d ∉ id :: path := fun d hd hmem => by
    obtain ⟨hwithin, hleads⟩ := hfield test (by simp) d hd
    exact hacyclic ⟨d, hwithin, hleads d hmem⟩
  obtain ⟨u, hu⟩ := hs.agrees
  rw [heq.trans (conditional_of_name htest hfresh (hs.free x hfree) line), hu.ambient]
  refine branches_cover hacyclic hsite hthen helse (hyes _ hthen) (hno _ helse)
    (hs.tell hacyclic _ _ _) hO ?_
  cases hr with
  | yes hr => exact Or.inl hr
  | no hr => exact Or.inr hr

theorem switch_covers (hsite : site.ambient = .always ∨ site.ambient = .maybe)
    {discriminant : Option NodeId} {clauses : List NodeId}
    (hbodies : ∀ d ∈ clauses, ∀ a ∈ clauseBody E.graph d, ∀ path, Reached E.graph fn path a →
      ∀ n, E.graph.at? a = some n →
        Covers E passOn fn { site with ambient := .maybe } (walk E path a) n.form)
    (hn : E.graph.at? c = some ⟨line, .switch discriminant clauses⟩)
    (hc : Reached E.graph fn path c) :
    Covers E passOn fn site (walk E path c) (.switch discriminant clauses) := by
  intro s O O' met hs hO hr
  obtain ⟨id, rfl, hnode, heq⟩ := walk_at hacyclic hs hc hn
  have hall : ∀ a ∈ clauses.flatMap (clauseBody E.graph), Reached E.graph fn (id :: path) a ∧
      ∀ n, E.graph.at? a = some n →
        Covers E passOn fn { site with ambient := .maybe } (walk E (id :: path) a) n.form := by
    intro a ha
    obtain ⟨d, hd, ha⟩ := List.mem_flatMap.mp ha
    have hclause := hc.child (Graph.holds_child (c := some d) hnode
      (List.mem_append_right _ (List.mem_map_of_mem hd)))
    have hreached := hclause.clauseBody ha
    exact ⟨hreached, hbodies d hd a ha _ hreached⟩
  obtain ⟨u, hu⟩ := hs.agrees
  have hwalk : walk E path (some id) s = Walk.branch (site.ambient.meet .maybe) site.ambient
      (Walk.visitAll (walk E (id :: path)) (clauses.flatMap (clauseBody E.graph))) s := by
    rw [heq, branch_of_maybe hsite, ← meet_maybe hsite]
    exact (switch_eq_visitAll (walk E (id :: path)) clauses s).trans (by rw [hu.ambient])
  rw [hwalk]
  cases hr with
  | switch hr =>
    rw [List.flatMap_append, List.flatMap_append] at hall ⊢
    exact branch_carries hacyclic hsite hs hO fun s hs hO =>
      visitAll_covers_part hacyclic hall hs hO hr

end

/-- Walking a loop-free statement covers every path through it. -/
theorem stmt_walk {passOn : Bool} (hends : E.endpoints.source ≠ E.endpoints.sink) {form : Form}
    (h : IsStmt E passOn fn form) {path : List NodeId} {c : Option NodeId} {line : Int}
    (hn : E.graph.at? c = some ⟨line, form⟩) (hc : Reached E.graph fn path c) {site : Site}
    (hsite : site.ambient = .always ∨ site.ambient = .maybe) :
    Covers E passOn fn site (walk E path c) form := by
  have hnothing : ∀ (s : Scope), ∀ z ∈ (∅ : Set String), Reported s z :=
    fun _ z hz => absurd hz (Set.notMem_empty z)
  induction h generalizing path c line site with
  | bare ht =>
    intro s O O' met hs hO hr
    cases hr with
    | bare => exact ⟨hO.mono (hs.grows (Walk.walk_steps hc s)), hnothing _⟩
    | bind _ hv _ => cases hv
  | bind ht hv hvalue =>
    intro s O O' met hs hO hr
    obtain ⟨id, rfl, hnode, heq⟩ := walk_at hacyclic hs hc hn
    cases hr with
    | bare => cases hv
    | bind ht' hv' hyields =>
      obtain rfl := Option.some.inj (hv.symm.trans hv')
      obtain ⟨hht, hhv⟩ := Graph.holds_sides hnode rfl
      rw [heq]
      exact ⟨assign_carries hacyclic hc hht hhv ht' hv hvalue hyields hs hO False, hnothing _⟩
  | @assign operator _ _ _ _ _ hv hvalue =>
    intro s O O' met hs hO hr
    obtain ⟨id, rfl, hnode, heq⟩ := walk_at hacyclic hs hc hn
    cases hr with
    | assign ht' hv' hyields =>
      obtain rfl := Option.some.inj (hv.symm.trans hv')
      refine ⟨?_, hnothing _⟩
      obtain ⟨hht, hhv⟩ := Graph.holds_sides hnode rfl
      have hcarried :=
        assign_carries hacyclic hc hht hhv ht' hv hvalue hyields hs hO (operator ≠ "=")
      have hsteady := (hs.assign hacyclic hc hht hhv).1
      rw [heq, visitNode_assignment]
      cases (Walk.assign E (walk E (id :: path)) _ _ s).1 with
      | none => exact hcarried
      | some x => exact hcarried.mono (hsteady.grows ((Steps.refl _).dependDefining x))
  | declare _ ih =>
    intro s O O' met hs hO hr
    obtain ⟨id, rfl, hnode, heq⟩ := walk_at hacyclic hs hc hn
    cases hr with
    | declare hr =>
      rw [heq]
      exact declaration_covers hacyclic hc hnode (fun a ha n hat =>
        ih a ha n hat hat (hc.child (Graph.holds_child hnode ha)) hsite) hs hO hr
  | method hmember _ _ _ _ => exact method_covers hacyclic hmember hn hc
  | sink hcallee hy => exact sink_covers hacyclic hends hsite hcallee hy hn hc
  | block _ ih =>
    intro s O O' met hs hO hr
    obtain ⟨id, rfl, hnode, heq⟩ := walk_at hacyclic hs hc hn
    have hheld := fun a ha => hc.child (Graph.holds_child (c := a) hnode ha)
    cases hr with
    | block hr =>
      rw [heq]
      exact visitAll_covers hacyclic hheld (fun a ha n hat => ih a ha n hat hat (hheld a ha) hsite)
        hs hO hr
  | branch htest hfree _ _ ihyes ihno =>
    exact conditional_covers hacyclic hsite htest hfree
      (fun _ hreached n hat => ihyes n hat hat hreached (Or.inr rfl))
      (fun _ hreached n hat => ihno n hat hat hreached (Or.inr rfl)) hn hc
  | switch _ _ _ ih =>
    exact switch_covers hacyclic hsite
      (fun d hd a ha _ hreached n hat => ih d hd a ha n hat hat hreached (Or.inr rfl)) hn hc

end

/-! ### Functions -/

/-- **No flow is missed.** The analysis of a function of loop-free code succeeds, and
on every path through its body each origin that a sink meets is a source that the
report lists. Either a destructuring assignment that is itself a value hands nothing
on, or the code has none. -/
theorem sink_origins_reported {E : Setting} {passOn : Bool} {fn : NodeId} {line : Int}
    {name : String} {params body : List (Option NodeId)} {locals : List String}
    (hends : E.endpoints.source ≠ E.endpoints.sink)
    (hfn : E.graph.node? fn = some ⟨line, .function name params body locals⟩)
    (hparams : ∀ c ∈ params, ∀ n, E.graph.at? c = some n → IsParam E.graph n.form)
    (hbody : ∀ c ∈ body, ∀ n, E.graph.at? c = some n → IsStmt E passOn fn n.form) :
    ∃ scope, (Walk.analyzeFunction E (some fn)).result = .ok scope ∧
      ∀ O met, RunsAll E passOn (fun _ => ∅) body O met → ∀ z ∈ met,
        ∃ v ∈ scope.vars, v.name = z ∧ v.source = true ∧ v.id ∈ scope.report.may := by
  have hacyclic := not_cyclic_of_body hfn hparams hbody
  have hreached : ∀ c ∈ params ++ body, Reached E.graph fn [fn] c := by
    intro c hc d hd
    have hbelow := Graph.holds_child hfn hc d hd
    exact ⟨hbelow.to_reflTransGen, fun p hp => List.mem_singleton.mp hp ▸ hbelow⟩
  let start : Walk.State :=
    Walk.State.tell (.opened (idText name line)) { scope := { name := idText name line } }
  have hstart : Steady E fn {} start :=
    ⟨⟨{ table := { name := idText name line } }, rfl, rfl, fun v hv => absurd hv List.not_mem_nil,
      Scope.wellFormed_of_empty rfl, rfl, rfl, rfl⟩, rfl, fun _ _ => rfl⟩
  obtain ⟨hready, _⟩ := hstart.visits hacyclic fun c hc => hreached c (List.mem_append_left _ hc)
  have hbody' := fun c hc => hreached c (List.mem_append_right _ hc)
  obtain ⟨hdone, _⟩ := hready.visits hacyclic hbody'
  have hfault : (Walk.visitAll (walk E [fn]) body
      (Walk.visitAll (walk E [fn]) params start)).fault = none := hdone.fault
  refine ⟨(Walk.visitAll (walk E [fn]) body (Walk.visitAll (walk E [fn]) params start)).scope, ?_,
    fun O met hr z hz => ?_⟩
  · simp only [Walk.analyzeFunction, Graph.at?, Option.bind_some, hfn]
    rw [hfault]
  · obtain ⟨_, hmet⟩ := visitAll_covers hacyclic hbody' (fun c hc n hn => stmt_walk hacyclic hends
      (hbody c hc n hn) hn (hbody' c hc) (Or.inl rfl)) hready
      (fun x z hz => absurd hz (Set.notMem_empty z)) hr
    obtain ⟨v, hv, hsource, htaint⟩ := hmet z hz
    have hmem := Scope.mem_of_lookup? hv
    refine ⟨v, hmem, Scope.name_of_lookup? hv, hsource, List.mem_map_of_mem ?_⟩
    exact List.mem_filter.mpr ⟨hmem, by simpa using htaint⟩

/-- What holds of the nodes in all fields of a list, one field at a time. -/
theorem forall_at?_cons {g : Graph} {P : Form → Prop} {c : Option NodeId} {n : Node}
    {cs : List (Option NodeId)} (hn : g.at? c = some n) (h : P n.form)
    (hcs : ∀ d ∈ cs, ∀ m, g.at? d = some m → P m.form) :
    ∀ d ∈ c :: cs, ∀ m, g.at? d = some m → P m.form := by
  intro d hd m hm
  rcases List.mem_cons.mp hd with rfl | hd
  · exact Option.some.inj (hn.symm.trans hm) ▸ h
  · exact hcs d hd m hm

/-- The code `var s = retSource(); if (c) x = y = s; sink(x);` of a function of `c`. -/
def chained : Setting := { graph := ⟨#[
  ⟨1, .function "f" [some 1] [some 3, some 8, some 14] ["c", "s"]⟩,
  ⟨1, .binding (some 2) none⟩,
  ⟨1, .name "c"⟩,
  ⟨1, .declaration .var [4]⟩,
  ⟨1, .binding (some 5) (some 6)⟩,
  ⟨1, .name "s"⟩,
  ⟨1, .call (some 7) [] false⟩,
  ⟨1, .name "retSource"⟩,
  ⟨1, .conditional .branch none (some 2) none none (some 9) none⟩,
  ⟨1, .assignment "=" (some 10) (some 11)⟩,
  ⟨1, .name "x"⟩,
  ⟨1, .assignment "=" (some 12) (some 13)⟩,
  ⟨1, .name "y"⟩,
  ⟨1, .name "s"⟩,
  ⟨1, .call (some 15) [some 10] false⟩,
  ⟨1, .name "sink"⟩]⟩ }

/-- `sink_origins_reported` on a chained assignment under a branch: the path that takes the
branch meets `s`. -/
theorem chained_origin_reported : ∃ scope,
    (Walk.analyzeFunction chained (some 0)).result = .ok scope ∧
      ∃ v ∈ scope.vars, v.name = "s" ∧ v.source = true ∧ v.id ∈ scope.report.may := by
  have hnone : ∀ {P : Form → Prop}, ∀ c ∈ ([] : List (Option NodeId)), ∀ n,
      chained.graph.at? c = some n → P n.form := fun _ h => absurd h List.not_mem_nil
  have hsource : IsStmt chained true 0 (.binding (some 5) (some 6)) :=
    .bind (.name (x := "s") rfl) (n := ⟨1, .call (some 7) [] false⟩) rfl (.expr (.source rfl))
  have hchain : IsStmt chained true 0 (.assignment "=" (some 10) (some 11)) :=
    .assign (.name (x := "x") rfl) (n := ⟨1, .assignment "=" (some 12) (some 13)⟩) rfl
      (.assign (.name (x := "y") rfl) (fun _ _ _ h => by cases h) (n := ⟨1, .name "s"⟩) rfl
        (.expr (.name "s")))
  have hfree : ∀ d, chained.graph.Within 0 d → ¬ DeclaresConst chained.graph d "c" := by
    rintro d _ ⟨line, bindings, hd, _⟩
    have hmem := Array.mem_of_getElem? hd
    simp [chained] at hmem
  have hbody : ∀ c ∈ [some 3, some 8, some 14], ∀ n, chained.graph.at? c = some n →
      IsStmt chained true 0 n.form :=
    forall_at?_cons rfl (.declare (forall_at?_cons rfl hsource hnone)) (forall_at?_cons rfl
      (.branch (x := "c") rfl hfree (fun n hn => Option.some.inj hn ▸ hchain)
        fun n hn => by cases hn)
      (forall_at?_cons rfl (.sink (y := "x") rfl rfl) hnone))
  obtain ⟨scope, hscope, hcovers⟩ := sink_origins_reported (E := chained) (by decide) rfl
    (forall_at?_cons rfl (.binding (x := "c") rfl) hnone) hbody
  -- the path that takes the branch
  have hpath : RunsAll chained true (fun _ => ∅) [some 3, some 8, some 14] _ _ := .cons rfl
    (.declare (.cons rfl (.bind (.name (x := "s") rfl) rfl (.expr (.source rfl))) .nil))
    (.cons rfl
      (.yes (.cons rfl (.assign (.name (x := "x") rfl) rfl
        (.assign (.name (x := "y") rfl) rfl (.expr (.name "s")))) .nil))
      (.cons rfl (.sink (y := "x") rfl rfl) .nil))
  refine ⟨scope, hscope, hcovers _ _ hpath "s" (Or.inr (Or.inr (Or.inl ?_)))⟩
  refine Origins.mem_receive_of_origins (List.mem_singleton_self "x") ?_
  have hy : "y" ∈ (Target.name "y").names := List.mem_singleton_self "y"
  refine Origins.mem_receive_of_origins hy ?_
  exact ⟨"s", .name, Origins.mem_receive_of_fresh (List.mem_singleton_self "s") (.call rfl)⟩

/-- The code `var s = retSource(); x = [a] = s; sink(x);` of a function. -/
def destructured : Setting := { graph := ⟨#[
  ⟨1, .function "f" [] [some 1, some 6, some 12] ["s"]⟩,
  ⟨1, .declaration .var [2]⟩,
  ⟨1, .binding (some 3) (some 4)⟩,
  ⟨1, .name "s"⟩,
  ⟨1, .call (some 5) [] false⟩,
  ⟨1, .name "retSource"⟩,
  ⟨1, .assignment "=" (some 7) (some 8)⟩,
  ⟨1, .name "x"⟩,
  ⟨1, .assignment "=" (some 9) (some 11)⟩,
  ⟨1, .pattern [10] []⟩,
  ⟨1, .name "a"⟩,
  ⟨1, .name "s"⟩,
  ⟨1, .call (some 13) [some 7] false⟩,
  ⟨1, .name "sink"⟩]⟩ }

/-- A destructuring assignment that is itself a value hands nothing on, though the
language has it hand on what it was given: `s` goes through `[a] = s` into `x` and
meets the sink, and the report is empty. -/
theorem destructured_origin_missed :
    (∀ c ∈ [some 1, some 6, some 12], ∀ n, destructured.graph.at? c = some n →
      IsStmt destructured false 0 n.form) ∧
    (∃ O met, RunsAll destructured true (fun _ => ∅) [some 1, some 6, some 12] O met ∧
      "s" ∈ met) ∧
    (Walk.analyzeFunction destructured (some 0)).result.map Scope.report = .ok {} := by
  have hnone : ∀ {P : Form → Prop}, ∀ c ∈ ([] : List (Option NodeId)), ∀ n,
      destructured.graph.at? c = some n → P n.form := fun _ h => absurd h List.not_mem_nil
  have hpattern : IsTarget destructured (some 9) (.pattern ["a"]) :=
    .pattern rfl (fun n hn => List.mem_singleton.mp hn ▸ rfl : ∀ n ∈ [10], _)
  refine ⟨?_, ?_, by decide +kernel⟩
  · have hsource : IsStmt destructured false 0 (.binding (some 3) (some 4)) :=
      .bind (.name (x := "s") rfl) (n := ⟨1, .call (some 5) [] false⟩) rfl (.expr (.source rfl))
    have hchain : IsStmt destructured false 0 (.assignment "=" (some 7) (some 8)) :=
      .assign (.name (x := "x") rfl) (n := ⟨1, .assignment "=" (some 9) (some 11)⟩) rfl
        (.assign hpattern (fun h => by cases h) (n := ⟨1, .name "s"⟩) rfl (.expr (.name "s")))
    exact forall_at?_cons rfl (.declare (forall_at?_cons rfl hsource hnone))
      (forall_at?_cons rfl hchain (forall_at?_cons rfl (.sink (y := "x") rfl rfl) hnone))
  · have hpath : RunsAll destructured true (fun _ => ∅) [some 1, some 6, some 12] _ _ := .cons rfl
      (.declare (.cons rfl (.bind (.name (x := "s") rfl) rfl (.expr (.source rfl))) .nil))
      (.cons rfl
        (.assign (.name (x := "x") rfl) rfl (.assign hpattern rfl (.expr (.name "s"))))
        (.cons rfl (.sink (y := "x") rfl rfl) .nil))
    refine ⟨_, _, hpath, Or.inr (Or.inr (Or.inl ?_))⟩
    refine Origins.mem_receive_of_origins (List.mem_singleton_self "x") ?_
    exact ⟨"s", .name, Origins.mem_receive_of_fresh (List.mem_singleton_self "s") (.call rfl)⟩

end TaintReach.LoopFree
