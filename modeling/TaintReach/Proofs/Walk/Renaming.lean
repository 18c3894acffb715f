import Mathlib.Logic.Equiv.Basic
import TaintReach.Proofs.Scope.Renaming
import TaintReach.Proofs.Walk.Termination

/-! Analyses under other names and lines.

Names are compared with each other only, and lines with nothing: renaming a graph, the
declared names and the endpoints renames what comes of the analysis
(`Walk.analyzeFunction_renamed`). The class of a condition is the same but for the line of a
cycle in it (`Walk.classify_renamed`). Each change to a state, and so each rule of the walk,
takes a state and the same state renamed to such states again (`Walk.State.Renamed`). What
is told on the way is left out: it holds names and lines as written. -/
namespace TaintReach

namespace Renaming

variable (R : Renaming)

/-! ### Graphs -/

def form : Form → Form
  | .function name params body locals =>
    .function (R.ident name) params body (locals.map R.ident)
  | .name ident => .name (R.ident ident)
  | .member object property propName computed =>
    .member object property (R.property propName) computed
  | form => form

def node (n : Node) : Node := ⟨R.line n.line, R.form n.form⟩

def graph (g : Graph) : Graph := ⟨g.nodes.map R.node⟩

/-- A name and the line it stands on. -/
def place (x : String × Int) : String × Int := (R.ident x.1, R.line x.2)

def fault (name : String) (f : Fault) : Fault := { f with scope := name, line := R.line f.line }

/-- The declared names, each under its new name. -/
def declared (declares : Option (String → Bool)) : Option (String → Bool) :=
  declares.map (· ∘ R.ident.symm)

def endpoints (e : Walk.Endpoints) : Walk.Endpoints := ⟨R.ident e.source, R.ident e.sink⟩

def setting (E : Walk.Setting) : Walk.Setting :=
  ⟨R.graph E.graph, R.endpoints E.endpoints, R.declared E.declared⟩

/-- What comes of the analysis of a node. Where it is no function the fault names none. -/
def result (fn : Option Node) (r : Except Fault Scope) : Except Fault Scope :=
  match fn with
  | some ⟨line, .function name _ _ _⟩ =>
    let scopeName := idText (R.ident name) (R.line line)
    (r.map (R.scope scopeName)).mapError (R.fault scopeName)
  | _ => r

variable {R} {g : Graph}

theorem children_form (form : Form) : (R.form form).children = form.children := by
  cases form <;> rfl

theorem node?_graph (id : NodeId) : (R.graph g).node? id = (g.node? id).map R.node := by
  simp [graph, Graph.node?]

theorem at?_graph (c : Option NodeId) : (R.graph g).at? c = (g.at? c).map R.node := by
  cases c with
  | none => rfl
  | some id => exact node?_graph id

/-- A name is found at the same node, under its new name and on its new line. -/
theorem name?_graph (c : Option NodeId) : (R.graph g).name? c = (g.name? c).map R.place := by
  unfold Graph.name?
  rw [at?_graph]
  rcases g.at? c with _ | ⟨line, form⟩
  · rfl
  · cases form <;> rfl

theorem isMember_graph (c : Option NodeId) : (R.graph g).isMember c = g.isMember c := by
  unfold Graph.isMember
  rw [at?_graph]
  rcases g.at? c with _ | ⟨line, form⟩
  · rfl
  · cases form <;> rfl

/-- The base of a chain of members is found by the same steps down the chain. -/
theorem rootWithin_graph (n : Nat) (c : Option NodeId) :
    (R.graph g).rootWithin n c = (g.rootWithin n c).map R.place := by
  induction n generalizing c with
  | zero => rfl
  | succ n ih =>
    unfold Graph.rootWithin
    rw [at?_graph]
    rcases g.at? c with _ | ⟨line, form⟩
    · rfl
    · cases form with
      | member object property propName computed => exact ih object
      | _ => rfl

theorem root?_graph (c : Option NodeId) : (R.graph g).root? c = (g.root? c).map R.place := by
  have hsize : (R.graph g).size = g.size := Array.size_map
  unfold Graph.root?
  rw [hsize]
  exact rootWithin_graph _ c

end Renaming

/-! ### Conditions -/

namespace Walk

variable {R : Renaming} {g : Graph}

namespace Classified

/-- A class, told with other lines. -/
def relocate (q : Int → Int) (a : Classified) : Classified := { a with loopLine := a.loopLine.map q }

variable (q : Int → Int)

theorem relocate_combine (op : Reachable → Reachable → Reachable) (a b : Classified) :
    (a.combine op b).relocate q = (a.relocate q).combine op (b.relocate q) := by
  obtain ⟨_, _ | _⟩ := b <;> rfl

theorem relocate_foldParts {part part' : Option NodeId → Classified}
    (hpart : ∀ c, part' c = (part c).relocate q) (acc : Classified) (cs : List (Option NodeId)) :
    foldParts part' (acc.relocate q) cs = (foldParts part acc cs).relocate q := by
  induction cs generalizing acc with
  | nil => rfl
  | cons c cs ih =>
    unfold foldParts
    simp only [hpart, ← relocate_combine, ih]
    have hreach : ((acc.combine .meet (part c)).relocate q).reach =
        (acc.combine .meet (part c)).reach := rfl
    rw [hreach]
    split <;> rfl

end Classified

open Renaming

/-- The constants known under other names. -/
def Consts.renamed (R : Renaming) (consts : Consts) : Consts :=
  consts.map fun e => (R.ident e.1, e.2)

/-- Constants are looked up by name, and no two names become the same. -/
theorem truth?_renamed (consts : Consts) (x : String) :
    (consts.renamed R).truth? (R.ident x) = consts.truth? x := by
  induction consts with
  | nil => rfl
  | cons e consts ih =>
    obtain ⟨y, truthy⟩ := e
    unfold Consts.truth? Consts.renamed at ih ⊢
    rw [List.map_cons, List.lookup_cons, List.lookup_cons, ih]
    have hname : (R.ident x == R.ident y) = (x == y) := by simp [beq_eq_decide]
    rw [hname]

theorem forget_renamed (consts : Consts) (x : String) :
    (consts.renamed R).forget (R.ident x) = (consts.forget x).renamed R := by
  unfold Consts.renamed Consts.forget
  rw [List.filter_map]
  congr 2
  funext e
  simp

/-- A condition that is settled by constants or literals is settled in the same way. -/
theorem constant?_renamed (consts : Consts) (form : Form) :
    constant? (consts.renamed R) (R.form form) = constant? consts form := by
  cases form with
  | name ident => exact truth?_renamed consts ident
  | _ => rfl

/-- If operands and parts are classed alike but for lines, so is what they are parts of. -/
theorem judge_relocate {operand operand' part part' : Option NodeId → Classified} {q : Int → Int}
    (hoperand : ∀ c, operand' c = (operand c).relocate q)
    (hpart : ∀ c, part' c = (part c).relocate q) (form : Form) :
    judge operand' part' form = (judge operand part form).relocate q := by
  cases judgedBy form with
  | unknown hjudge =>
    rw [hjudge, hjudge]
    rfl
  | negation _ hjudge =>
    rw [hjudge, hjudge, hoperand]
    rfl
  | combination _ _ hjudge =>
    rw [hjudge, hjudge, hoperand, hoperand, Classified.relocate_combine]
  | last _ hjudge => rw [hjudge, hjudge, hoperand]
  | parts hjudge =>
    rw [hjudge, hjudge]
    exact Classified.relocate_foldParts q hpart ⟨.always, none⟩ form.children

/-- How a condition comes to its class does not hang on the names in it. -/
theorem judge_form (operand part : Option NodeId → Classified) (form : Form) :
    judge operand part (R.form form) = judge operand part form := by
  cases form <;> rfl

theorem operand_renamed (consts : Consts) (path : List NodeId) (c : Option NodeId) :
    operand (R.graph g) (consts.renamed R) path c =
      (operand g consts path c).relocate R.line := by
  induction hroom : g.room path using Nat.strongRecOn generalizing path c with
  | _ n ih =>
    rw [operand_eq, operand_eq]
    unfold operandCall
    cases c with
    | none => rfl
    | some id =>
      simp only [node?_graph]
      rcases hn : g.node? id with _ | ⟨line, form⟩
      · rfl
      have hfold : (if id ∈ path then (⟨.never, some (R.line line)⟩ : Classified)
            else foldParts (operand (R.graph g) (consts.renamed R) (id :: path)) ⟨.always, none⟩
              (R.form form).children) =
          (if id ∈ path then (⟨.never, some line⟩ : Classified)
            else foldParts (operand g consts (id :: path)) ⟨.always, none⟩
              form.children).relocate R.line := by
        by_cases hp : id ∈ path
        · rw [if_pos hp, if_pos hp]
          rfl
        · rw [if_neg hp, if_neg hp, children_form]
          have hless := hroom ▸ g.room_cons_lt hn hp
          exact Classified.relocate_foldParts R.line (fun c => ih _ hless _ c rfl) ⟨.always, none⟩ _
      simp only [Option.map_some, node, constant?_renamed]
      split
      · rfl
      · cases form with
        | name _ => rfl
        | thisRef => rfl
        | _ => exact hfold

/-- Both conditions are followed along the same nodes. Only the line of a cycle is told anew. -/
theorem classify_renamed (consts : Consts) (path : List NodeId) (c : Option NodeId) :
    classify (R.graph g) (consts.renamed R) path c =
      (classify g consts path c).relocate R.line := by
  induction hroom : g.room path using Nat.strongRecOn generalizing path c with
  | _ n ih =>
    rw [classify_eq, classify_eq]
    unfold classifyCall
    cases c with
    | none => rfl
    | some id =>
      simp only [node?_graph]
      rcases hn : g.node? id with _ | ⟨line, form⟩
      · rfl
      simp only [Option.map_some, node, constant?_renamed]
      by_cases hp : id ∈ path
      · rw [if_pos hp, if_pos hp]
        rfl
      rw [if_neg hp, if_neg hp]
      cases constant? consts form with
      | some truthy => rfl
      | none =>
        have hless := hroom ▸ g.room_cons_lt hn hp
        show judge _ _ (R.form form) = _
        rw [judge_form]
        exact judge_relocate (fun c => ih _ hless _ c rfl) (operand_renamed consts _) form

/-! ### States -/

/-- The second state is the first under other names, up to what was told on the way. -/
structure State.Renamed (R : Renaming) (name : String) (s s' : State) : Prop where
  scope : s'.scope = R.scope name s.scope
  defining : s'.defining = s.defining.map R.ident
  ambient : s'.ambient = s.ambient
  consts : s'.consts = s.consts.renamed R
  fault : s'.fault = s.fault.map (R.fault name)
  /-- References are told apart by their names, whatever becomes of their lines. -/
  wellFormed : s.scope.WellFormed

namespace State.Renamed

variable {name : String} {s s' : State}

theorem foldl {α : Type} {f f' : State → α → State} (h : s.Renamed R name s') (xs : List α)
    (hf : ∀ {s s'} (x : α), s.Renamed R name s' → (f s x).Renamed R name (f' s' x)) :
    (xs.foldl f s).Renamed R name (xs.foldl f' s') := by
  induction xs generalizing s s' with
  | nil => exact h
  | cons x xs ih => exact ih (hf x h)

theorem lookup? (h : s.Renamed R name s') (x : String) :
    s'.scope.lookup? (R.ident x) = (s.scope.lookup? x).map R.var := by
  rw [h.scope]
  exact lookup?_scope name x

theorem tell (h : s.Renamed R name s') (e e' : Event) : (s.tell e).Renamed R name (s'.tell e') :=
  ⟨h.scope, h.defining, h.ambient, h.consts, h.fault, h.wellFormed⟩

theorem failCyclic (h : s.Renamed R name s') (line : Int) :
    (s.failCyclic line).Renamed R name (s'.failCyclic (R.line line)) := by
  refine ⟨h.scope, h.defining, h.ambient, h.consts, ?_, h.wellFormed⟩
  unfold State.failCyclic
  rw [h.scope]
  rfl

/-- A name that is new is registered under both its names at once, as either is unknown. -/
theorem lookup (h : s.Renamed R name s') (declares : Option (String → Bool)) (x : String)
    (line : Int) :
    (s.lookup declares x line).Renamed R name
      (s'.lookup (R.declared declares) (R.ident x) (R.line line)) := by
  have hextends := (lookup_extends h.wellFormed declares x line).wellFormed
  unfold State.lookup at hextends ⊢
  rw [h.lookup?]
  cases hx : s.scope.lookup? x with
  | some _ => exact h
  | none =>
    rw [hx] at hextends
    refine ⟨?_, h.defining, h.ambient, h.consts, h.fault, hextends⟩
    have hescaped : ((R.declared declares).any fun d => !d (R.ident x)) =
        declares.any fun d => !d x := by
      cases declares <;> simp [Renaming.declared]
    simp only [Option.map_none, State.tell, hescaped, h.scope, h.ambient]
    rw [scope_add]
    rfl

/-- A name that is bound anew is no constant any more, in both states. -/
theorem bind (h : s.Renamed R name s') (declares : Option (String → Bool)) (x : String)
    (line : Int) :
    (s.bind declares x line).Renamed R name
      (s'.bind (R.declared declares) (R.ident x) (R.line line)) := by
  refine lookup ?_ declares x line
  refine ⟨h.scope, h.defining, h.ambient, ?_, h.fault, h.wellFormed⟩
  rw [h.consts]
  exact forget_renamed s.consts x

theorem record (h : s.Renamed R name s') (x : String) (truthy : Bool) :
    Renamed R name { s with consts := s.consts.record x truthy }
      { s' with consts := s'.consts.record (R.ident x) truthy } := by
  refine ⟨h.scope, h.defining, h.ambient, ?_, h.fault, h.wellFormed⟩
  unfold Consts.record
  rw [h.consts, forget_renamed]
  rfl

/-- The one change that compares references: here the scope has to be well formed. -/
theorem depend (h : s.Renamed R name s') (x y : String) :
    (s.depend x y).Renamed R name (s'.depend (R.ident x) (R.ident y)) := by
  refine ⟨?_, h.defining, h.ambient, h.consts, h.fault, h.wellFormed.depend x y⟩
  unfold State.depend
  rw [h.scope, scope_depend h.wellFormed]

theorem dependDefining (h : s.Renamed R name s') (y : String) :
    (s.dependDefining y).Renamed R name (s'.dependDefining (R.ident y)) := by
  unfold State.dependDefining
  rw [h.defining]
  cases s.defining with
  | none => exact h
  | some x => exact h.depend x y

theorem enter (h : s.Renamed R name s') (r : Reachable) :
    (s.enter r).Renamed R name (s'.enter r) := by
  refine ⟨?_, h.defining, rfl, h.consts, h.fault, h.wellFormed.stamp r⟩
  unfold State.enter
  rw [h.scope, scope_stamp]

theorem route (h : s.Renamed R name s') (x : Option String) {step step' : State → State}
    (hstep : ∀ {s s'}, s.Renamed R name s' → (step s).Renamed R name (step' s')) :
    (s.route x step).Renamed R name (s'.route (x.map R.ident) step') := by
  have hbegin : Renamed R name { s with defining := x } { s' with defining := x.map R.ident } :=
    ⟨h.scope, rfl, h.ambient, h.consts, h.fault, h.wellFormed⟩
  have hend := hstep hbegin
  exact ⟨hend.scope, h.defining, hend.ambient, hend.consts, hend.fault, hend.wellFormed⟩

/-- The mark goes to the variable that is being defined, which both states find. -/
theorem markSource (h : s.Renamed R name s') (line line' : Int) :
    (s.markSource line).Renamed R name (s'.markSource line') := by
  have hfound : s'.defining.bind s'.scope.lookup? =
      (s.defining.bind s.scope.lookup?).map R.var := by
    rw [h.defining]
    cases s.defining with
    | none => rfl
    | some x => exact h.lookup? x
  have hextends := (markSource_extends h.wellFormed line).wellFormed
  unfold State.markSource at hextends ⊢
  rw [hfound]
  cases hv : s.defining.bind s.scope.lookup? with
  | none => exact h
  | some v =>
    rw [hv] at hextends
    refine ⟨?_, h.defining, h.ambient, h.consts, h.fault, hextends⟩
    simp only [Option.map_some, State.tell, h.scope]
    refine (scope_update name v.name fun _ _ _ => ?_).symm
    rfl

theorem promote (h : s.Renamed R name s') (r : Reachable) {x : String} {v : Variable}
    (hv : s.scope.lookup? x = some v) (e e' : Variable → Event) :
    (s.promote r v e).Renamed R name (s'.promote r (R.var v) e') := by
  have hextends := (promote_extends h.wellFormed hv r e).wellFormed
  have hrise : (if (R.var v).source then (R.var v).promote? r else none) =
      (if v.source then v.promote? r else none).map R.var := by
    change (if v.source then if v.taint.rank < r.taint.rank then _ else none else none) = _
    unfold Variable.promote?
    split
    · split <;> rfl
    · rfl
  unfold State.promote at hextends ⊢
  rw [hrise]
  cases hw : (if v.source then v.promote? r else none) with
  | none => exact h
  | some w =>
    rw [hw] at hextends
    refine ⟨?_, h.defining, h.ambient, h.consts, h.fault, hextends⟩
    simp only [Option.map_some, State.tell, h.scope]
    refine (scope_update name v.name fun _ _ _ => ?_).symm
    rfl

/-- A sink goes by marks, which renaming leaves alone, through dependents in their order. -/
theorem sink (h : s.Renamed R name s') (x : String) (line line' : Int) :
    (s.sink x line).Renamed R name (s'.sink (R.ident x) line') := by
  unfold State.sink
  rw [h.lookup?]
  cases hx : s.scope.lookup? x with
  | none => exact h
  | some v =>
    have hself := h.promote v.reachable hx (fun v => .sinkMet line v.id v.taint)
      fun v => .sinkMet line' v.id v.taint
    have hdependents : (R.var v).dependents = v.dependents.map R.ref := rfl
    simp only [Option.map_some]
    rw [hdependents, List.foldl_map]
    refine hself.foldl v.dependents fun {t t'} d ht => ?_
    have hname : (R.ref d).name = R.ident d.name := rfl
    rw [hname, ht.lookup?]
    cases hd : t.scope.lookup? d.name with
    | none => exact ht
    | some dv =>
      change State.Renamed R name _ (if dv.reachable = v.reachable then _ else t')
      by_cases hsame : dv.reachable = v.reachable
      · simp only [if_pos hsame]
        exact ht.promote v.reachable hd _ _
      · simp only [if_neg hsame]
        exact ht

end State.Renamed

/-! ### The rules -/

section
variable {E : Setting} {name : String} {s s' : State}

theorem recordConst_renamed (b : NodeId) (h : s.Renamed R name s') :
    (recordConst E.graph b s).Renamed R name (recordConst (R.graph E.graph) b s') := by
  unfold recordConst
  rw [node?_graph]
  rcases E.graph.node? b with _ | ⟨line, form⟩
  · exact h
  cases form with
  | binding target init =>
    simp only [Option.map_some, node, form, name?_graph, at?_graph]
    rcases E.graph.name? target with _ | ⟨ident, identLine⟩
    · exact h
    rcases E.graph.at? init with _ | ⟨initLine, init⟩
    · exact h
    cases init with
    | literal kind raw truthy => exact h.record ident truthy
    | _ => exact h
  | _ => exact h

/-- The arguments that are names are taken up one by one by the base of the chain. -/
theorem methodCall_renamed (callee : Option NodeId) (args : List (Option NodeId))
    (h : s.Renamed R name s') :
    (methodCall E callee args s).Renamed R name (methodCall (R.setting E) callee args s') := by
  unfold methodCall
  simp only [Renaming.setting, isMember_graph, root?_graph, name?_graph]
  rcases E.graph.isMember callee with _ | _
  · exact h
  rcases E.graph.root? callee with _ | ⟨ident, line⟩
  · exact h
  refine (h.lookup E.declared ident line).foldl args fun {t t'} a ht => ?_
  rcases E.graph.name? a with _ | ⟨on, onLine⟩
  · exact ht
  · exact (ht.lookup E.declared on onLine).depend ident on

/-- A branch that never runs is left out in both. -/
theorem branch_renamed (inner outer : Reachable) {step step' : State → State}
    (hstep : ∀ {s s'}, s.Renamed R name s' → (step s).Renamed R name (step' s'))
    (h : s.Renamed R name s') :
    (branch inner outer step s).Renamed R name (branch inner outer step' s') := by
  have hin := h.enter inner
  unfold branch
  simp only
  split
  · exact hin.enter outer
  · exact (hstep hin).enter outer

variable {visit visit' : Visit}
  (hv : ∀ c {s s'}, s.Renamed R name s' → (visit c s).Renamed R name (visit' c s'))
include hv

theorem visitAll_renamed (cs : List (Option NodeId)) (h : s.Renamed R name s') :
    (visitAll visit cs s).Renamed R name (visitAll visit' cs s') :=
  h.foldl cs fun c h => hv c h

/-- Which form of target is assigned to is not changed by a renaming. -/
theorem assign_renamed (target value : Option NodeId) (h : s.Renamed R name s') :
    (assign (R.setting E) visit' target value s').1 =
        (assign E visit target value s).1.map R.ident ∧
      (assign E visit target value s).2.Renamed R name
        (assign (R.setting E) visit' target value s').2 := by
  have hboth := hv value (hv target h)
  unfold assign
  simp only [Renaming.setting, at?_graph, root?_graph, name?_graph]
  rcases E.graph.at? target with _ | ⟨line, form⟩
  · exact ⟨rfl, hboth⟩
  cases form with
  | name ident => exact ⟨rfl, (h.bind E.declared ident line).route (some ident) (hv value)⟩
  | pattern names defaults =>
    have hempty : (if names = [] then s.route none (visit value) else s).Renamed R name
        (if names = [] then s'.route none (visit' value) else s') := by
      split
      · exact h.route none (hv value)
      · exact h
    refine ⟨rfl, (hempty.foldl names fun {t t'} n ht => ?_).foldl defaults fun d ht =>
      ht.route none (hv d)⟩
    rcases E.graph.name? (some n) with _ | ⟨ident, line⟩
    · exact ht
    · exact (ht.bind E.declared ident line).route (some ident) (hv value)
  | member object property propName computed =>
    rcases E.graph.root? target with _ | ⟨ident, rootLine⟩
    · exact ⟨rfl, hboth⟩
    have hroot := h.lookup E.declared ident rootLine
    have hproperty :
        (if computed then (s.lookup E.declared ident rootLine).route none (visit property)
          else s.lookup E.declared ident rootLine).Renamed R name
        (if computed then (s'.lookup (R.declared E.declared) (R.ident ident)
            (R.line rootLine)).route none (visit' property)
          else s'.lookup (R.declared E.declared) (R.ident ident) (R.line rootLine)) := by
      split
      · exact hroot.route none (hv property)
      · exact hroot
    rcases E.graph.name? value with _ | ⟨on, onLine⟩
    · exact ⟨rfl, hproperty.route (some ident) (hv value)⟩
    · exact ⟨rfl, (hproperty.lookup E.declared on onLine).depend ident on⟩
  | _ => exact ⟨rfl, hboth⟩

theorem declaration_renamed (kind : DeclKind) (bindings : List NodeId) (h : s.Renamed R name s') :
    (declaration E visit kind bindings s).Renamed R name
      (declaration (R.setting E) visit' kind bindings s') := by
  refine h.foldl bindings fun {t t'} b ht => ?_
  have hvisit := hv (some b) ht
  simp only
  split
  · exact recordConst_renamed b hvisit
  · exact hvisit

/-- The endpoints are renamed with the graph, so a call is one of a source or sink or of
neither in both. -/
theorem call_renamed (line : Int) (callee : Option NodeId) (args : List (Option NodeId))
    (isNew : Bool) (h : s.Renamed R name s') :
    (call E visit line callee args isNew s).Renamed R name
      (call (R.setting E) visit' (R.line line) callee args isNew s') := by
  have hcallee : (if isNew then none else (R.setting E).graph.name? callee) =
      (if isNew then none else E.graph.name? callee).map R.place := by
    split
    · rfl
    · exact name?_graph callee
  unfold call
  rw [hcallee]
  rcases (if isNew then none else E.graph.name? callee) with _ | ⟨ident, identLine⟩
  · exact visitAll_renamed hv args (hv callee (methodCall_renamed callee args h))
  have hsource : R.ident ident = (R.setting E).endpoints.source ↔ ident = E.endpoints.source :=
    R.ident.apply_eq_iff_eq
  have hsink : R.ident ident = (R.setting E).endpoints.sink ↔ ident = E.endpoints.sink :=
    R.ident.apply_eq_iff_eq
  simp only [Option.map_some, place, hsource, hsink]
  split
  · split
    · exact h.markSource line _
    · exact h
  split
  · rcases args with _ | ⟨arg, _ | ⟨_, _⟩⟩
    · exact h
    · simp only [Renaming.setting, name?_graph]
      rcases E.graph.name? arg with _ | ⟨y, yLine⟩
      · exact h
      · exact (h.lookup E.declared y yLine).sink y line _
    · exact h
  · exact visitAll_renamed hv args h

theorem conditional_renamed (path : List NodeId) (line : Int) (kind : CondKind)
    (init test update each body otherwise : Option NodeId) (h : s.Renamed R name s') :
    (conditional E path visit line kind init test update each body otherwise s).Renamed R name
      (conditional (R.setting E) path visit' (R.line line) kind init test update each body
        otherwise s') := by
  have hinit : (if kind = .forLoop then visit init s else s).Renamed R name
      (if kind = .forLoop then visit' init s' else s') := by
    split
    · exact hv init h
    · exact h
  unfold conditional
  simp only
  generalize (if kind = .forLoop then visit init s else s) = t at hinit
  generalize (if kind = .forLoop then visit' init s' else s') = t' at hinit
  have hguard : (if kind = .forIn ∨ kind = .forOf then (⟨.maybe, none⟩ : Classified)
        else classify (R.graph E.graph) t'.consts path test) =
      (if kind = .forIn ∨ kind = .forOf then (⟨.maybe, none⟩ : Classified)
        else classify E.graph t.consts path test).relocate R.line := by
    rw [hinit.consts]
    split
    · rfl
    · exact classify_renamed t.consts path test
  simp only [Renaming.setting, hguard, hinit.ambient]
  generalize (if kind = .forIn ∨ kind = .forOf then (⟨.maybe, none⟩ : Classified)
    else classify E.graph t.consts path test) = guard
  have hfail : (guard.loopLine.elim t fun line => t.failCyclic line).Renamed R name
      ((guard.relocate R.line).loopLine.elim t' fun line => t'.failCyclic line) := by
    obtain ⟨reach, _ | loopLine⟩ := guard
    · exact hinit
    · exact hinit.failCyclic loopLine
  have hbody : ∀ {s s' : State}, s.Renamed R name s' →
      (visit update (visit body (visit each s))).Renamed R name
        (visit' update (visit' body (visit' each s'))) :=
    fun h => hv update (hv body (hv each h))
  have hthen := branch_renamed (t.ambient.meet guard.reach) t.ambient hbody
    (hfail.tell (.guardClassified kind line guard.reach)
      (.guardClassified kind (R.line line) guard.reach))
  split
  · exact hthen
  · exact branch_renamed _ _ (hv otherwise) hthen

theorem switch_renamed (clauses : List NodeId) (h : s.Renamed R name s') :
    (switch E visit clauses s).Renamed R name (switch (R.setting E) visit' clauses s') := by
  unfold switch
  simp only [h.ambient, Renaming.setting, node?_graph]
  refine ((h.enter _).foldl clauses fun {t t'} c ht => ?_).enter s.ambient
  rcases E.graph.node? c with _ | ⟨line, form⟩
  · exact ht
  cases form with
  | clause test body => exact visitAll_renamed hv body ht
  | _ => exact ht

/-- One case for each rule of the walk, given that the visits below are renamed. -/
theorem visitNode_renamed (path : List NodeId) (n : Node) (h : s.Renamed R name s') :
    (visitNode E path visit n s).Renamed R name
      (visitNode (R.setting E) path visit' (R.node n) s') := by
  obtain ⟨line, form⟩ := n
  unfold visitNode
  cases form with
  | function _ _ _ _ => exact h
  | declaration kind bindings => exact declaration_renamed hv kind bindings h
  | binding target init => exact (assign_renamed hv target init h).2
  | assignment operator target value =>
    obtain ⟨hreceiver, hassign⟩ := assign_renamed (E := E) hv target value h
    simp only [node, Renaming.form]
    revert hreceiver hassign
    rcases assign E visit target value s with ⟨received, t⟩
    rcases assign (R.setting E) visit' target value s' with ⟨received', t'⟩
    intro hreceiver hassign
    obtain rfl : received' = received.map R.ident := hreceiver
    cases received with
    | none => exact hassign
    | some x => exact hassign.dependDefining x
  | name ident =>
    simp only [node, Renaming.form, h.defining, Option.isNone_map]
    split
    · exact h
    · exact (h.lookup E.declared ident line).dependDefining ident
  | call callee args isNew => exact call_renamed hv line callee args isNew h
  | conditional kind init test update each body otherwise =>
    exact conditional_renamed hv path line kind init test update each body otherwise h
  | switch discriminant clauses => exact switch_renamed hv clauses h
  | _ => exact visitAll_renamed hv _ h

end

/-- **A walk under other names** leaves what the walk leaves, under other names. -/
theorem walk_renamed {E : Setting} {name : String} (path : List NodeId) (c : Option NodeId)
    {s s' : State} (h : s.Renamed R name s') :
    (walk E path c s).Renamed R name (walk (R.setting E) path c s') := by
  -- both walks take the same path, and the room left on it bounds the recursion
  induction hroom : E.graph.room path using Nat.strongRecOn generalizing path c s s' with
  | _ n ih =>
    cases c with
    | none =>
      rw [walk_none, walk_none]
      exact h
    | some id =>
      rcases hs : s.fault with _ | f
      · have hs' : s'.fault = none := by rw [h.fault, hs]; rfl
        have hnode : (R.setting E).graph.node? id = (E.graph.node? id).map R.node := node?_graph id
        rcases hn : E.graph.node? id with _ | node
        · rw [walk_missing hn, walk_missing (by rw [hnode, hn]; rfl)]
          exact h
        · have hn' : (R.setting E).graph.node? id = some (R.node node) := by rw [hnode, hn]; rfl
          by_cases hp : id ∈ path
          · rw [walk_cyclic hs hn hp, walk_cyclic hs' hn' hp]
            exact h.failCyclic node.line
          · rw [walk_some hs hn hp, walk_some hs' hn' hp]
            have hless := hroom ▸ E.graph.room_cons_lt hn hp
            exact visitNode_renamed (fun c _ _ h => ih _ hless _ c h rfl) _ node h
      · have hs' : s'.fault = some (R.fault name f) := by rw [h.fault, hs]; rfl
        rw [walk_of_fault _ (by rw [hs]; rfl), walk_of_fault _ (by rw [hs']; rfl)]
        exact h

/-- The scope that is opened goes by a name that tells the line of the function, which is why
it is named anew. -/
theorem analyzeFunction_setting (E : Setting) (fn : Option NodeId) :
    (analyzeFunction (R.setting E) fn).result =
      R.result (E.graph.at? fn) (analyzeFunction E fn).result := by
  have hat : (R.setting E).graph.at? fn = (E.graph.at? fn).map R.node := at?_graph fn
  unfold analyzeFunction
  rw [hat]
  cases fn with
  | none => rfl
  | some id =>
    rcases E.graph.at? (some id) with _ | ⟨line, form⟩
    · rfl
    cases form with
    | function name params body locals =>
      let scopeName := idText (R.ident name) (R.line line)
      have hstart : State.Renamed R scopeName
          ({ scope := { name := idText name line } : State }.tell (.opened (idText name line)))
          ({ scope := { name := scopeName } : State }.tell (.opened scopeName)) :=
        ⟨rfl, rfl, rfl, rfl, rfl, Scope.wellFormed_of_empty rfl⟩
      have hwalk : ∀ c {s s' : State}, s.Renamed R scopeName s' →
          (walk E [id] c s).Renamed R scopeName (walk (R.setting E) [id] c s') :=
        fun c _ _ h => walk_renamed [id] c h
      have hdone := visitAll_renamed hwalk body (visitAll_renamed hwalk params hstart)
      simp only [Option.map_some, node, Renaming.form, Renaming.result]
      generalize visitAll (walk E [id]) body _ = t at hdone ⊢
      generalize visitAll (walk (R.setting E) [id]) body _ = t' at hdone ⊢
      rw [hdone.fault]
      cases t.fault with
      | some f => rfl
      | none => exact congrArg Except.ok hdone.scope
    | _ => rfl

/-! ### Configured names -/

/-- An empty name stands for the usual one and must not arise from one that is not empty. -/
theorem ofNames_renamed {source sink : String} (hsource : source ≠ "") (hsink : sink ≠ "")
    (hsource' : R.ident source ≠ "") (hsink' : R.ident sink ≠ "") :
    Endpoints.ofNames (R.ident source) (R.ident sink) = R.endpoints (.ofNames source sink) := by
  simp only [Endpoints.ofNames, Renaming.endpoints, if_neg hsource, if_neg hsink, if_neg hsource',
    if_neg hsink']

theorem declaredBy_graph (fn : Option NodeId) :
    declaredBy (R.graph g) fn = (declaredBy g fn).map R.ident := by
  unfold declaredBy
  rw [at?_graph]
  rcases g.at? fn with _ | ⟨line, form⟩
  · rfl
  · cases form <;> rfl

theorem declared_contains (names : List String) :
    R.declared (some names.contains) = some (names.map R.ident).contains := by
  refine congrArg some (funext fun x => ?_)
  rw [Bool.eq_iff_iff]
  simp only [Function.comp_apply, List.contains_iff_mem, List.mem_map]
  exact ⟨fun h => ⟨_, h, R.ident.apply_symm_apply x⟩, fun ⟨y, hy, hyx⟩ => by
    rw [← hyx, R.ident.symm_apply_apply]
    exact hy⟩

/-- Two names can be made any other two. -/
theorem exists_perm {a b a' b' : String} (hab : a ≠ b) (hab' : a' ≠ b') :
    ∃ p : Equiv.Perm String, p a = a' ∧ p b = b' := by
  have hmoved : Equiv.swap a a' b ≠ a' := fun h => by
    rw [Equiv.swap_apply_eq_iff, Equiv.swap_apply_right] at h
    exact hab h.symm
  refine ⟨(Equiv.swap a a').trans (Equiv.swap (Equiv.swap a a' b) b'), ?_, ?_⟩
  · rw [Equiv.trans_apply, Equiv.swap_apply_left, Equiv.swap_apply_of_ne_of_ne hmoved.symm hab']
  · rw [Equiv.trans_apply, Equiv.swap_apply_left]

theorem analyzeFunction_ofNames {source sink : String} (hsource : source ≠ "") (hsink : sink ≠ "")
    (hsource' : R.ident source ≠ "") (hsink' : R.ident sink ≠ "") (fn : Option NodeId)
    (declares : Option (String → Bool)) :
    (analyzeFunction ⟨R.graph g, .ofNames (R.ident source) (R.ident sink), R.declared declares⟩
      fn).result =
      R.result (g.at? fn) (analyzeFunction ⟨g, .ofNames source sink, declares⟩ fn).result := by
  rw [ofNames_renamed hsource hsink hsource' hsink']
  exact analyzeFunction_setting ⟨g, .ofNames source sink, declares⟩ fn

/-- Renaming the identifiers of a graph, the declared names and the endpoints, and moving
lines anywhere, does the same to what comes of an analysis. The names that a function
declares itself are renamed with it. Any two names of source and sink can be renamed to the
usual ones, and so behave as those. -/
theorem analyzeFunction_renamed (g : Graph) (fn : Option NodeId)
    (declares : Option (String → Bool)) :
    (∀ (R : Renaming) (source sink : String), source ≠ "" → sink ≠ "" →
      R.ident source ≠ "" → R.ident sink ≠ "" →
      (analyzeFunction ⟨R.graph g, .ofNames (R.ident source) (R.ident sink), R.declared declares⟩
        fn).result =
        R.result (g.at? fn) (analyzeFunction ⟨g, .ofNames source sink, declares⟩ fn).result) ∧
    (∀ R : Renaming,
      R.declared (some (declaredBy g fn).contains) = some (declaredBy (R.graph g) fn).contains) ∧
    ∀ source sink : String, source ≠ "" → sink ≠ "" → source ≠ sink →
      ∃ p : Equiv.Perm String, p source = "retSource" ∧ p sink = "sink" ∧
        ∀ (property : String → String) (line : Int → Int),
          let R : Renaming := ⟨p, property, line⟩
          (analyzeFunction ⟨R.graph g, .ofNames "" "", R.declared declares⟩ fn).result =
            R.result (g.at? fn) (analyzeFunction ⟨g, .ofNames source sink, declares⟩ fn).result := by
  refine ⟨fun R source sink hsource hsink hsource' hsink' => ?_, fun R => ?_,
    fun source sink hsource hsink hne => ?_⟩
  · exact analyzeFunction_ofNames hsource hsink hsource' hsink' fn declares
  · rw [declared_contains, declaredBy_graph]
  · obtain ⟨p, hp, hp'⟩ := exists_perm hne (show "retSource" ≠ "sink" by decide)
    refine ⟨p, hp, hp', fun property line => ?_⟩
    let R : Renaming := ⟨p, property, line⟩
    have husual := analyzeFunction_ofNames (R := R) (g := g) hsource hsink (by simp [R, hp])
      (by simp [R, hp']) fn declares
    have hendpoints : Endpoints.ofNames (R.ident source) (R.ident sink) = .ofNames "" "" := by
      simp only [R, hp, hp']
      decide
    rw [hendpoints] at husual
    exact husual

/-! ### A variable and a source that trade their names -/

namespace Trade

/-- A variable `s` takes a value from `get` and passes it to `put`. -/
def graph : Graph :=
  ⟨#[⟨1, .function "f" [] [some 1, some 5] ["s"]⟩, ⟨2, .assignment "=" (some 2) (some 3)⟩,
    ⟨2, .name "s"⟩, ⟨2, .call (some 4) [] false⟩, ⟨2, .name "get"⟩,
    ⟨3, .call (some 6) [some 7] false⟩, ⟨3, .name "put"⟩, ⟨3, .name "s"⟩]⟩

/-- All lines become one. -/
def trade : Renaming := ⟨Equiv.swap "s" "get", fun x => x, fun _ => 9⟩

def declares : Option (String → Bool) := some (declaredBy graph (some 0)).contains

/-- A scope with one variable, a source that reaches a sink. -/
def found (name ident : String) (line : Int) : Scope :=
  { name, vars := [{ home := 0, name := ident, line, source := true, taint := .must }] }

theorem analyzeFunction_traded :
    trade.ident "get" = "s" ∧ trade.ident "put" = "put" ∧
      (analyzeFunction ⟨graph, .ofNames "get" "put", declares⟩ (some 0)).result =
        .ok (found "f@1" "s" 2) ∧
      (analyzeFunction ⟨trade.graph graph, .ofNames "s" "put", trade.declared declares⟩
        (some 0)).result = .ok (found "f@9" "get" 9) := by
  have hsource : trade.ident "get" = "s" := by decide
  have hsink : trade.ident "put" = "put" := by decide
  have hplain : (analyzeFunction ⟨graph, .ofNames "get" "put", declares⟩ (some 0)).result =
      .ok (found "f@1" "s" 2) := by
    decide +kernel
  have htraded := (analyzeFunction_renamed graph (some 0) declares).1 trade "get" "put"
    (by decide) (by decide) (by decide) (by decide)
  rw [hsource, hsink, hplain] at htraded
  exact ⟨hsource, hsink, hplain, htraded.trans (by decide +kernel)⟩

end Trade

end Walk

end TaintReach
