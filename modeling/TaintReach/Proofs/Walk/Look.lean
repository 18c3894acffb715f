import TaintReach.Proofs.Walk.Termination

/-! What a run looks at, and when it fails.

A run looks at nodes in three ways: it visits them, it judges them as conditions, and
it judges them as parts of conditions. The looks that a node leads to are listed here
rule by rule, each with the state it is made in. A rule fails only by one of its looks
(`visitNode_failsBy`), and the classifier tells of a loop only by one of its own
(`classify_returns`). So a walk fails exactly if some chain of looks, each made at the
node that the one before it looks at, returns to a node that it has come through
(`walk_failsBy`). -/
namespace TaintReach.Walk

/-- The way a node is looked at: it is visited in a state, or judged with what is known
of constants, as a condition or as a part of one. -/
inductive Mode where
  | visit (s : State)
  | test (consts : Consts)
  | part (consts : Consts)

/-- A field that is looked at. -/
structure Look where
  field : Option NodeId
  mode : Mode

/-! ### The looks of a visit -/

/-- What a loop makes, in each round what the state it starts in leads to. -/
def gather {α β : Type} (round : State → α → State) (make : State → α → List β) :
    List α → State → List β
  | [], _ => []
  | x :: rest, s => make s x ++ gather round make rest (round s x)

def looksAll (visit : Visit) : List (Option NodeId) → State → List Look :=
  gather (fun s c => visit c s) fun s c => [⟨c, .visit s⟩]

/-- The state in which the value that a variable receives is visited. -/
def receiving (E : Setting) (s : State) (x : String × Int) : State :=
  { s.bind E.declared x.1 x.2 with defining := some x.1 }

/-- The value is visited once for each name that receives it, or once if a pattern has
none; then come the defaults of the pattern. Of a member with a base no more than its
own computed property is visited. -/
def assignLooks (E : Setting) (visit : Visit) (target value : Option NodeId) (s : State) :
    List Look :=
  let receive (s : State) (x : String × Int) : State :=
    (s.bind E.declared x.1 x.2).route (some x.1) (visit value)
  match E.graph.at? target with
  | some ⟨line, .name ident⟩ => [⟨value, .visit (receiving E s (ident, line))⟩]
  | some ⟨_, .pattern names defaults⟩ =>
    let received := names.filterMap fun n => E.graph.name? (some n)
    let start := if names = [] then s.route none (visit value) else s
    (if names = [] then [⟨value, .visit { s with defining := none }⟩] else []) ++
      gather receive (fun s x => [⟨value, .visit (receiving E s x)⟩]) received start ++
      gather (fun s d => s.route none (visit d))
        (fun s d => [⟨d, .visit { s with defining := none }⟩]) defaults
        (received.foldl receive start)
  | some ⟨_, .member _ property _ computed⟩ =>
    match E.graph.root? target with
    | none => [⟨target, .visit s⟩, ⟨value, .visit (visit target s)⟩]
    | some (ident, line) =>
      let start := s.lookup E.declared ident line
      let after := if computed then start.route none (visit property) else start
      (if computed then [⟨property, .visit { start with defining := none }⟩] else []) ++
        if (E.graph.name? value).isSome then []
        else [⟨value, .visit { after with defining := some ident }⟩]
  | _ => [⟨target, .visit s⟩, ⟨value, .visit (visit target s)⟩]

def declarationLooks (E : Setting) (visit : Visit) (kind : DeclKind) :
    List NodeId → State → List Look :=
  gather (fun s b =>
      let s := visit (some b) s
      if kind = .const then recordConst E.graph b s else s)
    fun s b => [⟨some b, .visit s⟩]

/-- A plain call of a name is that of a source, of a sink or of another function. -/
def callLooks (E : Setting) (visit : Visit) (callee : Option NodeId) (args : List (Option NodeId))
    (isNew : Bool) (s : State) : List Look :=
  match (if isNew then none else E.graph.name? callee) with
  | some (ident, _) =>
    if ident = E.endpoints.source ∨ ident = E.endpoints.sink then [] else looksAll visit args s
  | none =>
    let start := methodCall E callee args s
    ⟨callee, .visit start⟩ :: looksAll visit args (visit callee start)

/-- The state in which a condition is judged. -/
def opened (visit : Visit) (kind : CondKind) (init : Option NodeId) (s : State) : State :=
  if kind = .forLoop then visit init s else s

/-- What a condition is judged to be; an enumerating loop has none. -/
def guardOf (E : Setting) (path : List NodeId) (kind : CondKind) (test : Option NodeId)
    (s : State) : Classified :=
  if kind = .forIn ∨ kind = .forOf then ⟨.maybe, none⟩ else classify E.graph s.consts path test

def guarded (line : Int) (kind : CondKind) (guard : Classified) (s : State) : State :=
  let s := guard.loopLine.elim s fun line => s.failCyclic line
  s.tell (.guardClassified kind line guard.reach)

/-- The state behind what a condition guards. -/
def afterBody (E : Setting) (path : List NodeId) (visit : Visit) (line : Int) (kind : CondKind)
    (init test update each body : Option NodeId) (s : State) : State :=
  let start := opened visit kind init s
  let guard := guardOf E path kind test start
  branch (start.ambient.meet guard.reach) start.ambient
    (fun s => visit update (visit body (visit each s))) (guarded line kind guard start)

/-- A branch that never runs is not looked at. -/
def conditionalLooks (E : Setting) (path : List NodeId) (visit : Visit) (line : Int)
    (kind : CondKind) (init test update each body otherwise : Option NodeId) (s : State) :
    List Look :=
  let start := opened visit kind init s
  let guard := guardOf E path kind test start
  let inner := start.ambient.meet guard.reach
  let other := start.ambient.meet guard.reach.negate
  let within := (guarded line kind guard start).enter inner
  let after := afterBody E path visit line kind init test update each body s
  (if kind = .forLoop then [⟨init, .visit s⟩] else []) ++
    (if kind = .forIn ∨ kind = .forOf then [] else [⟨test, .test start.consts⟩]) ++
    (if inner = .never then [] else looksAll visit [each, body, update] within) ++
    if otherwise.isNone ∨ other = .never then [] else [⟨otherwise, .visit (after.enter other)⟩]

/-- What a clause of a switch runs. -/
def clauseBody (g : Graph) (clause : NodeId) : List (Option NodeId) :=
  match g.node? clause with
  | some ⟨_, .clause _ body⟩ => body
  | _ => []

def switchLooks (E : Setting) (visit : Visit) (clauses : List NodeId) (s : State) : List Look :=
  gather (fun s c => visitAll visit (clauseBody E.graph c) s)
    (fun s c => looksAll visit (clauseBody E.graph c) s) clauses (s.enter (s.ambient.meet .maybe))

/-- The looks that the rule for one node makes; `path` ends in it. -/
def visitLooks (E : Setting) (path : List NodeId) (visit : Visit) (n : Node) (s : State) :
    List Look :=
  match n.form with
  | .function .. => []
  | .declaration kind bindings => declarationLooks E visit kind bindings s
  | .binding target value | .assignment _ target value => assignLooks E visit target value s
  | .call callee args isNew => callLooks E visit callee args isNew s
  | .conditional kind init test update each body otherwise =>
    conditionalLooks E path visit n.line kind init test update each body otherwise s
  | .switch _ clauses => switchLooks E visit clauses s
  | form => looksAll visit form.children s

/-! ### The looks of a judgement -/

/-- Parts that are as they are, whatever is below them. -/
def settled (consts : Consts) (form : Form) : Bool :=
  (constant? consts form).isSome ||
    match form with
    | .name _ | .thisRef => true
    | _ => false

def partLooks (consts : Consts) (form : Form) : List Look :=
  if settled consts form then [] else form.children.map (⟨·, .part consts⟩)

/-- The operands of the logical operators are conditions again, and so is the last
expression of a sequence. -/
def testLooks (consts : Consts) (form : Form) : List Look :=
  if (constant? consts form).isSome then [] else
  match form with
  | .operation "!" [a] => [⟨a, .test consts⟩]
  | .operation "&&" [a, b] | .operation "||" [a, b] | .operation "??" [a, b] =>
    [⟨a, .test consts⟩, ⟨b, .test consts⟩]
  | .other "sequence" (first :: rest) => [⟨rest.getLastD first, .test consts⟩]
  | form => form.children.map (⟨·, .part consts⟩)

/-! ### Coming back -/

/-- The looks that looking at a node leads to; `path` ends in it. -/
def looks (E : Setting) (path : List NodeId) (n : Node) : Mode → List Look
  | .visit s => visitLooks E path (walk E path) n s
  | .test consts => testLooks consts n.form
  | .part consts => partLooks consts n.form

/-- A node of the path is noticed, but for what is settled as a part of a condition. -/
def Mode.Notices (n : Node) : Mode → Prop
  | .part consts => settled consts n.form = false
  | _ => True

/-- The looks return to a node of the path, or to one that they have come through. -/
inductive Returns (E : Setting) : List NodeId → Look → Prop
  | onPath {path : List NodeId} {id : NodeId} {n : Node} {mode : Mode}
    (hn : E.graph.node? id = some n) (hp : id ∈ path) (hmode : mode.Notices n) :
    Returns E path ⟨some id, mode⟩
  | deeper {path : List NodeId} {id : NodeId} {n : Node} {mode : Mode} {look : Look}
    (hn : E.graph.node? id = some n) (hp : id ∉ path) (hlook : look ∈ looks E (id :: path) n mode)
    (hreturns : Returns E (id :: path) look) : Returns E path ⟨some id, mode⟩

/-! ### Faults come of looks -/

/-- Between two states there is a new fault exactly if one of the looks is bad. -/
def FailsBy (bad : Look → Prop) (s : State) (looks : List Look) (t : State) : Prop :=
  t.fault.isSome ↔ s.fault.isSome ∨ ∃ look ∈ looks, bad look

namespace FailsBy

variable {bad : Look → Prop} {s t u : State} {ls ls' : List Look}

theorem quiet (h : t.fault = s.fault) : FailsBy bad s [] t := by
  unfold FailsBy
  simp [h]

theorem append (h : FailsBy bad s ls t) (k : FailsBy bad t ls' u) :
    FailsBy bad s (ls ++ ls') u := by
  unfold FailsBy at *
  simp only [k, h, List.mem_append, or_and_right, exists_or, or_assoc]

theorem before (hs : t.fault = s.fault) (h : FailsBy bad t ls u) : FailsBy bad s ls u := by
  unfold FailsBy at *
  rw [← hs]
  exact h

theorem after (h : FailsBy bad s ls t) (hu : u.fault = t.fault) : FailsBy bad s ls u := by
  unfold FailsBy at *
  rw [hu]
  exact h

theorem spared {look : Look} (h : t.fault = s.fault) (hlook : ¬ bad look) :
    FailsBy bad s [look] t := by
  unfold FailsBy
  simp [h, hlook]

theorem raised {look : Look} (h : t.fault.isSome) (hlook : bad look) : FailsBy bad s [look] t := by
  unfold FailsBy
  simp [h, hlook]

/-- A loop fails by the looks of its rounds. -/
theorem foldl {α : Type} {round : State → α → State} {looks : State → α → List Look}
    (h : ∀ s x, FailsBy bad s (looks s x) (round s x)) (xs : List α) (s : State) :
    FailsBy bad s (gather round looks xs s) (xs.foldl round s) := by
  induction xs generalizing s with
  | nil => exact quiet rfl
  | cons x rest ih => exact (h s x).append (ih (round s x))

theorem branch {inner outer : Reachable} {f : State → State}
    (h : FailsBy bad (s.enter inner) ls (f (s.enter inner))) :
    FailsBy bad s (if inner = .never then [] else ls) (Walk.branch inner outer f s) := by
  unfold Walk.branch
  by_cases hnever : inner = .never
  · simp only [if_pos hnever]
    exact quiet rfl
  · simp only [if_neg hnever]
    exact h

end FailsBy

section
variable {E : Setting} {bad : Look → Prop} {visit : Visit}
  (hv : ∀ c s, FailsBy bad s [⟨c, .visit s⟩] (visit c s))
include hv

omit hv in
/-- A round for each node of a pattern that is a name is a round for each name. -/
theorem foldl_received {value : Option NodeId} {round : State → NodeId → State}
    (hround : ∀ s n, round s n = (E.graph.name? (some n)).elim s fun x =>
      (s.bind E.declared x.1 x.2).route (some x.1) (visit value))
    (names : List NodeId) (s : State) :
    names.foldl round s = (names.filterMap fun n => E.graph.name? (some n)).foldl
      (fun s x => (s.bind E.declared x.1 x.2).route (some x.1) (visit value)) s := by
  rw [List.foldl_filterMap]
  congr 1
  funext s n
  rw [hround]
  cases E.graph.name? (some n) <;> rfl

theorem visitAll_failsBy (cs : List (Option NodeId)) (s : State) :
    FailsBy bad s (looksAll visit cs s) (visitAll visit cs s) :=
  FailsBy.foldl (fun s c => hv c s) cs s

theorem receive_failsBy (value : Option NodeId) (s : State) (x : String × Int) :
    FailsBy bad s [⟨value, .visit (receiving E s x)⟩]
      ((s.bind E.declared x.1 x.2).route (some x.1) (visit value)) := by
  have hbind : (receiving E s x).fault = s.fault :=
    (sameBeside_lookup { s with consts := s.consts.forget x.1 } E.declared x.1 x.2).fault
  exact (hv value (receiving E s x)).before hbind

theorem assign_failsBy (target value : Option NodeId) (s : State) :
    FailsBy bad s (assignLooks E visit target value s) (assign E visit target value s).2 := by
  have hboth : FailsBy bad s [⟨target, .visit s⟩, ⟨value, .visit (visit target s)⟩]
      (visit value (visit target s)) := (hv target s).append (hv value _)
  have hroute : ∀ c s, FailsBy bad s [⟨c, .visit { s with defining := none }⟩]
      (s.route none (visit c)) := fun c s => hv c { s with defining := none }
  unfold assign assignLooks
  rcases E.graph.at? target with _ | ⟨line, form⟩
  · exact hboth
  cases form with
  | name ident => exact receive_failsBy hv value s (ident, line)
  | pattern names defaults =>
    have hstart : FailsBy bad s
        (if names = [] then [⟨value, .visit { s with defining := none }⟩] else [])
        (if names = [] then s.route none (visit value) else s) := by
      split
      · exact hroute value s
      · exact .quiet rfl
    have hreceived := FailsBy.foldl (receive_failsBy (E := E) hv value)
      (names.filterMap fun n => E.graph.name? (some n))
      (if names = [] then s.route none (visit value) else s)
    have hdefaults := FailsBy.foldl (fun s d => hroute d s) defaults
      ((names.filterMap fun n => E.graph.name? (some n)).foldl
        (fun s x => (s.bind E.declared x.1 x.2).route (some x.1) (visit value))
        (if names = [] then s.route none (visit value) else s))
    refine ((hstart.append hreceived).append hdefaults).after ?_
    simp only
    rw [foldl_received]
    intro s n
    cases E.graph.name? (some n) <;> rfl
  | member object property propName computed =>
    rcases E.graph.root? target with _ | ⟨ident, rootLine⟩
    · exact hboth
    have hlookup : (s.lookup E.declared ident rootLine).fault = s.fault :=
      (sameBeside_lookup s E.declared ident rootLine).fault
    have hproperty : FailsBy bad s
        (if computed then
          [⟨property, .visit { s.lookup E.declared ident rootLine with defining := none }⟩] else [])
        (if computed then (s.lookup E.declared ident rootLine).route none (visit property)
          else s.lookup E.declared ident rootLine) := by
      split
      · exact (hroute property _).before hlookup
      · exact .quiet hlookup
    simp only
    rcases E.graph.name? value with _ | ⟨on, onLine⟩
    · exact hproperty.append (hv value _)
    · exact hproperty.append (.quiet (sameBeside_lookup _ E.declared on onLine).fault)
  | _ => exact hboth

theorem declaration_failsBy (kind : DeclKind) (bindings : List NodeId) (s : State) :
    FailsBy bad s (declarationLooks E visit kind bindings s)
      (declaration E visit kind bindings s) := by
  refine FailsBy.foldl (fun s b => (hv (some b) s).after ?_) bindings s
  split
  · obtain ⟨_, hrecord⟩ := recordConst_eq E.graph b (visit (some b) s)
    rw [hrecord]
  · rfl

omit hv in
theorem fault_methodCall (callee : Option NodeId) (args : List (Option NodeId)) (s : State) :
    (methodCall E callee args s).fault = s.fault := by
  unfold methodCall
  split
  · rename_i ident line _ _
    refine List.foldlRecOn args _ (motive := fun t : State => t.fault = s.fault)
      (sameBeside_lookup s E.declared ident line).fault fun t ht a _ => ?_
    split
    · exact (sameBeside_lookup t E.declared _ _).fault.trans ht
    · exact ht
  · rfl

omit hv in
theorem fault_dependDefining (x : String) (s : State) : (s.dependDefining x).fault = s.fault := by
  unfold State.dependDefining
  cases s.defining <;> rfl

theorem call_failsBy (line : Int) (callee : Option NodeId) (args : List (Option NodeId))
    (isNew : Bool) (s : State) :
    FailsBy bad s (callLooks E visit callee args isNew s)
      (call E visit line callee args isNew s) := by
  unfold call callLooks
  rcases (if isNew then none else E.graph.name? callee) with _ | ⟨ident, _⟩
  · have hcallee := (hv callee (methodCall E callee args s)).before
      (fault_methodCall callee args s)
    exact hcallee.append (visitAll_failsBy hv args _)
  simp only
  by_cases hsource : ident = E.endpoints.source
  · rw [if_pos hsource, if_pos (Or.inl hsource)]
    split
    · exact .quiet (sameBeside_markSource s line).fault
    · exact .quiet rfl
  by_cases hsink : ident = E.endpoints.sink
  · rw [if_neg hsource, if_pos hsink, if_pos (Or.inr hsink)]
    split
    · split
      · rename_i y yLine _
        exact .quiet ((sameBeside_sink _ y line).fault.trans
          (sameBeside_lookup s E.declared y yLine).fault)
      · exact .quiet rfl
    · exact .quiet rfl
  · rw [if_neg hsource, if_neg hsink, if_neg (not_or.mpr ⟨hsource, hsink⟩)]
    exact visitAll_failsBy hv args s

theorem conditional_failsBy {path : List NodeId}
    (htest : ∀ consts c, (classify E.graph consts path c).loopLine.isSome ↔ bad ⟨c, .test consts⟩)
    (line : Int) (kind : CondKind) (init test update each body otherwise : Option NodeId)
    (s : State) :
    FailsBy bad s (conditionalLooks E path visit line kind init test update each body otherwise s)
      (conditional E path visit line kind init test update each body otherwise s) := by
  have hopened : FailsBy bad s (if kind = .forLoop then [⟨init, .visit s⟩] else [])
      (opened visit kind init s) := by
    unfold opened
    split
    · exact hv init s
    · exact .quiet rfl
  have hguard : ∀ t : State, FailsBy bad t
      (if kind = .forIn ∨ kind = .forOf then [] else [⟨test, .test t.consts⟩])
      (guarded line kind (guardOf E path kind test t) t) := by
    intro t
    unfold guarded guardOf
    split
    · exact .quiet rfl
    · have hlook := htest t.consts test
      cases hloop : (classify E.graph t.consts path test).loopLine with
      | none =>
        rw [hloop] at hlook
        exact .spared rfl fun hbad => by cases hlook.mpr hbad
      | some line =>
        rw [hloop] at hlook
        exact .raised rfl (hlook.mp rfl)
  have hbody : FailsBy bad s _ (afterBody E path visit line kind init test update each body s) :=
    (hopened.append (hguard _)).append
      (.branch (f := fun s => visit update (visit body (visit each s)))
        (visitAll_failsBy hv [each, body, update] _))
  refine hbody.append ?_
  cases otherwise with
  | none => exact .quiet rfl
  | some c =>
    simp only [Option.isNone_some, Bool.false_eq_true, false_or]
    exact .branch (hv (some c) _)

omit hv in
/-- A switch runs what its clauses run. -/
theorem switch_eq (clauses : List NodeId) (s : State) :
    switch E visit clauses s =
      (clauses.foldl (fun s c => visitAll visit (clauseBody E.graph c) s)
        (s.enter (s.ambient.meet .maybe))).enter s.ambient := by
  unfold switch
  refine congrArg (fun round : State → NodeId → State => (clauses.foldl round _).enter s.ambient)
    (funext fun s => funext fun c => ?_)
  unfold clauseBody
  rcases E.graph.node? c with _ | ⟨line, form⟩
  · rfl
  · cases form <;> rfl

theorem switch_failsBy (clauses : List NodeId) (s : State) :
    FailsBy bad s (switchLooks E visit clauses s) (switch E visit clauses s) := by
  rw [switch_eq]
  exact FailsBy.before (t := s.enter (s.ambient.meet .maybe)) rfl
    ((FailsBy.foldl (fun s c => visitAll_failsBy hv (clauseBody E.graph c) s) clauses _).after rfl)

/-- A rule fails by its looks. -/
theorem visitNode_failsBy {path : List NodeId}
    (htest : ∀ consts c, (classify E.graph consts path c).loopLine.isSome ↔ bad ⟨c, .test consts⟩)
    (n : Node) (s : State) :
    FailsBy bad s (visitLooks E path visit n s) (visitNode E path visit n s) := by
  obtain ⟨line, form⟩ := n
  unfold visitNode visitLooks
  cases form with
  | function _ _ _ _ => exact .quiet rfl
  | declaration kind bindings => exact declaration_failsBy hv kind bindings s
  | binding target init => exact assign_failsBy hv target init s
  | assignment _ target value =>
    refine (assign_failsBy hv target value s).after ?_
    simp only
    split
    · rename_i v t heq
      rw [heq]
      exact fault_dependDefining v t
    · rename_i t heq
      rw [heq]
  | name ident =>
    refine .quiet ?_
    simp only
    split
    · rfl
    · exact (fault_dependDefining ident _).trans (sameBeside_lookup s E.declared ident line).fault
  | call callee args isNew => exact call_failsBy hv line callee args isNew s
  | conditional kind init test update each body otherwise =>
    exact conditional_failsBy hv htest line kind init test update each body otherwise s
  | switch _ clauses => exact switch_failsBy hv clauses s
  | _ => exact visitAll_failsBy hv _ s

end

/-! ### Loops that the classifier tells of -/

section
variable {E : Setting} {consts : Consts}

theorem Classified.loopLine_combine_iff {f : Reachable → Reachable → Reachable} {a b : Classified} :
    (a.combine f b).loopLine.isSome ↔ a.loopLine.isSome ∨ b.loopLine.isSome := by
  unfold combine
  cases a.loopLine <;> cases b.loopLine <;> simp

theorem meet_eq_never {a b : Reachable} (h : a.meet b = .never) : a = .never ∨ b = .never := by
  unfold Reachable.meet at h
  split at h
  · exact Or.inl h
  · exact Or.inr h

/-- The class is `never` only where a loop is told of. -/
def Classified.Sober (a : Classified) : Prop := a.reach = .never → a.loopLine.isSome

theorem Classified.sober_always : Classified.Sober ⟨.always, none⟩ :=
  fun hnever => absurd hnever (by decide)

theorem Classified.Sober.combine {a b : Classified} (ha : a.Sober) (hb : b.Sober) :
    (a.combine .meet b).Sober := fun hnever =>
  loopLine_combine_iff.mpr ((meet_eq_never hnever).imp ha hb)

section
variable {part : Option NodeId → Classified} (hpart : ∀ c, (part c).Sober)
include hpart

theorem foldParts_sober (children : List (Option NodeId)) {acc : Classified} (hacc : acc.Sober) :
    (foldParts part acc children).Sober := by
  induction children generalizing acc with
  | nil => exact hacc
  | cons c rest ih =>
    have hmet := hacc.combine (hpart c)
    unfold foldParts
    simp only
    split
    · exact hmet
    · exact ih hmet

/-- Parts are met up to the first that is `never`, where a loop is told of already. -/
theorem foldParts_loopLine_iff (children : List (Option NodeId)) {acc : Classified}
    (hacc : acc.Sober) : (foldParts part acc children).loopLine.isSome ↔
      acc.loopLine.isSome ∨ ∃ c ∈ children, (part c).loopLine.isSome := by
  induction children generalizing acc with
  | nil => simp [foldParts]
  | cons c rest ih =>
    have hmet := hacc.combine (hpart c)
    simp only [List.mem_cons, exists_eq_or_imp, ← or_assoc]
    rw [← Classified.loopLine_combine_iff (f := .meet)]
    unfold foldParts
    simp only
    split
    · rename_i hnever
      exact ⟨Or.inl, fun _ => hmet hnever⟩
    · exact ih hmet

end

theorem not_returns_of_at? {path : List NodeId} {c : Option NodeId} {mode : Mode}
    (hc : E.graph.at? c = none) : ¬ Returns E path ⟨c, mode⟩ := by
  intro h
  cases h with
  | onPath hn _ _ => exact absurd (hn.symm.trans hc) (by simp)
  | deeper hn _ _ _ => exact absurd (hn.symm.trans hc) (by simp)

theorem returns_of_mem {path : List NodeId} {id : NodeId} {n : Node} {mode : Mode}
    (hn : E.graph.node? id = some n) (hp : id ∈ path) :
    Returns E path ⟨some id, mode⟩ ↔ mode.Notices n := by
  constructor
  · intro h
    cases h with
    | onPath hm _ hmode => exact Option.some.inj (hm.symm.trans hn) ▸ hmode
    | deeper _ hfresh _ _ => exact absurd hp hfresh
  · exact .onPath hn hp

theorem returns_of_fresh {path : List NodeId} {id : NodeId} {n : Node} {mode : Mode}
    (hn : E.graph.node? id = some n) (hp : id ∉ path) :
    Returns E path ⟨some id, mode⟩ ↔
      ∃ look ∈ looks E (id :: path) n mode, Returns E (id :: path) look := by
  constructor
  · intro h
    cases h with
    | onPath _ hmem _ => exact absurd hmem hp
    | deeper hm _ hlook hreturns =>
      exact ⟨_, Option.some.inj (hm.symm.trans hn) ▸ hlook, hreturns⟩
  · rintro ⟨look, hlook, hreturns⟩
    exact .deeper hn hp hlook hreturns

theorem returns_of_test {path : List NodeId} {id : NodeId} {n : Node} {ls : List Look}
    (hn : E.graph.node? id = some n) (hp : id ∉ path) (hlooks : testLooks consts n.form = ls) :
    Returns E path ⟨some id, .test consts⟩ ↔ ∃ look ∈ ls, Returns E (id :: path) look := by
  rw [returns_of_fresh hn hp, ← hlooks]
  rfl

theorem not_returns_of_settled {path : List NodeId} {id : NodeId} {n : Node}
    (hn : E.graph.node? id = some n) (hsettled : settled consts n.form = true) :
    ¬ Returns E path ⟨some id, .part consts⟩ := by
  by_cases hp : id ∈ path
  · rw [returns_of_mem hn hp]
    unfold Mode.Notices
    simp [hsettled]
  · rw [returns_of_fresh hn hp]
    unfold looks partLooks
    simp [hsettled]

theorem settled_eq_false {form : Form} (hconst : ¬ (constant? consts form).isSome)
    (hname : ∀ x, form = .name x → False) (hthis : form = .thisRef → False) :
    settled consts form = false := by
  unfold settled
  rw [Bool.eq_false_iff.mpr hconst]
  split
  · exact (hname _ rfl).elim
  · exact (hthis rfl).elim
  · rfl

theorem operand_sober (g : Graph) (consts : Consts) (path : List NodeId) (c : Option NodeId) :
    (operand g consts path c).Sober := by
  fun_induction operand g consts path c with
  | case6 path id n hn _ hp _ _ => exact fun _ => rfl
  | case7 path id n hn _ _ _ _ ih => exact foldParts_sober ih _ Classified.sober_always
  | _ => exact fun hnever => absurd hnever (by decide)

/-- The parts of a node tell of a loop if those of its sub-nodes do. -/
theorem foldParts_operand_iff {path : List NodeId} {children : List (Option NodeId)} :
    (foldParts (operand E.graph consts path) ⟨.always, none⟩ children).loopLine.isSome ↔
      ∃ c ∈ children, (operand E.graph consts path c).loopLine.isSome := by
  rw [foldParts_loopLine_iff (operand_sober _ _ _) _ Classified.sober_always]
  simp

/-- A part of a condition tells of a loop exactly if its looks return. -/
theorem operand_returns (path : List NodeId) (c : Option NodeId) :
    (operand E.graph consts path c).loopLine.isSome ↔ Returns E path ⟨c, .part consts⟩ := by
  fun_induction operand E.graph consts path c with
  | case1 path => exact iff_of_false (by simp) (not_returns_of_at? rfl)
  | case2 path id hn => exact iff_of_false (by simp) (not_returns_of_at? hn)
  | case3 path id n hn hconst =>
    have hsettled : settled consts n.form = true := by simp [settled, hconst]
    exact iff_of_false (by simp) (not_returns_of_settled hn hsettled)
  | case4 path id n hn hconst x hform =>
    have hsettled : settled consts n.form = true := by simp [settled, hform]
    exact iff_of_false (by simp) (not_returns_of_settled hn hsettled)
  | case5 path id n hn hconst hform =>
    have hsettled : settled consts n.form = true := by simp [settled, hform]
    exact iff_of_false (by simp) (not_returns_of_settled hn hsettled)
  | case6 path id n hn hconst hp hname hthis =>
    exact iff_of_true rfl ((returns_of_mem hn hp).mpr (settled_eq_false hconst hname hthis))
  | case7 path id n hn hconst hp hname hthis ih =>
    have hopen := settled_eq_false hconst hname hthis
    have hlooks : looks E (id :: path) n (.part consts) =
        n.form.children.map (⟨·, .part consts⟩) := by
      show partLooks consts n.form = _
      rw [partLooks, hopen]
      rfl
    rw [returns_of_fresh hn hp, hlooks, foldParts_operand_iff]
    simp [ih]

/-- A condition tells of a loop exactly if its looks return. -/
theorem classify_returns (path : List NodeId) (c : Option NodeId) :
    (classify E.graph consts path c).loopLine.isSome ↔ Returns E path ⟨c, .test consts⟩ := by
  fun_induction classify E.graph consts path c with
  | case1 path => exact iff_of_false (by simp) (not_returns_of_at? rfl)
  | case2 path id hn => exact iff_of_false (by simp) (not_returns_of_at? hn)
  | case3 path id n hn hp => exact iff_of_true rfl (.onPath hn hp trivial)
  | case4 path id n hn hp truthy hconst =>
    have hlooks : testLooks consts n.form = [] := by simp [testLooks, hconst]
    rw [returns_of_test hn hp hlooks]
    simp
  | case5 path id n hn hp hconst x hform =>
    have hlooks : testLooks consts n.form = [] := by simp [testLooks, hform, Form.children]
    rw [returns_of_test hn hp hlooks]
    simp
  | case6 path id n hn hp hconst hform =>
    have hlooks : testLooks consts n.form = [] := by simp [testLooks, hform, Form.children]
    rw [returns_of_test hn hp hlooks]
    simp
  | case7 path id n hn hp hconst a hform ih =>
    have hlooks : testLooks consts n.form = [⟨a, .test consts⟩] := by
      rw [hform]
      rfl
    rw [returns_of_test hn hp hlooks]
    simpa [Classified.negate] using ih
  | case8 path id n hn hp hconst a b hform iha ihb
  | case9 path id n hn hp hconst a b hform iha ihb
  | case10 path id n hn hp hconst a b hform iha ihb =>
    have hlooks : testLooks consts n.form = [⟨a, .test consts⟩, ⟨b, .test consts⟩] := by
      rw [hform]
      rfl
    rw [returns_of_test hn hp hlooks, Classified.loopLine_combine_iff, iha, ihb]
    simp
  | case11 path id n hn hp hconst first rest hform ih =>
    have hlooks : testLooks consts n.form = [⟨rest.getLastD first, .test consts⟩] := by
      rw [hform]
      rfl
    rw [List.getLast_eq_getLastD] at ih ⊢
    rw [returns_of_test hn hp hlooks]
    simpa using ih
  | case12 path id n hn hp hconst =>
    have hlooks : testLooks consts n.form = n.form.children.map (⟨·, .part consts⟩) := by
      unfold testLooks
      rw [hconst]
      simp only [Option.isSome_none, Bool.false_eq_true, if_false]
    rw [returns_of_test hn hp hlooks, foldParts_operand_iff]
    simp [operand_returns]

/-- **A walk fails exactly if its looks return.** -/
theorem walk_failsBy (E : Setting) (path : List NodeId) (c : Option NodeId) (s : State) :
    FailsBy (Returns E path) s [⟨c, .visit s⟩] (walk E path c s) := by
  induction hroom : E.graph.room path using Nat.strongRecOn generalizing path c s with
  | _ room ih =>
    subst hroom
    by_cases hfault : s.fault.isSome
    · rw [walk_of_fault c hfault]
      exact iff_of_true hfault (Or.inl hfault)
    have hnone : s.fault = none := by simpa using hfault
    cases hc : E.graph.at? c with
    | none =>
      refine .spared ?_ (not_returns_of_at? hc)
      cases c with
      | none => rw [walk_none]
      | some id => rw [walk_missing hc]
    | some n =>
      obtain ⟨id, rfl, hn⟩ := Graph.node?_of_at? hc
      by_cases hp : id ∈ path
      · rw [walk_cyclic hnone hn hp]
        exact .raised rfl (.onPath hn hp trivial)
      · rw [walk_some hnone hn hp]
        have hvisit : ∀ c s, FailsBy (Returns E (id :: path)) s [⟨c, .visit s⟩]
            (walk E (id :: path) c s) := fun c s =>
          ih _ (E.graph.room_cons_lt hn hp) (id :: path) c s rfl
        have hvisits := visitNode_failsBy hvisit (fun _ => classify_returns (id :: path)) n s
        unfold FailsBy at hvisits ⊢
        rw [hvisits]
        simp only [List.mem_singleton, exists_eq_left, returns_of_fresh hn hp]
        rfl

end

/-! ### The looks of a function -/

/-- The state in which the analysis of a function starts. -/
def opening (name : String) (line : Int) : State :=
  { scope := { name := idText name line } : State }.tell (.opened (idText name line))

/-- The looks at the parameters and the statements of a function. -/
def functionLooks (E : Setting) (fn : NodeId) (name : String) (line : Int)
    (params body : List (Option NodeId)) : List Look :=
  looksAll (walk E [fn]) (params ++ body) (opening name line)

theorem visitAll_append (visit : Visit) (cs cs' : List (Option NodeId)) (s : State) :
    visitAll visit (cs ++ cs') s = visitAll visit cs' (visitAll visit cs s) :=
  List.foldl_append

theorem analyzeFunction_result {E : Setting} {fn : NodeId} {line : Int} {name : String}
    {params body : List (Option NodeId)} {locals : List String}
    (hfn : E.graph.node? fn = some ⟨line, .function name params body locals⟩) :
    (analyzeFunction E (some fn)).result =
      (visitAll (walk E [fn]) body (visitAll (walk E [fn]) params (opening name line))).fault.elim
        (.ok (visitAll (walk E [fn]) body
          (visitAll (walk E [fn]) params (opening name line))).scope) .error := by
  have hat : E.graph.at? (some fn) = some ⟨line, .function name params body locals⟩ := hfn
  unfold analyzeFunction opening
  simp only [hat]
  split
  · rename_i f hf
    rw [hf]
    rfl
  · rename_i hf
    rw [hf]
    rfl

end TaintReach.Walk
