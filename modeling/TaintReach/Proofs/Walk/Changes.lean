import TaintReach.Proofs.Scope.Indexed
import TaintReach.Proofs.Walk.Look

/-! The changes that a walk makes to its scope.

`walkChanges` lists, rule by rule and in the order in which a walk comes to them, the
changes that it makes: each name it asks for, each dependency, mark and stamp. Carried out
on the scope that the walk starts from, one after the other, they give the scope that it
ends with (`walk_replays`), and nothing else of the walk touches it. -/
namespace TaintReach.Walk

open Indexed (Change)

/-! ### The changes of the operations -/

/-- A name is asked for, and marked if that has registered it. -/
def lookupChanges (declared : Option (String → Bool)) (ident : String) (line : Int) (s : State) :
    List Change :=
  .register ident line ::
    if (s.scope.lookup? ident).isSome then []
    else [.mark ident fun m =>
      { m with reachable := s.ambient, escaped := declared.any fun declares => !declares ident }]

def dependDefiningChanges (on : String) (s : State) : List Change :=
  s.defining.toList.map (.depend · on)

def markSourceChanges (s : State) : List Change :=
  (s.defining.bind s.scope.lookup?).toList.map fun v => .mark v.name ({ · with source := true })

/-- A source is marked if that is a rise. -/
def promoteChanges (r : Reachable) (v : Variable) : List Change :=
  (if v.source then v.promote? r else none).toList.map fun v' =>
    .mark v.name ({ · with taint := v'.taint })

def sinkChanges (name : String) (line : Int) (s : State) : List Change :=
  match s.scope.lookup? name with
  | none => []
  | some v =>
    let r := v.reachable
    promoteChanges r v ++ gather (fun s d =>
        match s.scope.lookup? d.name with
        | some dv =>
          if dv.reachable = r then
            s.promote r dv fun dv => .sinkMetThrough line dv.id dv.taint v.id
          else s
        | none => s)
      (fun s d =>
        match s.scope.lookup? d.name with
        | some dv => if dv.reachable = r then promoteChanges r dv else []
        | none => [])
      v.dependents (s.promote r v fun v => .sinkMet line v.id v.taint)

/-! ### The changes of the rules -/

/-- The changes of a visit. -/
abbrev Trace := Option NodeId → State → List Change

def traceAll (visit : Visit) (trace : Trace) : List (Option NodeId) → State → List Change :=
  gather (fun s c => visit c s) fun s c => trace c s

/-- The changes with which a variable receives a value. -/
def receiveChanges (E : Setting) (trace : Trace) (value : Option NodeId) (s : State)
    (x : String × Int) : List Change :=
  lookupChanges E.declared x.1 x.2 s ++ trace value (receiving E s x)

def assignChanges (E : Setting) (visit : Visit) (trace : Trace) (target value : Option NodeId)
    (s : State) : List Change :=
  let receive (s : State) (x : String × Int) : State :=
    (s.bind E.declared x.1 x.2).route (some x.1) (visit value)
  match E.graph.at? target with
  | some ⟨line, .name ident⟩ => receiveChanges E trace value s (ident, line)
  | some ⟨_, .pattern names defaults⟩ =>
    let received := names.filterMap fun n => E.graph.name? (some n)
    let start := if names = [] then s.route none (visit value) else s
    (if names = [] then trace value { s with defining := none } else []) ++
      gather receive (receiveChanges E trace value) received start ++
      gather (fun s d => s.route none (visit d)) (fun s d => trace d { s with defining := none })
        defaults (received.foldl receive start)
  | some ⟨_, .member _ property _ computed⟩ =>
    match E.graph.root? target with
    | none => trace target s ++ trace value (visit target s)
    | some (ident, line) =>
      let start := s.lookup E.declared ident line
      let after := if computed then start.route none (visit property) else start
      lookupChanges E.declared ident line s ++
        (if computed then trace property { start with defining := none } else []) ++
        match E.graph.name? value with
        | some (on, onLine) => lookupChanges E.declared on onLine after ++ [.depend ident on]
        | none => trace value { after with defining := some ident }
  | _ => trace target s ++ trace value (visit target s)

def declarationChanges (E : Setting) (visit : Visit) (trace : Trace) (kind : DeclKind) :
    List NodeId → State → List Change :=
  gather (fun s b =>
      let s := visit (some b) s
      if kind = .const then recordConst E.graph b s else s)
    fun s b => trace (some b) s

def methodCallChanges (E : Setting) (callee : Option NodeId) (args : List (Option NodeId))
    (s : State) : List Change :=
  match E.graph.isMember callee, E.graph.root? callee with
  | true, some (ident, line) =>
    lookupChanges E.declared ident line s ++ gather (fun s a =>
        match E.graph.name? a with
        | some (on, onLine) => (s.lookup E.declared on onLine).depend ident on
        | none => s)
      (fun s a =>
        match E.graph.name? a with
        | some (on, onLine) => lookupChanges E.declared on onLine s ++ [.depend ident on]
        | none => [])
      args (s.lookup E.declared ident line)
  | _, _ => []

def callChanges (E : Setting) (visit : Visit) (trace : Trace) (line : Int) (callee : Option NodeId)
    (args : List (Option NodeId)) (isNew : Bool) (s : State) : List Change :=
  match (if isNew then none else E.graph.name? callee) with
  | some (ident, _) =>
    if ident = E.endpoints.source then
      if args = [] then markSourceChanges s else []
    else if ident = E.endpoints.sink then
      match args with
      | [arg] =>
        match E.graph.name? arg with
        | some (y, yLine) =>
          lookupChanges E.declared y yLine s ++ sinkChanges y line (s.lookup E.declared y yLine)
        | none => []
      | _ => []
    else traceAll visit trace args s
  | none =>
    let start := methodCall E callee args s
    methodCallChanges E callee args s ++ trace callee start ++
      traceAll visit trace args (visit callee start)

/-- Going into a branch and coming out of it stamps every variable. -/
def branchChanges (inner outer : Reachable) (changes : List Change) : List Change :=
  .stamp inner :: (if inner = .never then [] else changes) ++ [.stamp outer]

def conditionalChanges (E : Setting) (path : List NodeId) (visit : Visit) (trace : Trace)
    (line : Int) (kind : CondKind) (init test update each body otherwise : Option NodeId)
    (s : State) : List Change :=
  let start := opened visit kind init s
  let guard := guardOf E path kind test start
  let inner := start.ambient.meet guard.reach
  let other := start.ambient.meet guard.reach.negate
  let within := (guarded line kind guard start).enter inner
  let after := afterBody E path visit line kind init test update each body s
  (if kind = .forLoop then trace init s else []) ++
    branchChanges inner start.ambient (traceAll visit trace [each, body, update] within) ++
    if otherwise.isNone then []
    else branchChanges other start.ambient (trace otherwise (after.enter other))

def switchChanges (E : Setting) (visit : Visit) (trace : Trace) (clauses : List NodeId)
    (s : State) : List Change :=
  .stamp (s.ambient.meet .maybe) ::
    gather (fun s c => visitAll visit (clauseBody E.graph c) s)
      (fun s c => traceAll visit trace (clauseBody E.graph c) s) clauses
      (s.enter (s.ambient.meet .maybe)) ++ [.stamp s.ambient]

/-- The changes that the rule for one node makes; `path` ends in it. -/
def nodeChanges (E : Setting) (path : List NodeId) (visit : Visit) (trace : Trace) (n : Node)
    (s : State) : List Change :=
  match n.form with
  | .function .. => []
  | .declaration kind bindings => declarationChanges E visit trace kind bindings s
  | .binding target value => assignChanges E visit trace target value s
  | .assignment _ target value =>
    assignChanges E visit trace target value s ++
      match assign E visit target value s with
      | (some v, s) => dependDefiningChanges v s
      | (none, _) => []
  | .name ident =>
    if s.defining.isNone then []
    else
      lookupChanges E.declared ident n.line s ++
        dependDefiningChanges ident (s.lookup E.declared ident n.line)
  | .call callee args isNew => callChanges E visit trace n.line callee args isNew s
  | .conditional kind init test update each body otherwise =>
    conditionalChanges E path visit trace n.line kind init test update each body otherwise s
  | .switch _ clauses => switchChanges E visit trace clauses s
  | form => traceAll visit trace form.children s

/-- The changes of a walk, in order. -/
def walkChanges (E : Setting) (path : List NodeId) (child : Option NodeId) (s : State) :
    List Change :=
  match child with
  | none => []
  | some id =>
    if s.fault.isSome then [] else
    match _found : E.graph.node? id with
    | none => []
    | some n =>
      if _fresh : id ∈ path then []
      else
        nodeChanges E (id :: path) (walk E (id :: path))
          (fun c s => walkChanges E (id :: path) c s) n s
termination_by E.graph.room path
decreasing_by exact E.graph.room_cons_lt _found _fresh

/-- The changes that the analysis of a function makes to the scope it opens. -/
def functionChanges (E : Setting) (fn : Option NodeId) : List Change :=
  match fn, E.graph.at? fn with
  | some id, some ⟨line, .function name params body _⟩ =>
    traceAll (walk E [id]) (walkChanges E [id]) (params ++ body) (opening name line)
  | _, _ => []

/-! ### Changes that are carried out -/

/-- The changes, carried out on the scope of the first state, give that of the second. -/
def Replays (s : State) (changes : List Change) (t : State) : Prop :=
  s.scope.WellFormed → changes.foldl Change.plain s.scope = t.scope

namespace Replays

variable {s t u : State} {cs ds : List Change}

/-- What does not touch the scope makes no changes. -/
theorem quiet (h : t.scope = s.scope) : Replays s [] t := fun _ => h.symm

theorem wellFormed (h : Replays s cs t) (hs : s.scope.WellFormed) : t.scope.WellFormed := by
  rw [← h hs]
  exact Indexed.wellFormed_run hs cs

/-- What the second stretch starts from is well formed, as the first keeps that. -/
theorem append (h : Replays s cs t) (k : Replays t ds u) : Replays s (cs ++ ds) u := by
  intro hs
  rw [List.foldl_append, h hs]
  exact k (h.wellFormed hs)

theorem before (hs : t.scope = s.scope) (h : Replays t cs u) : Replays s cs u := by
  unfold Replays at *
  rw [← hs]
  exact h

theorem after (h : Replays s cs t) (hu : u.scope = t.scope) : Replays s cs u := fun hs =>
  (h hs).trans hu.symm

/-- A loop makes the changes of its rounds, each in the state that the rounds before it leave. -/
theorem foldl {α : Type} {round : State → α → State} {changes : State → α → List Change}
    (h : ∀ s x, Replays s (changes s x) (round s x)) (xs : List α) (s : State) :
    Replays s (gather round changes xs s) (xs.foldl round s) := by
  induction xs generalizing s with
  | nil => exact quiet rfl
  | cons x xs ih => exact (h s x).append (ih (round s x))

/-- The stamps stand around the changes, and are made even if nothing runs between them. -/
theorem branch {inner outer : Reachable} {f : State → State}
    (h : Replays (s.enter inner) cs (f (s.enter inner))) :
    Replays s (branchChanges inner outer cs) (Walk.branch inner outer f s) := by
  have hin : Replays s [.stamp inner] (s.enter inner) := fun _ => rfl
  have hout : ∀ t : State, Replays t [.stamp outer] (t.enter outer) := fun _ _ => rfl
  unfold branchChanges Walk.branch
  by_cases hnever : inner = .never
  · simp only [if_pos hnever]
    exact hin.append (hout _)
  · simp only [if_neg hnever]
    exact (hin.append h).append (hout _)

end Replays

/-! ### The operations -/

/-- Asking for a name that is known registers nothing and marks nothing. -/
theorem lookup_replays (declared : Option (String → Bool)) (ident : String) (line : Int)
    (s : State) :
    Replays s (lookupChanges declared ident line s) (s.lookup declared ident line) := by
  intro _
  unfold lookupChanges State.lookup
  cases hx : s.scope.lookup? ident with
  | some v => simp [Change.plain, Scope.findOrCreate, hx]
  | none =>
    -- The mark reaches the new variable alone, as no other has its name.
    have hother : ∀ v ∈ s.scope.vars, v.name ≠ ident := by
      simpa [Scope.lookup?] using hx
    simp only [Option.isSome_none, Bool.false_eq_true, if_false, List.foldl_cons, List.foldl_nil,
      Change.plain, Scope.findOrCreate, hx, Scope.add, Scope.update, List.map_append, List.map_cons,
      List.map_nil]
    rw [List.map_congr_left fun v hv => if_neg (hother v hv), List.map_id']
    rfl

theorem depend_replays (name on : String) (s : State) :
    Replays s [.depend name on] (s.depend name on) := fun _ => rfl

theorem dependDefining_replays (on : String) (s : State) :
    Replays s (dependDefiningChanges on s) (s.dependDefining on) := by
  unfold dependDefiningChanges State.dependDefining
  cases s.defining with
  | none => exact .quiet rfl
  | some name => exact depend_replays name on s

theorem markSource_replays (line : Int) (s : State) :
    Replays s (markSourceChanges s) (s.markSource line) := by
  unfold markSourceChanges State.markSource
  cases s.defining.bind s.scope.lookup? with
  | none => exact .quiet rfl
  | some v => exact fun _ => rfl

/-- Raising a variable marks it. -/
theorem promote_replays {x : String} {v : Variable} {s : State} (hv : s.scope.lookup? x = some v)
    (r : Reachable) (e : Variable → Event) :
    Replays s (promoteChanges r v) (s.promote r v e) := by
  intro h
  unfold promoteChanges State.promote
  cases hrise : (if v.source then v.promote? r else none) with
  | none => rfl
  | some v' =>
    have hraised : v' = { v with taint := v'.taint } := by
      unfold Variable.promote? at hrise
      split at hrise
      · split at hrise
        · obtain rfl := Option.some.inj hrise
          rfl
        · cases hrise
      · cases hrise
    simp only [Option.toList_some, List.map_cons, List.map_nil, List.foldl_cons, List.foldl_nil,
      Change.plain, Scope.update, State.tell]
    congr 1
    refine List.map_congr_left fun w hw => ?_
    split
    · rename_i hname
      rw [h.eq_of_name hw (Scope.mem_of_lookup? hv) hname]
      exact hraised.symm
    · rfl

/-- A sink raises the variable that it meets and then its dependents, one by one. -/
theorem sink_replays (name : String) (line : Int) (s : State) :
    Replays s (sinkChanges name line s) (s.sink name line) := by
  unfold sinkChanges State.sink
  cases hv : s.scope.lookup? name with
  | none => exact .quiet rfl
  | some v =>
    refine (promote_replays hv _ _).append (.foldl (fun s d => ?_) v.dependents _)
    cases hd : s.scope.lookup? d.name with
    | none => exact .quiet rfl
    | some dv =>
      simp only
      split
      · exact promote_replays hd _ _
      · exact .quiet rfl

/-! ### The rules -/

section
variable {E : Setting} {visit : Visit} {trace : Trace}
  (hv : ∀ c s, Replays s (trace c s) (visit c s))
include hv

theorem visitAll_replays (cs : List (Option NodeId)) (s : State) :
    Replays s (traceAll visit trace cs s) (visitAll visit cs s) :=
  .foldl (fun s c => hv c s) cs s

theorem receive_replays (value : Option NodeId) (s : State) (x : String × Int) :
    Replays s (receiveChanges E trace value s x)
      ((s.bind E.declared x.1 x.2).route (some x.1) (visit value)) := by
  have hbind : Replays s (lookupChanges E.declared x.1 x.2 s) (s.bind E.declared x.1 x.2) :=
    lookup_replays E.declared x.1 x.2 { s with consts := s.consts.forget x.1 }
  exact hbind.append (hv value (receiving E s x))

/-- How a target is treated decides which changes are listed, in the same case split. -/
theorem assign_replays (target value : Option NodeId) (s : State) :
    Replays s (assignChanges E visit trace target value s) (assign E visit target value s).2 := by
  have hboth : Replays s (trace target s ++ trace value (visit target s))
      (visit value (visit target s)) := (hv target s).append (hv value _)
  have hroute : ∀ x c s, Replays s (trace c { s with defining := x }) (s.route x (visit c)) :=
    fun x c s => hv c { s with defining := x }
  unfold assign assignChanges
  rcases E.graph.at? target with _ | ⟨line, form⟩
  · exact hboth
  cases form with
  | name ident => exact receive_replays hv value s (ident, line)
  | pattern names defaults =>
    have hstart : Replays s (if names = [] then trace value { s with defining := none } else [])
        (if names = [] then s.route none (visit value) else s) := by
      split
      · exact hroute none value s
      · exact .quiet rfl
    have hreceived := Replays.foldl (receive_replays (E := E) hv value)
      (names.filterMap fun n => E.graph.name? (some n))
      (if names = [] then s.route none (visit value) else s)
    have hdefaults := Replays.foldl (fun s d => hroute none d s) defaults
      ((names.filterMap fun n => E.graph.name? (some n)).foldl
        (fun s x => (s.bind E.declared x.1 x.2).route (some x.1) (visit value))
        (if names = [] then s.route none (visit value) else s))
    refine ((hstart.append hreceived).append hdefaults).after ?_
    simp only
    rw [foldl_received]
    intro s n
    cases E.graph.name? (some n) <;> rfl
  | member object property propName computed =>
    rcases E.graph.root? target with _ | ⟨ident, rootLine⟩
    · exact hboth
    have hproperty : Replays (s.lookup E.declared ident rootLine)
        (if computed then
          trace property { s.lookup E.declared ident rootLine with defining := none } else [])
        (if computed then (s.lookup E.declared ident rootLine).route none (visit property)
          else s.lookup E.declared ident rootLine) := by
      split
      · exact hroute none property _
      · exact .quiet rfl
    have hstart := (lookup_replays E.declared ident rootLine s).append hproperty
    simp only
    rcases E.graph.name? value with _ | ⟨on, onLine⟩
    · exact hstart.append (hroute (some ident) value _)
    · exact hstart.append
        ((lookup_replays E.declared on onLine _).append (depend_replays ident on _))
  | _ => exact hboth

theorem declaration_replays (kind : DeclKind) (bindings : List NodeId) (s : State) :
    Replays s (declarationChanges E visit trace kind bindings s)
      (declaration E visit kind bindings s) := by
  refine .foldl (fun s b => (hv (some b) s).after ?_) bindings s
  split
  · obtain ⟨_, hrecord⟩ := recordConst_eq E.graph b (visit (some b) s)
    rw [hrecord]
  · rfl

omit hv in
theorem methodCall_replays (callee : Option NodeId) (args : List (Option NodeId)) (s : State) :
    Replays s (methodCallChanges E callee args s) (methodCall E callee args s) := by
  unfold methodCallChanges methodCall
  rcases E.graph.isMember callee with _ | _
  · exact .quiet rfl
  rcases E.graph.root? callee with _ | ⟨ident, line⟩
  · exact .quiet rfl
  refine (lookup_replays E.declared ident line s).append (.foldl (fun s a => ?_) args _)
  rcases E.graph.name? a with _ | ⟨on, onLine⟩
  · exact .quiet rfl
  · exact (lookup_replays E.declared on onLine s).append (depend_replays ident on _)

theorem call_replays (line : Int) (callee : Option NodeId) (args : List (Option NodeId))
    (isNew : Bool) (s : State) : Replays s (callChanges E visit trace line callee args isNew s)
      (call E visit line callee args isNew s) := by
  unfold call callChanges
  rcases (if isNew then none else E.graph.name? callee) with _ | ⟨ident, _⟩
  · exact ((methodCall_replays callee args s).append (hv callee _)).append
      (visitAll_replays hv args _)
  simp only
  split
  · split
    · exact markSource_replays line s
    · exact .quiet rfl
  split
  · rcases args with _ | ⟨arg, _ | ⟨_, _⟩⟩
    · exact .quiet rfl
    · simp only
      rcases E.graph.name? arg with _ | ⟨y, yLine⟩
      · exact .quiet rfl
      · exact (lookup_replays E.declared y yLine s).append (sink_replays y line _)
    · exact .quiet rfl
  · exact visitAll_replays hv args s

/-- A fault that a condition raises does not touch the scope, so the branches are listed as
if there were none. -/
theorem conditional_replays (path : List NodeId) (line : Int) (kind : CondKind)
    (init test update each body otherwise : Option NodeId) (s : State) :
    Replays s
      (conditionalChanges E path visit trace line kind init test update each body otherwise s)
      (conditional E path visit line kind init test update each body otherwise s) := by
  have hopened : Replays s (if kind = .forLoop then trace init s else [])
      (opened visit kind init s) := by
    unfold opened
    split
    · exact hv init s
    · exact .quiet rfl
  have hguarded : ∀ (guard : Classified) (t : State),
      (guarded line kind guard t).scope = t.scope := by
    intro guard t
    unfold guarded
    cases guard.loopLine <;> rfl
  have hbody : Replays s _ (afterBody E path visit line kind init test update each body s) :=
    hopened.append (.before (hguarded _ _)
      (.branch (f := fun s => visit update (visit body (visit each s)))
        (visitAll_replays hv [each, body, update] _)))
  refine hbody.append ?_
  cases otherwise with
  | none => exact .quiet rfl
  | some c => exact .branch (hv (some c) _)

theorem switch_replays (clauses : List NodeId) (s : State) :
    Replays s (switchChanges E visit trace clauses s) (switch E visit clauses s) := by
  have hin : Replays s [.stamp (s.ambient.meet .maybe)] (s.enter (s.ambient.meet .maybe)) :=
    fun _ => rfl
  have hout : ∀ t : State, Replays t [.stamp s.ambient] (t.enter s.ambient) := fun _ _ => rfl
  rw [switch_eq]
  exact (hin.append (.foldl (fun s c => visitAll_replays hv (clauseBody E.graph c) s)
    clauses _)).append (hout _)

/-- One case for each rule of the walk, given that the visits below are replayed. -/
theorem visitNode_replays (path : List NodeId) (n : Node) (s : State) :
    Replays s (nodeChanges E path visit trace n s) (visitNode E path visit n s) := by
  obtain ⟨line, form⟩ := n
  unfold nodeChanges visitNode
  cases form with
  | function _ _ _ _ => exact .quiet rfl
  | declaration kind bindings => exact declaration_replays hv kind bindings s
  | binding target value => exact assign_replays hv target value s
  | assignment _ target value =>
    refine (assign_replays (E := E) hv target value s).append ?_
    simp only
    rcases assign E visit target value s with ⟨_ | v, t⟩
    · exact .quiet rfl
    · exact dependDefining_replays v t
  | name ident =>
    simp only
    split
    · exact .quiet rfl
    · exact (lookup_replays E.declared ident line s).append (dependDefining_replays ident _)
  | call callee args isNew => exact call_replays hv line callee args isNew s
  | conditional kind init test update each body otherwise =>
    exact conditional_replays hv path line kind init test update each body otherwise s
  | switch _ clauses => exact switch_replays hv clauses s
  | _ => exact visitAll_replays hv _ s

end

/-- **A walk changes its scope by its changes**, and by nothing else. -/
theorem walk_replays (E : Setting) (path : List NodeId) (c : Option NodeId) (s : State) :
    Replays s (walkChanges E path c s) (walk E path c s) := by
  fun_induction walkChanges E path c s with
  | case1 => exact .quiet (by rw [walk_none])
  | case2 path s id hfault => exact .quiet (by rw [walk_of_fault _ hfault])
  | case3 path s id hfault hn => exact .quiet (by rw [walk_missing hn])
  | case4 path s id hfault n hn hp =>
    exact .quiet (by rw [walk_cyclic (by simpa using hfault) hn hp]; rfl)
  | case5 path s id hfault n hn hp ih =>
    rw [walk_some (by simpa using hfault) hn hp]
    exact visitNode_replays ih (id :: path) n s

end TaintReach.Walk
