import TaintReach.Proofs.Walk.Statement
import TaintReach.Report

/-! Which names are folded.

A walk keeps one table of constants for the whole function. What stands in it, at any
place the walk comes to, a reader of the text has noted who goes from the top, takes
note of `var`, `let` and `const`, and does not mind where blocks end
(`Meets.noted`). So a name is folded only where a constant with a literal value is in
force, unless its block has ended or a function, a class or a declaration further
down hides it (`folded_name_in_force`). Then it may be folded against its scope
(`hidden_name_folded`). -/
namespace TaintReach.Walk

open Script (Stmt Expr Pattern Binding Function Frame Site)

variable {E : Setting} {g : Graph}

/-! ### The way of a walk -/

/-- The state in which the walk over a function comes to its body. -/
def bodyState (E : Setting) (fn : NodeId) (line : Int) (name : String)
    (params : List (Option NodeId)) : State :=
  visitAll (walk E [fn]) params
    ({ scope := { name := idText name line } : State }.tell (.opened (idText name line)))

/-- The walk over `f`, which stands at `fn`, comes to the statement at a place, on a path
and in a state. The nodes are that of the statement and those of the ones after it. -/
inductive Meets (E : Setting) (fn : NodeId) (f : Function) :
    Site → List NodeId → List (Option NodeId) → State → Prop
  | start {line : Int} {name : String} {params nodes : List (Option NodeId)} {locals : List String}
    {stmt : Stmt} {after : List Stmt}
    (hfn : E.graph.node? fn = some ⟨line, .function name params nodes locals⟩)
    (hbody : f.statements = stmt :: after) :
    Meets E fn f [{ names := f.names, current := stmt, after }] [fn] nodes
      (bodyState E fn line name params)
  | next {names : List String} {passed before after : List Stmt} {stmt next : Stmt} {outer : Site}
    {path : List NodeId} {node : Option NodeId} {nodes : List (Option NodeId)} {s : State}
    (h : Meets E fn f (⟨names, passed, before, stmt, next :: after⟩ :: outer) path
      (node :: nodes) s) :
    Meets E fn f (⟨names, passed, before ++ [stmt], next, after⟩ :: outer) path nodes
      (walk E path node s)
  | block {frame : Frame} {outer : Site} {path : List NodeId} {id : NodeId}
    {nodes inner : List (Option NodeId)} {s : State} {pos : Script.Pos} {stmt : Stmt}
    {after : List Stmt} {line : Int} {kind : String}
    (h : Meets E fn f (frame :: outer) path (some id :: nodes) s)
    (hstmt : frame.current = .block pos (stmt :: after))
    (hn : E.graph.node? id = some ⟨line, .other kind inner⟩) :
    Meets E fn f ({ current := stmt, after } :: frame :: outer) (id :: path) inner s
  | yes {frame : Frame} {outer : Site} {path : List NodeId} {id c : NodeId}
    {nodes : List (Option NodeId)} {s : State} {test : Expr} {yes : Stmt} {no : Option Stmt}
    {line : Int} {body otherwise : Option NodeId} {r : Reachable}
    (h : Meets E fn f (frame :: outer) path (some id :: nodes) s)
    (hstmt : frame.current = .ifElse test yes no)
    (hn : E.graph.node? id =
      some ⟨line, .conditional .branch none (some c) none none body otherwise⟩)
    (hr : classify E.graph s.consts (id :: path) (some c) = ⟨r, none⟩)
    (hopen : s.ambient.meet r ≠ .never) :
    Meets E fn f ({ current := yes } :: frame :: outer) (id :: path) [body]
      ((s.tell (.guardClassified .branch line r)).enter (s.ambient.meet r))
  | no {frame : Frame} {outer : Site} {path : List NodeId} {id c : NodeId}
    {nodes : List (Option NodeId)} {s : State} {test : Expr} {yes no : Stmt}
    {line : Int} {body otherwise : Option NodeId} {r : Reachable}
    (h : Meets E fn f (frame :: outer) path (some id :: nodes) s)
    (hstmt : frame.current = .ifElse test yes (some no))
    (hn : E.graph.node? id =
      some ⟨line, .conditional .branch none (some c) none none body otherwise⟩)
    (hr : classify E.graph s.consts (id :: path) (some c) = ⟨r, none⟩)
    (hopen : s.ambient.meet r.negate ≠ .never) :
    Meets E fn f ({ passed := [yes], current := no } :: frame :: outer) (id :: path) [otherwise]
      ((afterThen E (id :: path) line r body s).enter (s.ambient.meet r.negate))

/-- The walk over `f` classifies the test of the `if` at a place as `r`. -/
inductive Classifies (E : Setting) (fn : NodeId) (f : Function) : Site → Expr → Reachable → Prop
  | test {frame : Frame} {outer : Site} {path : List NodeId} {id c : NodeId}
    {nodes : List (Option NodeId)} {s : State} {test : Expr} {yes : Stmt} {no : Option Stmt}
    {line : Int} {body otherwise : Option NodeId} {r : Reachable}
    (h : Meets E fn f (frame :: outer) path (some id :: nodes) s)
    (hstmt : frame.current = .ifElse test yes no)
    (hn : E.graph.node? id =
      some ⟨line, .conditional .branch none (some c) none none body otherwise⟩)
    (hr : classify E.graph s.consts (id :: path) (some c) = ⟨r, none⟩) :
    Classifies E fn f (frame :: outer) test r

/-! ### What is known on the way -/

variable {frame : Frame} {outer site : Site} {path : List NodeId} {id : NodeId}
  {nodes : List (Option NodeId)} {s : State}

/-- Statements stand at the nodes of a place, and there is no fault. -/
def Ready (g : Graph) : Site → List NodeId → List (Option NodeId) → State → Prop
  | [], _, _, _ => False
  | frame :: _, path, nodes, s => Placed g path (frame.current :: frame.after) nodes ∧ s.fault = none

theorem Ready.head {node : Option NodeId} (h : Ready g (frame :: outer) path (node :: nodes) s) :
    ∃ id, node = some id ∧ At g frame.current path id ∧ Placed g path frame.after nodes ∧
      s.fault = none := by
  obtain ⟨_ | ⟨⟨id, hid, hat⟩, hrest⟩, hs⟩ := h
  exact ⟨id, hid, hat, hrest, hs⟩

theorem Ready.at {stmt : Stmt} (h : Ready g (frame :: outer) path (some id :: nodes) s)
    (hstmt : frame.current = stmt) : At g stmt path id ∧ s.fault = none := by
  obtain ⟨_, heq, hat, _, hs⟩ := h.head
  cases heq
  exact ⟨hstmt ▸ hat, hs⟩

section
variable {fn : NodeId} {f : Function} {given : String}

/-- The statements of a plain function stand below it, and its parameters raise no
fault and teach nothing. -/
theorem function_placed (hshown : E.graph.Shows (f.tree given) fn) (hplain : f.Plain)
    {line : Int} {name : String} {params : List (Option NodeId)} {locals : List String}
    (hfn : E.graph.node? fn = some ⟨line, .function name params nodes locals⟩) :
    Placed E.graph [fn] f.statements nodes ∧ (bodyState E fn line name params).fault = none ∧
      Fades {} (bodyState E fn line name params) := by
  obtain ⟨pos, ident, bindings, rest, body⟩ := f
  cases body with
  | concise value => exact hplain.elim
  | block list =>
    obtain ⟨ps, bs, hn, hparams, hbody⟩ := hshown
    cases hfn.symm.trans hn
    have hleads : ∀ id, some id ∈ params ++ nodes → E.graph.Leads [fn] id := by
      intro id hid p hp
      obtain rfl := List.mem_singleton.mp hp
      exact .single ⟨_, hfn, hid⟩
    have hquiet : QuietAll (Binding.trees bindings ++ Script.restTree rest) :=
      quietAll_append (quiet_bindings bindings) (quiet_restTree rest)
    refine ⟨placed_of_shows hplain hbody fun id hid => hleads id (List.mem_append_right _ hid),
      fault_visitAll hparams (fun id hid => hleads id (List.mem_append_left _ hid)) _, ?_⟩
    have hvisit : ∀ c, E.graph.Silent c → ∀ s, Fades s (walk E [fn] c s) :=
      fun _ hc s => walk_fades hc s
    have hopened : Fades {} (State.tell (.opened (idText (ident.getD given) pos.line))
        { scope := { name := idText (ident.getD given) pos.line } }) := .of_told rfl rfl nofun
    exact hopened.trans (visitAll_fades hvisit (hparams.silent hquiet) _)

variable (hshown : E.graph.Shows (f.tree given) fn) (hplain : f.Plain)
include hshown hplain

/-- Where the walk comes to, statements stand at the nodes, and there is no fault. -/
theorem Meets.ready (h : Meets E fn f site path nodes s) : Ready E.graph site path nodes s := by
  induction h with
  | start hfn hbody =>
    obtain ⟨hplaced, hfault, _⟩ := function_placed hshown hplain hfn
    exact ⟨hbody ▸ hplaced, hfault⟩
  | next _ ih =>
    obtain ⟨id, rfl, hat, hrest, hs⟩ := ih.head
    exact ⟨hrest, hat.fault hs⟩
  | block _ hstmt hn ih =>
    obtain ⟨hat, hs⟩ := ih.at hstmt
    obtain ⟨_, _, _, hn', hinner⟩ := hat.block
    cases hn.symm.trans hn'
    exact ⟨hinner, hs⟩
  | yes _ hstmt hn _ _ ih =>
    obtain ⟨hat, hs⟩ := ih.at hstmt
    obtain ⟨_, body, _, hn', _, _, hbody, _⟩ := hat.ifElse
    cases hn.symm.trans hn'
    exact ⟨.cons ⟨body, rfl, hbody⟩ .nil, hs⟩
  | no _ hstmt hn _ _ ih =>
    obtain ⟨hat, hs⟩ := ih.at hstmt
    obtain ⟨_, _, _, hn', _, _, hbody, hno⟩ := hat.ifElse
    cases hn.symm.trans hn'
    rcases hno with ⟨hno, _⟩ | ⟨_, d, hno, rfl, hd⟩
    · cases hno
    · cases hno
      exact ⟨.cons ⟨d, rfl, hd⟩ .nil, hbody.fault_afterThen hs⟩

/-- **A constant that is known on the way was noted.** -/
theorem Meets.noted (h : Meets E fn f site path nodes s) {x : String} {b : Bool}
    (hx : s.consts.truth? x = some b) : site.Noted x b := by
  induction h with
  | start hfn hbody =>
    obtain ⟨_, _, hfades⟩ := function_placed hshown hplain hfn
    cases hfades.truth hx
  | next h ih =>
    obtain ⟨id, rfl, hat, _, hs⟩ := (h.ready hshown hplain).head
    rcases stmt_leaves hat.plain hat hs x b hx with ⟨hbefore, hnot⟩ | hlearned
    · exact (ih hbefore).pass hnot
    · exact .note hlearned
  | block _ _ _ ih => exact (ih hx).enter [] _ _
  | yes _ _ _ _ _ ih => exact (ih hx).enter [] _ []
  | @no _ _ _ _ _ _ _ _ yes _ _ _ _ _ h hstmt hn _ _ ih =>
    obtain ⟨hat, hs⟩ := (h.ready hshown hplain).at hstmt
    obtain ⟨_, _, _, hn', _, _, hbody, _⟩ := hat.ifElse
    cases hn.symm.trans hn'
    rcases afterThen_leaves (stmt_leaves hbody.plain) hbody hs x b hx with
      ⟨hbefore, _⟩ | hlearned
    · exact (ih hbefore).enter [yes] _ []
    · exact .leave hlearned

end

/-! ### Every test that is told of is met -/

theorem declaration_told {kind : DeclKind} {ids : List NodeId}
    (h : ∀ c ∈ ids.map some, E.graph.Silent c) {cond : CondKind} {line : Int} {r : Reachable}
    (he : .guardClassified cond line r ∈ (declaration E (walk E path) kind ids s).events) :
    .guardClassified cond line r ∈ s.events := by
  induction ids generalizing s with
  | nil => exact he
  | cons id ids ih =>
    obtain ⟨hid, hids⟩ := List.forall_mem_cons.mp h
    have hfades : Fades s (walk E path (some id) s) := walk_fades hid s
    have hrest := ih hids he
    refine hfades.told ?_
    simp only at hrest
    split at hrest
    · rwa [(recordConst_keeps _ _ _).2] at hrest
    · exact hrest

theorem mem_events_branch {inner back : Reachable} {step : State → State} {e : Event}
    (h : e ∈ (branch inner back step s).events) :
    e ∈ s.events ∨ inner ≠ .never ∧ e ∈ (step (s.enter inner)).events := by
  unfold branch at h
  simp only at h
  split at h
  · exact .inl h
  · exact .inr ⟨‹_›, h⟩

/-- A condition is told of where the walk classifies a test so. -/
def TestTold (E : Setting) (fn : NodeId) (f : Function) (kind : CondKind) (line : Int)
    (r : Reachable) : Prop :=
  kind = .branch ∧ ∃ site test, Classifies E fn f site test r ∧ test.pos.line = line

/-- A walk over `stmt`, wherever it is met, tells of no other conditions. -/
def TellsOfTests (E : Setting) (fn : NodeId) (f : Function) (stmt : Stmt) : Prop :=
  ∀ {frame : Frame} {outer : Site} {path : List NodeId} {id : NodeId}
    {nodes : List (Option NodeId)} {s : State}, frame.current = stmt →
    Meets E fn f (frame :: outer) path (some id :: nodes) s →
    ∀ {kind line r}, .guardClassified kind line r ∈ (walk E path (some id) s).events →
      .guardClassified kind line r ∈ s.events ∨ TestTold E fn f kind line r

section
variable {fn : NodeId} {f : Function} {given : String}
  (hshown : E.graph.Shows (f.tree given) fn) (hplain : f.Plain)
include hshown hplain

theorem visitAll_told (hmeets : Meets E fn f (frame :: outer) path nodes s)
    (h : ∀ stmt ∈ frame.current :: frame.after, TellsOfTests E fn f stmt)
    {kind : CondKind} {line : Int} {r : Reachable}
    (he : .guardClassified kind line r ∈ (visitAll (walk E path) nodes s).events) :
    .guardClassified kind line r ∈ s.events ∨ TestTold E fn f kind line r := by
  obtain ⟨names, passed, before, stmt, after⟩ := frame
  induction after generalizing before stmt nodes s with
  | nil =>
    obtain ⟨_ | ⟨⟨id, rfl, _⟩, _ | _⟩, _⟩ := hmeets.ready hshown hplain
    exact h stmt List.mem_cons_self rfl hmeets he
  | cons next after ih =>
    obtain ⟨_ | ⟨⟨id, rfl, _⟩, _⟩, _⟩ := hmeets.ready hshown hplain
    have hrest : ∀ s ∈ next :: after, TellsOfTests E fn f s :=
      fun s hs => h s (List.mem_cons_of_mem _ hs)
    have hlater := fun he => ih he _ _ hmeets.next hrest
    rcases hlater he with he | htold
    · exact h stmt List.mem_cons_self rfl hmeets he
    · exact .inr htold

omit hshown hplain in
/-- An `if` tells of its test, and of those in what it guards. -/
theorem afterThen_told {c body : NodeId} {test : Expr} {yes : Stmt} {no : Option Stmt}
    {otherwise : Option NodeId} {q : Reachable}
    (hmeets : Meets E fn f (frame :: outer) path (some id :: nodes) s)
    (hstmt : frame.current = .ifElse test yes no)
    (hn : E.graph.node? id = some ⟨test.pos.line,
      .conditional .branch none (some c) none none (some body) otherwise⟩)
    (hq : classify E.graph s.consts (id :: path) (some c) = ⟨q, none⟩)
    (hyes : TellsOfTests E fn f yes) {kind : CondKind} {line : Int} {r : Reachable}
    (he : .guardClassified kind line r ∈
      (afterThen E (id :: path) test.pos.line q (some body) s).events) :
    .guardClassified kind line r ∈ s.events ∨ TestTold E fn f kind line r := by
  have htest : .guardClassified kind line r ∈
      (s.tell (.guardClassified .branch test.pos.line q)).events →
      .guardClassified kind line r ∈ s.events ∨ TestTold E fn f kind line r := by
    intro hmem
    rcases List.mem_cons.mp hmem with heq | hmem
    · cases heq
      exact .inr ⟨rfl, _, test, .test hmeets hstmt hn hq, rfl⟩
    · exact .inl hmem
  rcases mem_events_branch he with he | ⟨hopen, he⟩
  · exact htest he
  · rcases hyes rfl (hmeets.yes hstmt hn hq hopen) he with he | htold
    · exact htest he
    · exact .inr htold

/-- A statement that is quiet tells of none at all. -/
theorem quiet_told {stmt : Stmt} {t : Tree} (ht : stmt.tree? = some t) (htree : t.Quiet) :
    TellsOfTests E fn f stmt := by
  intro frame outer path id nodes s hstmt hmeets kind line r he
  obtain ⟨hat, _⟩ := (hmeets.ready hshown hplain).at hstmt
  obtain ⟨u, hu, hshows⟩ := hat.shown
  obtain rfl := Option.some.inj (ht.symm.trans hu)
  exact .inl ((walk_fades (hshows.silent htree) s).told he)

theorem stmt_told {stmt : Stmt} (h : stmt.Plain) : TellsOfTests E fn f stmt := by
  induction h with
  | expression e => exact quiet_told hshown hplain rfl (e.quiet_tree _)
  | function f => exact quiet_told hshown hplain rfl (Expr.quiet_tree _ (.function f))
  | classDecl c => exact quiet_told hshown hplain rfl c.quiet_tree
  | declare pos kind hnamed =>
    intro frame outer path id nodes s hstmt hmeets kind line r he
    obtain ⟨hat, hs⟩ := (hmeets.ready hshown hplain).at hstmt
    obtain ⟨t, ht, hshows⟩ := hat.shown
    cases ht
    obtain ⟨ids, hn, hids⟩ := hshows
    rw [hat.walk_eq hs hn] at he
    exact .inl (declaration_told (hids.silent (quiet_bindings _)) he)
  | @block pos list hlist ih =>
    intro frame outer path id nodes s hstmt hmeets kind line r he
    obtain ⟨hat, hs⟩ := (hmeets.ready hshown hplain).at hstmt
    obtain ⟨_, _, inner, hn, hinner⟩ := hat.block
    rw [hat.walk_eq hs hn] at he
    cases list with
    | nil =>
      obtain _ | _ := hinner
      exact .inl he
    | cons stmt list => exact visitAll_told hshown hplain (hmeets.block hstmt hn) ih he
  | ifThen test hyes ih =>
    intro frame outer path id nodes s hstmt hmeets kind line r he
    obtain ⟨hat, hs⟩ := (hmeets.ready hshown hplain).at hstmt
    obtain ⟨c, body, otherwise, hn, hc, hleads, _, hno⟩ := hat.ifElse
    obtain ⟨q, hq, hwalk⟩ := hat.walk_if hs hn hc hleads
    rcases hno with ⟨_, rfl⟩ | ⟨_, _, hno, _⟩
    · rw [hwalk] at he
      exact afterThen_told hmeets hstmt hn hq ih he
    · cases hno
  | ifElse test hyes hno ihyes ihno =>
    intro frame outer path id nodes s hstmt hmeets kind line r he
    obtain ⟨hat, hs⟩ := (hmeets.ready hshown hplain).at hstmt
    obtain ⟨c, body, otherwise, hn, hc, hleads, _, hno⟩ := hat.ifElse
    obtain ⟨q, hq, hwalk⟩ := hat.walk_if hs hn hc hleads
    rcases hno with ⟨hno, _⟩ | ⟨no, d, hno, rfl, _⟩
    · cases hno
    · cases hno
      rw [hwalk] at he
      rcases mem_events_branch he with he | ⟨hopen, he⟩
      · exact afterThen_told hmeets hstmt hn hq ihyes he
      · rcases ihno rfl (hmeets.no hstmt hn hq hopen) he with he | htold
        · exact afterThen_told hmeets hstmt hn hq ihyes he
        · exact .inr htold

/-- Whatever condition the analysis of a function tells of, it is that of a test met. -/
theorem analyzeFunction_told {kind : CondKind} {line : Int} {r : Reachable}
    (he : .guardClassified kind line r ∈ (analyzeFunction E (some fn)).events) :
    TestTold E fn f kind line r := by
  obtain ⟨fnLine, name, params, nodes, locals, hfn⟩ : ∃ line name params nodes locals,
      E.graph.node? fn = some ⟨line, .function name params nodes locals⟩ := by
    obtain ⟨pos, ident, bindings, rest, body⟩ := f
    obtain ⟨ps, bs, hn, _⟩ := hshown
    exact ⟨_, _, ps, bs, _, hn⟩
  obtain ⟨hplaced, _, hfades⟩ := function_placed hshown hplain hfn
  have hbody : .guardClassified kind line r ∈
      (visitAll (walk E [fn]) nodes (bodyState E fn fnLine name params)).events := by
    unfold analyzeFunction at he
    simp only [Graph.at?, Option.bind_some, hfn] at he
    split at he
    · exact List.mem_reverse.mp he
    · rcases List.mem_append.mp he with he | he
      · exact List.mem_reverse.mp he
      · -- the summary at the end is about variables
        split at he <;> simp at he
  have hstart : .guardClassified kind line r ∉ (bodyState E fn fnLine name params).events :=
    fun hmem => by cases hfades.told hmem
  cases hlist : f.statements with
  | nil =>
    rw [hlist] at hplaced
    obtain _ | _ := hplaced
    exact absurd hbody hstart
  | cons stmt after =>
    have hall : ∀ s ∈ stmt :: after, TellsOfTests E fn f s := fun s hs =>
      stmt_told hshown hplain (hplain.statements s (hlist ▸ hs))
    exact (visitAll_told hshown hplain (.start hfn hlist) hall hbody).resolve_left hstart

/-- A name that is classified as true or false is known as a constant of that truth. -/
theorem Classifies.noted {pos : Script.Pos} {x : String} {truthy : Bool}
    (h : Classifies E fn f site (.identifier pos x) (if truthy then .always else .never)) :
    site.Noted x truthy := by
  have hjudged : ∀ known : Option Bool,
      known.elim Reachable.maybe (fun b => if b then .always else .never) =
        (if truthy then .always else .never) → known = some truthy := by
    intro known
    rcases known with _ | _ | _ <;> cases truthy <;> decide
  generalize hr : (if truthy then Reachable.always else .never) = r at h
  generalize htest : Expr.identifier pos x = test at h
  cases h with
  | test hmeets hstmt hn hclass =>
    obtain ⟨hat, _⟩ := (hmeets.ready hshown hplain).at hstmt
    rw [← htest] at hat
    obtain ⟨c, _, _, hn', hc, hleads, _, _⟩ := hat.ifElse
    cases hn.symm.trans hn'
    rw [classify_of_name hc (fresh_of_shows hc hleads)] at hclass
    exact hmeets.noted hshown hplain (hjudged _ ((Classified.mk.inj hclass).1.trans hr.symm))

end

/-- **A name is folded only where a constant with a literal value is in force**, or where
one was declared in a block that is closed, or where one is hidden by a function, a
class or a later declaration in a block around the place. Every condition that the
analysis tells of is that of a test to which this applies. -/
theorem folded_name_in_force (E : Setting) (fn : NodeId) (f : Function) (given : String)
    (hshown : E.graph.Shows (f.tree given) fn) (hplain : f.Plain) :
    (∀ kind line r, .guardClassified kind line r ∈ (analyzeFunction E (some fn)).events →
      kind = .branch ∧ ∃ site test, Classifies E fn f site test r ∧ test.pos.line = line) ∧
    ∀ site pos x truthy,
      Classifies E fn f site (.identifier pos x) (if truthy then .always else .never) →
      site.InForce x (.literal truthy) ∨ site.Leaks x truthy ∨ site.Hides x truthy :=
  ⟨fun _ _ _ he => analyzeFunction_told hshown hplain he,
    fun _ _ _ _ h => (h.noted hshown hplain).inForce_or⟩

/-! ### A block in a block -/

namespace Sample

def pos : Script.Pos := { line := 1 }

def constant : Stmt := .declare pos .const [.mk (.name pos "c") (some (.boolean pos false))]

def condition (guarded : List Stmt) : Stmt :=
  .ifElse (.identifier pos "c") (.block pos guarded) none

/-- `function f() { const c = false; { first; if (c) { guarded } } }` -/
def inBlock (first : Stmt) (guarded : List Stmt) : Function :=
  .mk pos (some "f") [] none
    (.block [constant, .block pos [first, condition guarded]])

/-- The place of the `if` in it. -/
def place (first : Stmt) (guarded : List Stmt) : Site :=
  [{ before := [first], current := condition guarded },
    { names := (inBlock first guarded).names, before := [constant],
      current := .block pos [first, condition guarded] }]

def setting (f : Function) : Setting :=
  { graph := (Program.ofTrees "f.js" [f.tree Script.anonymous]).graph }

/-- `let d = c;` -/
def copy : Stmt := .declare pos .lexical [.mk (.name pos "d") (some (.identifier pos "c"))]

/-- `function c() {}` -/
def shadow : Stmt := .function (.mk pos (some "c") [] none (.block []))

/-- `var m = retSource(); sink(m);` -/
def flow : List Stmt :=
  [.declare pos .var [.mk (.name pos "m") (some (.call (.identifier pos "retSource") []))],
    .expression (.call (.identifier pos "sink") [.identifier pos "m"])]

theorem shows_setting (f : Function) {fn : NodeId} {rest : List (Option NodeId)}
    (hbody : (Program.ofTrees "f.js" [f.tree Script.anonymous]).body = some fn :: rest) :
    (setting f).graph.Shows (f.tree Script.anonymous) fn := by
  obtain ⟨id, _, hids, hshown, _⟩ := Program.shows_ofTrees "f.js" [f.tree Script.anonymous]
  cases hbody.symm.trans hids
  exact hshown

theorem plain_inBlock {first : Stmt} {guarded : List Stmt} (hfirst : first.Plain)
    (hguarded : ∀ s ∈ guarded, s.Plain) : (inBlock first guarded).Plain := by
  have hif : (condition guarded).Plain := .ifThen _ (.block _ hguarded)
  have hconst : constant.Plain := .declare _ _ (List.forall_mem_singleton.mpr trivial)
  have hblock : (Stmt.block pos [first, condition guarded]).Plain :=
    .block _ (List.forall_mem_cons.mpr ⟨hfirst, List.forall_mem_singleton.mpr hif⟩)
  exact List.forall_mem_cons.mpr ⟨hconst, List.forall_mem_singleton.mpr hblock⟩

theorem copy_classified :
    Classifies (setting (inBlock copy [])) 12 (inBlock copy []) (place copy [])
      (.identifier pos "c") .never := by
  have hfn : (setting (inBlock copy [])).graph.node? 12 =
      some ⟨1, .function "f" [] [some 3, some 11] (inBlock copy []).locals⟩ := rfl
  have hblock : (setting (inBlock copy [])).graph.node? 11 =
      some ⟨1, .other "block" [some 7, some 10]⟩ := rfl
  have hif : (setting (inBlock copy [])).graph.node? 10 =
      some ⟨1, .conditional .branch none (some 8) none none (some 9) none⟩ := rfl
  refine .test (((Meets.start hfn rfl).next.block rfl hblock).next) rfl hif ?_
  decide +kernel

theorem shadow_classified :
    Classifies (setting (inBlock shadow flow)) 17 (inBlock shadow flow) (place shadow flow)
      (.identifier pos "c") .never := by
  have hfn : (setting (inBlock shadow flow)).graph.node? 17 =
      some ⟨1, .function "f" [] [some 3, some 16] (inBlock shadow flow).locals⟩ := rfl
  have hblock : (setting (inBlock shadow flow)).graph.node? 16 =
      some ⟨1, .other "block" [some 4, some 15]⟩ := rfl
  have hif : (setting (inBlock shadow flow)).graph.node? 15 =
      some ⟨1, .conditional .branch none (some 5) none none (some 14) none⟩ := rfl
  refine .test (((Meets.start hfn rfl).next.block rfl hblock).next) rfl hif ?_
  decide +kernel

end Sample

/-- The constant is in force in the inner block, where it is folded. -/
theorem folded_name_in_force_inBlock :
    Classifies (Sample.setting (Sample.inBlock Sample.copy [])) 12
      (Sample.inBlock Sample.copy []) (Sample.place Sample.copy [])
      (.identifier Sample.pos "c") .never ∧
    (Sample.place Sample.copy []).InForce "c" (.literal false) := by
  have hplain : (Sample.inBlock Sample.copy []).Plain := Sample.plain_inBlock
    (.declare _ _ (List.forall_mem_singleton.mpr trivial)) (fun _ hs => by cases hs)
  obtain ⟨_, hfolded⟩ := folded_name_in_force _ 12 _ _
    (Sample.shows_setting (Sample.inBlock Sample.copy []) rfl) hplain
  refine ⟨Sample.copy_classified, ?_⟩
  rcases hfolded _ Sample.pos "c" false Sample.copy_classified with h | h | h
  · exact h
  · exact absurd h (by unfold Site.Leaks; decide +kernel)
  · have hseen : ∀ g ∈ Sample.place Sample.copy [], "c" ∉ g.unseen := by decide +kernel
    obtain ⟨inner, f, outer, hsite, _, g, hg, hx⟩ := h
    exact absurd hx (hseen g (hsite ▸ List.mem_append_left _ hg))

/-- Where the inner block has a function of the name, the name is folded all the same,
and what it guards is lost. -/
theorem hidden_name_folded :
    (Sample.inBlock Sample.shadow Sample.flow).Plain ∧
    (Sample.setting (Sample.inBlock Sample.shadow Sample.flow)).graph.Shows
      ((Sample.inBlock Sample.shadow Sample.flow).tree Script.anonymous) 17 ∧
    Classifies (Sample.setting (Sample.inBlock Sample.shadow Sample.flow)) 17
      (Sample.inBlock Sample.shadow Sample.flow) (Sample.place Sample.shadow Sample.flow)
      (.identifier Sample.pos "c") .never ∧
    (Sample.place Sample.shadow Sample.flow).InForce "c" .other ∧
    ¬ (Sample.place Sample.shadow Sample.flow).InForce "c" (.literal false) ∧
    (analyzeFunction (Sample.setting (Sample.inBlock Sample.shadow Sample.flow))
      (some 17)).result.map Scope.report = .ok {} := by
  refine ⟨Sample.plain_inBlock (.function _) ?_, Sample.shows_setting _ rfl,
    Sample.shadow_classified, ?_, ?_, ?_⟩
  · exact List.forall_mem_cons.mpr ⟨.declare _ _ (List.forall_mem_singleton.mpr trivial),
      List.forall_mem_singleton.mpr (.expression _)⟩
  · unfold Site.InForce
    decide +kernel
  · unfold Site.InForce
    decide +kernel
  · decide +kernel

end TaintReach.Walk
