import Mathlib.Data.Set.Basic
import TaintReach.Proofs.Walk.Cycle

/-! Loop-free code, and what flows along its paths.

The predicates `IsExpr`, `IsValue` and `IsStmt` carve loop-free code out of the
node graph. `Runs` follows one path through such code: it takes either branch of
each `if` and the bodies of some contiguous clauses of each `switch`. Along the
path every variable has a set of origins, the variables that were given the
result of a source call on the way to it. An assignment replaces the origins of
its target by those of the names its value reads, and a sink meets the origins
of its argument.

A destructuring assignment can itself be a value. Whether it hands on what it
was given, as the language has it, or nothing is the parameter `passOn`; where
it does, `IsValue` keeps such values out. The graph below a function of this
kind has no cycle (`not_cyclic_of_body`). -/
namespace TaintReach.LoopFree

open TaintReach.Graph (founded_of_at? founded_present)
open Walk (Setting)

/-! ### Expressions -/

/-- What the value of an expression is made of. The callee of a call is not read. -/
def operands : Form → List (Option NodeId)
  | .call _ args _ => args
  | form => form.children

/-- Forms whose value is made of all their parts. -/
def isCompound : Form → Bool
  | .member .. | .composite .. | .operation .. | .other .. => true
  | _ => false

inductive IsExpr (E : Setting) : Form → Prop
  | name (x : String) : IsExpr E (.name x)
  | literal (kind : LiteralKind) (raw : String) (truthy : Bool) :
    IsExpr E (.literal kind raw truthy)
  | thisRef : IsExpr E .thisRef
  | source {callee : Option NodeId} {line : Int}
    (hcallee : E.graph.name? callee = some (E.endpoints.source, line)) :
    IsExpr E (.call callee [] false)
  | call {callee : Option NodeId} {args : List (Option NodeId)} {isNew : Bool} {f : String}
    {line : Int} (hcallee : E.graph.name? callee = some (f, line))
    (hsource : f ≠ E.endpoints.source) (hsink : f ≠ E.endpoints.sink)
    (hargs : ∀ c ∈ args, ∀ n, E.graph.at? c = some n → IsExpr E n.form) :
    IsExpr E (.call callee args isNew)
  | compound {form : Form} (hform : isCompound form = true)
    (hparts : ∀ c ∈ form.children, ∀ n, E.graph.at? c = some n → IsExpr E n.form) :
    IsExpr E form

/-- The name `x` is read in an expression. -/
inductive ReadIn (g : Graph) (x : String) : Form → Prop
  | name : ReadIn g x (.name x)
  | operand {form : Form} {c : Option NodeId} {n : Node} (hc : c ∈ operands form)
    (hn : g.at? c = some n) (h : ReadIn g x n.form) : ReadIn g x form

/-- The source is called in an expression. -/
inductive CallsSource (E : Setting) : Form → Prop
  | call {callee : Option NodeId} {line : Int}
    (hcallee : E.graph.name? callee = some (E.endpoints.source, line)) :
    CallsSource E (.call callee [] false)
  | operand {form : Form} {c : Option NodeId} {n : Node} (hc : c ∈ operands form)
    (hn : E.graph.at? c = some n) (h : CallsSource E n.form) : CallsSource E form

/-! ### Assignments -/

/-- What an assignment writes to. A member assignment writes to the base of its chain. -/
inductive Target where
  | name (x : String)
  | pattern (xs : List String)
  | member (x : String)

namespace Target

def names : Target → List String
  | name x => [x]
  | pattern xs => xs
  | member x => [x]

/-- A member assignment leaves the rest of its object in place. -/
def IsMember (t : Target) : Prop := ∃ x, t = member x

end Target

/-- A field that can be assigned to: a name, a pattern without defaults, or a member
chain that starts at a name. -/
inductive IsTarget (E : Setting) : Option NodeId → Target → Prop
  | name {c : Option NodeId} {x : String} {line : Int} (h : E.graph.name? c = some (x, line)) :
    IsTarget E c (.name x)
  | pattern {c : Option NodeId} {names : List NodeId} {line : Int}
    (h : E.graph.at? c = some ⟨line, .pattern names []⟩)
    (hnames : ∀ n ∈ names, (E.graph.name? (some n)).isSome) :
    IsTarget E c (.pattern ((E.graph.targetNames c).map Prod.fst))
  | member {c object property : Option NodeId} {propName x : String} {computed : Bool}
    {line xLine : Int} (h : E.graph.at? c = some ⟨line, .member object property propName computed⟩)
    (hexpr : IsExpr E (.member object property propName computed))
    (hroot : E.graph.root? c = some (x, xLine)) : IsTarget E c (.member x)

/-- An expression, or an assignment in its place. -/
inductive IsValue (E : Setting) (passOn : Bool) : Form → Prop
  | expr {form : Form} (h : IsExpr E form) : IsValue E passOn form
  | assign {operator : String} {t v : Option NodeId} {target : Target} {n : Node}
    (ht : IsTarget E t target)
    (hpass : passOn = true → ∀ line names, E.graph.at? t ≠ some ⟨line, .pattern names []⟩)
    (hn : E.graph.at? v = some n) (hv : IsValue E passOn n.form) :
    IsValue E passOn (.assignment operator t v)

/-! ### Origins -/

/-- The variables that the value of each variable may come from. -/
abbrev Origins := String → Set String

/-- What a value brings to the variable that receives it. -/
structure Handed where
  origins : Set String
  /-- The source is called for it, so that the receiver becomes an origin. -/
  fresh : Prop

/-- The variables of the target receive a value. Their former origins stay when
`keep` holds, as they do for an operator that reads its target. -/
def Origins.receive (O : Origins) (target : Target) (keep : Prop) (h : Handed) : Origins :=
  fun x => if x ∈ target.names
    then {z | ((keep ∨ target.IsMember) ∧ z ∈ O x) ∨ z ∈ h.origins ∨ (h.fresh ∧ z = x)}
    else O x

/-- All names of a target receive the origins of the value. -/
theorem Origins.mem_receive_of_origins {O : Origins} {target : Target} {keep : Prop} {h : Handed}
    {x z : String} (hx : x ∈ target.names) (hz : z ∈ h.origins) :
    z ∈ O.receive target keep h x := by
  unfold receive
  rw [if_pos hx]
  exact Or.inr (Or.inl hz)

/-- A variable that the source is called for is an origin of its own. -/
theorem Origins.mem_receive_of_fresh {O : Origins} {target : Target} {keep : Prop} {h : Handed}
    {x : String} (hx : x ∈ target.names) (hfresh : h.fresh) : x ∈ O.receive target keep h x := by
  unfold receive
  rw [if_pos hx]
  exact Or.inr (Or.inr ⟨hfresh, rfl⟩)

/-- What an assignment hands on once its target has received a value: what the target
then has, or for a pattern the value itself if anything. -/
def Target.handsOn (passOn : Bool) (O : Origins) (h : Handed) : Target → Handed
  | .name x => ⟨O x, False⟩
  | .member x => ⟨O x, False⟩
  | .pattern _ => if passOn then h else ⟨∅, False⟩

/-- Evaluating a value takes `O` to `O'` and brings `h`. -/
inductive Yields (E : Setting) (passOn : Bool) : Origins → Form → Origins → Handed → Prop
  | expr {O : Origins} {form : Form} (h : IsExpr E form) :
    Yields E passOn O form O ⟨{z | ∃ x, ReadIn E.graph x form ∧ z ∈ O x}, CallsSource E form⟩
  | assign {O O' : Origins} {operator : String} {t v : Option NodeId} {target : Target} {n : Node}
    {h : Handed} (ht : IsTarget E t target) (hn : E.graph.at? v = some n)
    (hv : Yields E passOn O n.form O' h) :
    Yields E passOn O (.assignment operator t v) (O'.receive target (operator ≠ "=") h)
      (target.handsOn passOn (O'.receive target (operator ≠ "=") h) h)

/-! ### Statements and paths -/

/-- The declaration `d` makes `x` a constant. -/
def DeclaresConst (g : Graph) (d : NodeId) (x : String) : Prop :=
  ∃ line bindings, g.node? d = some ⟨line, .declaration .const bindings⟩ ∧
    ∃ b ∈ bindings, ∃ bLine target init, g.node? b = some ⟨bLine, .binding target init⟩ ∧
      x ∈ (g.targetNames target).map Prod.fst

/-- The statements of a clause. -/
def clauseBody (g : Graph) (c : NodeId) : List (Option NodeId) :=
  match g.node? c with
  | some ⟨_, .clause _ body⟩ => body
  | _ => []

/-- The parameters a function takes are plain names. -/
inductive IsParam (g : Graph) : Form → Prop
  | name (x : String) : IsParam g (.name x)
  | binding {target : Option NodeId} {x : String} {line : Int}
    (h : g.name? target = some (x, line)) : IsParam g (.binding target none)

/-- Loop-free statements of the function `fn`. The test of an `if` is a name that the
function nowhere declares a constant. -/
inductive IsStmt (E : Setting) (passOn : Bool) (fn : NodeId) : Form → Prop
  | bare {t : Option NodeId} {target : Target} (ht : IsTarget E t target) :
    IsStmt E passOn fn (.binding t none)
  | bind {t v : Option NodeId} {target : Target} {n : Node} (ht : IsTarget E t target)
    (hn : E.graph.at? v = some n) (hv : IsValue E passOn n.form) :
    IsStmt E passOn fn (.binding t v)
  | assign {operator : String} {t v : Option NodeId} {target : Target} {n : Node}
    (ht : IsTarget E t target) (hn : E.graph.at? v = some n) (hv : IsValue E passOn n.form) :
    IsStmt E passOn fn (.assignment operator t v)
  | declare {kind : DeclKind} {bindings : List NodeId}
    (hb : ∀ c ∈ bindings.map some, ∀ n, E.graph.at? c = some n → IsStmt E passOn fn n.form) :
    IsStmt E passOn fn (.declaration kind bindings)
  | method {callee : Option NodeId} {args : List (Option NodeId)} {n : Node} {x : String}
    {line : Int} (hmember : E.graph.isMember callee = true) (hn : E.graph.at? callee = some n)
    (hexpr : IsExpr E n.form) (hroot : E.graph.root? callee = some (x, line))
    (hargs : ∀ a ∈ args, (E.graph.name? a).isSome) : IsStmt E passOn fn (.call callee args false)
  | sink {callee arg : Option NodeId} {y : String} {line yLine : Int}
    (hcallee : E.graph.name? callee = some (E.endpoints.sink, line))
    (hy : E.graph.name? arg = some (y, yLine)) : IsStmt E passOn fn (.call callee [arg] false)
  | block {kind : String} {nodes : List (Option NodeId)}
    (hs : ∀ c ∈ nodes, ∀ n, E.graph.at? c = some n → IsStmt E passOn fn n.form) :
    IsStmt E passOn fn (.other kind nodes)
  | branch {test body otherwise : Option NodeId} {x : String} {line : Int}
    (htest : E.graph.name? test = some (x, line))
    (hfree : ∀ d, E.graph.Within fn d → ¬ DeclaresConst E.graph d x)
    (hyes : ∀ n, E.graph.at? body = some n → IsStmt E passOn fn n.form)
    (hno : ∀ n, E.graph.at? otherwise = some n → IsStmt E passOn fn n.form) :
    IsStmt E passOn fn (.conditional .branch none test none none body otherwise)
  | switch {discriminant : Option NodeId} {clauses : List NodeId}
    (hdiscriminant : ∀ n, E.graph.at? discriminant = some n → IsExpr E n.form)
    (hclauses : ∀ c ∈ clauses, ∀ n, E.graph.node? c = some n → ∃ test body,
      n.form = .clause test body ∧ ∀ m, E.graph.at? test = some m → IsExpr E m.form)
    (hbodies : ∀ c ∈ clauses, ∀ a ∈ clauseBody E.graph c, ∀ n, E.graph.at? a = some n →
      IsStmt E passOn fn n.form) : IsStmt E passOn fn (.switch discriminant clauses)

mutual

/-- One path through a statement: the origins before and after it, and those that
sinks meet on the way. -/
inductive Runs (E : Setting) (passOn : Bool) : Origins → Form → Origins → Set String → Prop
  | bare {O : Origins} {t : Option NodeId} : Runs E passOn O (.binding t none) O ∅
  | bind {O O' : Origins} {t v : Option NodeId} {target : Target} {n : Node} {h : Handed}
    (ht : IsTarget E t target) (hn : E.graph.at? v = some n)
    (hv : Yields E passOn O n.form O' h) :
    Runs E passOn O (.binding t v) (O'.receive target False h) ∅
  | assign {O O' : Origins} {operator : String} {t v : Option NodeId} {target : Target} {n : Node}
    {h : Handed} (ht : IsTarget E t target) (hn : E.graph.at? v = some n)
    (hv : Yields E passOn O n.form O' h) :
    Runs E passOn O (.assignment operator t v) (O'.receive target (operator ≠ "=") h) ∅
  | declare {O O' : Origins} {met : Set String} {kind : DeclKind} {bindings : List NodeId}
    (h : RunsAll E passOn O (bindings.map some) O' met) :
    Runs E passOn O (.declaration kind bindings) O' met
  | method {O : Origins} {callee : Option NodeId} {args : List (Option NodeId)} {x : String}
    {line : Int} (hmember : E.graph.isMember callee = true)
    (hroot : E.graph.root? callee = some (x, line)) :
    Runs E passOn O (.call callee args false) (O.receive (.member x) False
      ⟨{z | ∃ a ∈ args, ∃ y yLine, E.graph.name? a = some (y, yLine) ∧ z ∈ O y}, False⟩) ∅
  | sink {O : Origins} {callee arg : Option NodeId} {y : String} {line yLine : Int}
    (hcallee : E.graph.name? callee = some (E.endpoints.sink, line))
    (hy : E.graph.name? arg = some (y, yLine)) :
    Runs E passOn O (.call callee [arg] false) O (O y)
  | block {O O' : Origins} {met : Set String} {kind : String} {nodes : List (Option NodeId)}
    (h : RunsAll E passOn O nodes O' met) : Runs E passOn O (.other kind nodes) O' met
  | yes {O O' : Origins} {met : Set String} {test body otherwise : Option NodeId}
    (h : RunsAll E passOn O [body] O' met) :
    Runs E passOn O (.conditional .branch none test none none body otherwise) O' met
  | no {O O' : Origins} {met : Set String} {test body otherwise : Option NodeId}
    (h : RunsAll E passOn O [otherwise] O' met) :
    Runs E passOn O (.conditional .branch none test none none body otherwise) O' met
  | switch {O O' : Origins} {met : Set String} {discriminant : Option NodeId}
    {before run after : List NodeId}
    (h : RunsAll E passOn O (run.flatMap (clauseBody E.graph)) O' met) :
    Runs E passOn O (.switch discriminant (before ++ run ++ after)) O' met

/-- A path through statements in order; absent ones are passed over. -/
inductive RunsAll (E : Setting) (passOn : Bool) :
    Origins → List (Option NodeId) → Origins → Set String → Prop
  | nil {O : Origins} : RunsAll E passOn O [] O ∅
  | skip {O O' : Origins} {met : Set String} {c : Option NodeId} {rest : List (Option NodeId)}
    (hc : E.graph.at? c = none) (h : RunsAll E passOn O rest O' met) :
    RunsAll E passOn O (c :: rest) O' met
  | cons {O O₁ O' : Origins} {met met' : Set String} {c : Option NodeId} {n : Node}
    {rest : List (Option NodeId)} (hn : E.graph.at? c = some n)
    (hfirst : Runs E passOn O n.form O₁ met) (hrest : RunsAll E passOn O₁ rest O' met') :
    RunsAll E passOn O (c :: rest) O' (met ∪ met')

end

/-! ### Loop-free code has no cycles -/

section
variable {E : Setting} {passOn : Bool} {fn : NodeId}

theorem founded_name {c : Option NodeId} {x : String} {line : Int}
    (h : E.graph.name? c = some (x, line)) : E.graph.Founded c := by
  refine Graph.founded_of_children fun n hn a ha => ?_
  unfold Graph.name? at h
  rw [hn] at h
  split at h
  · rename_i heq
    obtain rfl := Option.some.inj heq
    cases ha
  · cases h

/-- Expressions are finite, so there is no cycle below them. -/
theorem IsExpr.founded {form : Form} (h : IsExpr E form) :
    ∀ a ∈ form.children, E.graph.Founded a := by
  induction h with
  | name _ | literal _ _ _ | thisRef => exact fun a ha => absurd ha List.not_mem_nil
  | source hcallee =>
    intro a ha
    rw [List.mem_singleton.mp ha]
    exact founded_name hcallee
  | call hcallee _ _ _ ih =>
    intro a ha
    rcases List.mem_cons.mp ha with rfl | ha
    · exact founded_name hcallee
    · exact Graph.founded_of_children (ih a ha)
  | compound _ _ ih => exact fun a ha => Graph.founded_of_children (ih a ha)

theorem IsTarget.founded {t : Option NodeId} {target : Target} (h : IsTarget E t target) :
    E.graph.Founded t := by
  cases h with
  | name h => exact founded_name h
  | pattern h hnames =>
    refine Graph.founded_of_children fun n hn a ha => ?_
    obtain rfl := Option.some.inj (h.symm.trans hn)
    simp only [Form.children, List.append_nil, List.mem_map] at ha
    obtain ⟨b, hb, rfl⟩ := ha
    obtain ⟨⟨x, line⟩, hx⟩ := Option.isSome_iff_exists.mp (hnames b hb)
    exact founded_name hx
  | member h hexpr _ =>
    refine Graph.founded_of_children fun n hn => ?_
    obtain rfl := Option.some.inj (h.symm.trans hn)
    exact hexpr.founded

theorem founded_pair {a b : Option NodeId} (ha : E.graph.Founded a) (hb : E.graph.Founded b) :
    ∀ c ∈ [a, b], E.graph.Founded c := by
  intro c hc
  rcases List.mem_cons.mp hc with rfl | hc
  · exact ha
  · rw [List.mem_singleton.mp hc]
    exact hb

theorem IsValue.founded {form : Form} (h : IsValue E passOn form) :
    ∀ a ∈ form.children, E.graph.Founded a := by
  induction h with
  | expr h => exact h.founded
  | assign ht _ hn _ ih =>
    exact founded_present (founded_pair ht.founded (founded_of_at? hn ih))

theorem founded_clause {c : NodeId} {n : Node} (hn : E.graph.node? c = some n)
    (hclause : ∃ test body, n.form = .clause test body ∧
      ∀ m, E.graph.at? test = some m → IsExpr E m.form)
    (hbody : ∀ a ∈ clauseBody E.graph c, E.graph.Founded a) :
    ∀ a ∈ n.form.children, E.graph.Founded a := by
  obtain ⟨line, form⟩ := n
  obtain ⟨test, body, rfl, htest⟩ := hclause
  intro a ha
  rcases List.mem_append.mp ha with ha | ha
  · refine founded_present (fun b hb => ?_) a ha
    rw [List.mem_singleton.mp hb]
    exact Graph.founded_of_children fun m hm => (htest m hm).founded
  · refine hbody a ?_
    unfold clauseBody
    rw [hn]
    exact ha

theorem IsStmt.founded {form : Form} (h : IsStmt E passOn fn form) :
    ∀ a ∈ form.children, E.graph.Founded a := by
  induction h with
  | bare ht => exact founded_present (founded_pair ht.founded Graph.founded_none)
  | bind ht hn hv =>
    exact founded_present (founded_pair ht.founded (founded_of_at? hn hv.founded))
  | assign ht hn hv =>
    exact founded_present (founded_pair ht.founded (founded_of_at? hn hv.founded))
  | declare _ ih => exact fun a ha => Graph.founded_of_children (ih a ha)
  | method _ hn hexpr _ hargs =>
    intro a ha
    rcases List.mem_cons.mp ha with rfl | ha
    · exact founded_of_at? hn hexpr.founded
    · obtain ⟨⟨y, line⟩, hy⟩ := Option.isSome_iff_exists.mp (hargs a ha)
      exact founded_name hy
  | sink hcallee hy =>
    exact founded_pair (founded_name hcallee) (founded_name hy)
  | block _ ih => exact fun a ha => Graph.founded_of_children (ih a ha)
  | branch htest _ _ _ ihyes ihno =>
    refine founded_present ?_
    simp only [List.forall_mem_cons, List.not_mem_nil, false_imp_iff, implies_true, and_true]
    exact ⟨Graph.founded_none, founded_name htest, Graph.founded_none,
      Graph.founded_of_children ihyes, Graph.founded_none, Graph.founded_of_children ihno⟩
  | switch hdiscriminant hclauses _ ih =>
    intro a ha
    rcases List.mem_append.mp ha with ha | ha
    · refine founded_present (fun b hb => ?_) a ha
      rw [List.mem_singleton.mp hb]
      exact Graph.founded_of_children fun m hm => (hdiscriminant m hm).founded
    · obtain ⟨c, hc, rfl⟩ := List.mem_map.mp ha
      exact Graph.founded_of_children fun n hn => founded_clause hn (hclauses c hc n hn)
        fun b hb => Graph.founded_of_children (ih c hc b hb)

/-- A function of loop-free code has no node that stands below itself. -/
theorem not_cyclic_of_body {line : Int} {name : String} {params body : List (Option NodeId)}
    {locals : List String} (hfn : E.graph.node? fn = some ⟨line, .function name params body locals⟩)
    (hparams : ∀ c ∈ params, ∀ n, E.graph.at? c = some n → IsParam E.graph n.form)
    (hbody : ∀ c ∈ body, ∀ n, E.graph.at? c = some n → IsStmt E passOn fn n.form) :
    ¬ E.graph.Cyclic fn := by
  refine Graph.Founded.not_cyclic (founded_of_at? (c := some fn) hfn fun a ha => ?_)
  rcases List.mem_append.mp ha with ha | ha
  · refine Graph.founded_of_children fun n hn => ?_
    obtain ⟨_, form⟩ := n
    cases hparams a ha _ hn with
    | name x => exact fun b hb => absurd hb List.not_mem_nil
    | binding h =>
      exact founded_present (founded_pair (founded_name h) Graph.founded_none)
  · exact Graph.founded_of_children fun n hn => (hbody a ha n hn).founded

end

end TaintReach.LoopFree
