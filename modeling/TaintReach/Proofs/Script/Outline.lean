import TaintReach.Proofs.Tree.Functions
import TaintReach.Proofs.Tree.Listing

/-! The functions of a script, as they stand in its text.

An `Outline` keeps of a piece of syntax the functions in it that the analysis gets to
see, and how they stand: one inside the other, one behind the other, and swapped where
the list of a program does not follow the text. There are two such places: a handler
is listed before the body it guards, and the computed key of a method before the
method, which starts with its key. The list of a program is that of its outline,
function by function (`functions_outlined`), and follows the text but for what is
swapped, if functions start one behind the other as they stand (`listing_ordered`). -/
namespace TaintReach.Script

/-- How many bytes of the text stand before a function. -/
def Function.start : Function → Nat
  | .mk pos _ _ _ _ => pos.offset

/-- The functions in a piece of syntax. -/
inductive Outline where
  | empty
  /-- A function and what is inside it. -/
  | function (f : Function) (inner : Outline)
  /-- Two pieces, one behind the other. -/
  | both (first second : Outline)
  /-- Two pieces, the second listed before the first. -/
  | swapped (first second : Outline)

namespace Outline

/-- The functions in the order in which a program lists them. -/
def listing : Outline → List Function
  | empty => []
  | function f inner => f :: inner.listing
  | both first second => first.listing ++ second.listing
  | swapped first second => second.listing ++ first.listing

/-- Where the functions start, in the order of the text. -/
@[simp] def starts : Outline → List Nat
  | empty => []
  | function f inner => f.start :: inner.starts
  | both first second | swapped first second => first.starts ++ second.starts

/-- `f` is listed before `g` though it stands behind it. -/
def Inverts (f g : Function) : Outline → Prop
  | empty => False
  | function _ inner => inner.Inverts f g
  | both first second => first.Inverts f g ∨ second.Inverts f g
  | swapped first second =>
    (f ∈ second.listing ∧ g ∈ first.listing) ∨ first.Inverts f g ∨ second.Inverts f g

/-- A method or accessor, as the value of a property, starts with the key. -/
def method (key : Outline) : Outline → Outline
  | function f inner => both (swapped (function f empty) key) inner
  | value => both key value

end Outline

/-! ### Outlines of syntax -/

mutual

@[simp] def Expr.outline : Expr → Outline
  | .template _ tag _ holes => .both (Expr.outline? tag) (Expr.outlines holes)
  | .array _ items _ | .sequence items => Expr.outlines items
  | .spread e | .unary _ _ e | .postfixOp _ e | .dot e _ | .await _ e | .chain e | .optional e =>
    e.outline
  | .object _ properties => Property.outlines properties
  | .assign _ target value => .both target.outline value.outline
  | .binary _ left right => .both left.outline right.outline
  | .call callee args | .construct _ callee args => .both callee.outline (Expr.outlines args)
  | .bracket object key => .both object.outline key.outline
  | .ternary test yes no => .both test.outline (.both yes.outline no.outline)
  | .function f | .arrow f => .function f f.inner
  | .classExpr c => c.outline
  | .yield _ argument => Expr.outline? argument
  | .identifier .. | .thisRef _ | .null _ | .boolean .. | .number .. | .string .. | .regexp ..
  | .gap | .privateDot _ | .superRef _ | .privateName _ | .newTarget _ => .empty

def Expr.outlines : List Expr → Outline
  | [] => .empty
  | e :: es => .both e.outline (Expr.outlines es)

@[simp] def Expr.outline? : Option Expr → Outline
  | none => .empty
  | some e => e.outline

@[simp] def Property.outline : Property → Outline
  | .keyed (.computed key) value true => .both key.outline value.outline
  | .keyed (.computed key) value false => key.outline.method value.outline
  | .keyed _ value _ => value.outline
  | .short _ _ default => Expr.outline? default
  | .spread e => e.outline

def Property.outlines : List Property → Outline
  | [] => .empty
  | p :: ps => .both p.outline (Property.outlines ps)

/-- The outline of what is assigned to. -/
@[simp] def Pattern.outline : Pattern → Outline
  | .name .. => .empty
  | .member e => e.outline
  | .withDefault target value => .both target.defaultsOutline value.outline
  | .array _ elements rest => .both (outlineOfElements elements) (outlineOfRest rest)
  | .object _ properties rest => .both (outlineOfProperties properties) (outlineOfRest rest)

/-- The outline of the default values in a pattern. -/
def Pattern.defaultsOutline : Pattern → Outline
  | .name .. | .member _ => .empty
  | .withDefault target value => .both target.defaultsOutline value.outline
  | .array _ elements rest => .both (outlineOfElements elements) (outlineOfRest rest)
  | .object _ properties rest => .both (outlineOfProperties properties) (outlineOfRest rest)

def outlineOfElements : List Pattern → Outline
  | [] => .empty
  | p :: ps => .both p.defaultsOutline (outlineOfElements ps)

def outlineOfProperties : List PatternProperty → Outline
  | [] => .empty
  | .short _ _ default :: ps => .both (Expr.outline? default) (outlineOfProperties ps)
  | .keyed _ value :: ps => .both value.defaultsOutline (outlineOfProperties ps)

def outlineOfRest : Option Pattern → Outline
  | none => .empty
  | some p => p.defaultsOutline

@[simp] def Pattern.outline? : Option Pattern → Outline
  | none => .empty
  | some p => p.outline

@[simp] def Binding.outline : Binding → Outline
  | .mk target init => .both target.outline (Expr.outline? init)

def Binding.outlines : List Binding → Outline
  | [] => .empty
  | b :: bs => .both b.outline (Binding.outlines bs)

/-- What is inside a function: its parameters and its body. -/
@[simp] def Function.inner : Function → Outline
  | .mk _ _ params rest body =>
    .both (.both (Binding.outlines params) (Pattern.outline? rest)) body.outline

@[simp] def FunctionBody.outline : FunctionBody → Outline
  | .block list => Stmt.outlines list
  | .concise value => value.outline

@[simp] def Class.outline : Class → Outline
  | .mk _ _ superClass members => .both (Expr.outline? superClass) (Member.outlines members)

@[simp] def Member.outline : Member → Outline
  | .method _ f => .function f f.inner
  | .field _ init => Expr.outline? init
  | .staticBlock _ => .empty

def Member.outlines : List Member → Outline
  | [] => .empty
  | m :: ms => .both m.outline (Member.outlines ms)

@[simp] def Stmt.outline : Stmt → Outline
  | .block _ list => Stmt.outlines list
  | .expression e => e.outline
  | .declare _ _ bindings => Binding.outlines bindings
  | .function f => .function f f.inner
  | .classDecl c => c.outline
  | .ifElse test yes no => .both test.outline (.both yes.outline (Stmt.outline? no))
  | .forLoop _ init test update body =>
    .both (Stmt.outline? init)
      (.both (Expr.outline? test) (.both (Expr.outline? update) body.outline))
  | .forEach _ _ _ target source body =>
    .both (.both target.outline source.outline) body.outline
  | .whileLoop _ test body => .both test.outline body.outline
  | .doLoop _ body test => .both body.outline test.outline
  | .switch _ discriminant clauses => .both discriminant.outline (Clause.outlines clauses)
  | .ret _ value => Expr.outline? value
  | .throw _ value => value.outline
  | .tryCatch _ body handler finalizer =>
    .both (.swapped body.outline (Handler.outline? handler)) (Stmt.outline? finalizer)
  | .labelled _ body => body.outline
  | .withObject _ object body => .both object.outline body.outline
  | .nothing => .empty

def Stmt.outlines : List Stmt → Outline
  | [] => .empty
  | s :: ss => .both s.outline (Stmt.outlines ss)

@[simp] def Stmt.outline? : Option Stmt → Outline
  | none => .empty
  | some s => s.outline

@[simp] def Clause.outline : Clause → Outline
  | .mk _ test body => .both (Expr.outline? test) (Stmt.outlines body)

def Clause.outlines : List Clause → Outline
  | [] => .empty
  | c :: cs => .both c.outline (Clause.outlines cs)

@[simp] def Handler.outline? : Option Handler → Outline
  | none => .empty
  | some (.mk _ param body) => .both (Pattern.outline? param) body.outline

end

/-! ### The order of the list -/

namespace Outline

variable {o first second : Outline} {f g : Function}

theorem start_mem (h : f ∈ o.listing) : f.start ∈ o.starts := by
  induction o with
  | empty => cases h
  | function m inner ih =>
    rcases List.mem_cons.mp h with rfl | h
    · exact List.mem_cons_self
    · exact List.mem_cons_of_mem _ (ih h)
  | both first second ih₁ ih₂ =>
    rcases List.mem_append.mp h with h | h
    · exact List.mem_append_left _ (ih₁ h)
    · exact List.mem_append_right _ (ih₂ h)
  | swapped first second ih₁ ih₂ =>
    rcases List.mem_append.mp h with h | h
    · exact List.mem_append_right _ (ih₂ h)
    · exact List.mem_append_left _ (ih₁ h)

/-- Functions that are inverted are both listed. -/
theorem Inverts.mem (h : o.Inverts f g) : f ∈ o.listing ∧ g ∈ o.listing := by
  induction o with
  | empty => cases h
  | function m inner ih =>
    obtain ⟨hf, hg⟩ := ih h
    exact ⟨List.mem_cons_of_mem _ hf, List.mem_cons_of_mem _ hg⟩
  | both first second ih₁ ih₂ =>
    simp only [listing, List.mem_append]
    rcases h with h | h
    · exact ⟨Or.inl (ih₁ h).1, Or.inl (ih₁ h).2⟩
    · exact ⟨Or.inr (ih₂ h).1, Or.inr (ih₂ h).2⟩
  | swapped first second ih₁ ih₂ =>
    simp only [listing, List.mem_append]
    rcases h with ⟨hf, hg⟩ | h | h
    · exact ⟨Or.inl hf, Or.inr hg⟩
    · exact ⟨Or.inr (ih₁ h).1, Or.inr (ih₁ h).2⟩
    · exact ⟨Or.inl (ih₂ h).1, Or.inl (ih₂ h).2⟩

theorem start_lt (h : ∀ x ∈ first.starts, ∀ y ∈ second.starts, x < y) (hf : f ∈ first.listing)
    (hg : g ∈ second.listing) : f.start < g.start :=
  h _ (start_mem hf) _ (start_mem hg)

/-- No function is in both of two pieces, as it would start before itself. -/
theorem disjoint (h : ∀ x ∈ first.starts, ∀ y ∈ second.starts, x < y) (hf : f ∈ first.listing) :
    f ∉ second.listing :=
  fun hf' => absurd (start_lt h hf hf') (Nat.lt_irrefl _)

/-- `f`, which is listed before `g`, starts before it and is not inverted with it, or
starts behind it and is. -/
def Agrees (o : Outline) (f g : Function) : Prop :=
  (f.start < g.start ∧ ¬ o.Inverts g f) ∨ (g.start < f.start ∧ o.Inverts f g)

/-- What agrees in a part agrees in the whole, if nothing else in the whole inverts it. -/
theorem Agrees.of_part {part : Outline} (h : part.Agrees f g) (hf : f ∈ part.listing)
    (hg : g ∈ part.listing) (hiff : ∀ f ∈ part.listing, ∀ g ∈ part.listing,
      o.Inverts f g ↔ part.Inverts f g) : o.Agrees f g := by
  unfold Agrees
  rwa [hiff f hf g hg, hiff g hg f hf]

/-- **A list follows the text but for what is inverted**, if functions start one behind
the other as they stand in the outline. -/
theorem listing_ordered (h : o.starts.Pairwise (· < ·)) : o.listing.Pairwise o.Agrees := by
  induction o with
  | empty => exact .nil
  | function m inner ih =>
    obtain ⟨hm, hinner⟩ := List.pairwise_cons.mp h
    refine List.pairwise_cons.mpr ⟨fun g hg => Or.inl ⟨hm _ (start_mem hg), ?_⟩, ih hinner⟩
    intro hinv
    have hmem : m ∈ inner.listing := (Inverts.mem (o := inner) hinv).2
    exact absurd (hm _ (start_mem hmem)) (Nat.lt_irrefl _)
  | both first second ih₁ ih₂ =>
    -- the two pieces share no function, so what is inverted in one is so in the whole
    obtain ⟨h₁, h₂, hlt⟩ := List.pairwise_append.mp h
    refine List.pairwise_append.mpr ⟨?_, ?_, fun f hf g hg => Or.inl ⟨start_lt hlt hf hg, ?_⟩⟩
    · refine (ih₁ h₁).imp_of_mem fun hf hg hagree => hagree.of_part hf hg fun f hf g _ => ?_
      exact or_iff_left fun hinv => disjoint hlt hf hinv.mem.1
    · refine (ih₂ h₂).imp_of_mem fun hf hg hagree => hagree.of_part hf hg fun f hf g _ => ?_
      exact or_iff_right fun hinv => disjoint hlt hinv.mem.1 hf
    · rintro (hinv | hinv)
      · exact disjoint hlt hinv.mem.1 hg
      · exact disjoint hlt hf hinv.mem.2
  | swapped first second ih₁ ih₂ =>
    obtain ⟨h₁, h₂, hlt⟩ := List.pairwise_append.mp h
    refine List.pairwise_append.mpr ⟨?_, ?_, fun f hf g hg => Or.inr ⟨start_lt hlt hg hf, ?_⟩⟩
    · refine (ih₂ h₂).imp_of_mem fun hf hg hagree => hagree.of_part hf hg fun f hf g hg => ?_
      refine ⟨?_, fun hinv => Or.inr (Or.inr hinv)⟩
      rintro (⟨_, hg'⟩ | hinv | hinv)
      · exact absurd hg (disjoint hlt hg')
      · exact absurd hg (disjoint hlt hinv.mem.2)
      · exact hinv
    · refine (ih₁ h₁).imp_of_mem fun hf hg hagree => hagree.of_part hf hg fun f hf g hg => ?_
      refine ⟨?_, fun hinv => Or.inr (Or.inl hinv)⟩
      rintro (⟨hf', _⟩ | hinv | hinv)
      · exact absurd hf' (disjoint hlt hf)
      · exact hinv
      · exact absurd hinv.mem.1 (disjoint hlt hf)
    · exact Or.inl ⟨hf, hg⟩

/-- So of two functions the one that starts first is listed first, unless they are
inverted. -/
theorem idx_lt_iff (h : o.starts.Pairwise (· < ·)) {i j : Nat} (hi : o.listing[i]? = some f)
    (hj : o.listing[j]? = some g) (hlt : f.start < g.start) : i < j ↔ ¬ o.Inverts g f := by
  have hpairs := List.pairwise_iff_getElem.mp (listing_ordered h)
  obtain ⟨hi', rfl⟩ := List.getElem?_eq_some_iff.mp hi
  obtain ⟨hj', rfl⟩ := List.getElem?_eq_some_iff.mp hj
  rcases Nat.lt_trichotomy i j with hij | rfl | hij
  · refine iff_of_true hij ?_
    rcases hpairs i j hi' hj' hij with ⟨_, hinv⟩ | ⟨hback, _⟩
    · exact hinv
    · exact absurd hlt (Nat.lt_asymm hback)
  · exact absurd hlt (Nat.lt_irrefl _)
  · refine iff_of_false (Nat.lt_asymm hij) (not_not_intro ?_)
    rcases hpairs j i hj' hi' hij with ⟨hback, _⟩ | ⟨_, hinv⟩
    · exact absurd hlt (Nat.lt_asymm hback)
    · exact hinv

end Outline

/-! ### The list of a program -/

/-- The tree is that of the function. -/
def Function.Lowers (f : Function) (t : Tree) : Prop := ∃ given, t = f.tree given

/-- The trees are those of the functions in the outline, as they are listed. -/
def Outline.Lists (o : Outline) (ts : List Tree) : Prop := List.Forall₂ Function.Lowers o.listing ts

namespace Outline.Lists

variable {o a b : Outline} {f : Function} {ts us : List Tree}

theorem empty : Outline.empty.Lists [] := .nil

theorem both (h : a.Lists ts) (k : b.Lists us) : (Outline.both a b).Lists (ts ++ us) :=
  List.rel_append h k

theorem swapped (h : a.Lists ts) (k : b.Lists us) : (Outline.swapped a b).Lists (us ++ ts) :=
  List.rel_append k h

/-- A computed key is listed before the method and what is in it, in one piece or in two. -/
theorem method (h : a.Lists ts) (k : b.Lists us) : (a.method b).Lists (ts ++ us) := by
  cases b with
  | function f inner =>
    have hlisting : (a.method (.function f inner)).listing = a.listing ++ f :: inner.listing :=
      List.append_assoc a.listing [f] inner.listing
    unfold Lists
    rw [hlisting]
    exact List.rel_append h k
  | _ => exact List.rel_append h k

theorem append_nil (h : o.Lists ts) : o.Lists (ts ++ []) := by
  rwa [List.append_nil]

/-- Trees side by side are listed one after the other. -/
theorem bothAll {ts us : List Tree} (h : a.Lists (functionsOfAll ts))
    (k : b.Lists (functionsOfAll us)) : (Outline.both a b).Lists (functionsOfAll (ts ++ us)) := by
  rw [functionsOfAll_append]
  exact h.both k

theorem snoc {t : Tree} {ts : List Tree} (h : a.Lists (functionsOfAll ts))
    (k : b.Lists t.functions) : (Outline.both a b).Lists (functionsOfAll (ts ++ [t])) :=
  h.bothAll (functionsOfAll_singleton t ▸ k)

theorem toList {t : Option Tree} (h : o.Lists (functionsOf? t)) :
    o.Lists (functionsOfAll t.toList) := by
  rwa [functionsOfAll_toList]

end Outline.Lists

open Outline (Lists)

mutual

/-- Case by case along the syntax, the functions that a tree lists are those of the outline. A
name that is given to a function does not matter. -/
theorem Expr.lists_tree (given : String) : (e : Expr) → e.outline.Lists (e.tree given).functions
  | .identifier .. | .thisRef _ | .null _ | .boolean .. | .number .. | .string .. | .regexp .. => .nil
  | .template _ none _ [] => .nil
  | .template _ none _ (e :: es) => Expr.lists_trees (e :: es)
  | .template _ (some tag) _ holes => (tag.lists_tree anonymous).both (Expr.lists_trees holes)
  | .array _ items _ => Expr.lists_trees items
  | .gap | .privateDot _ | .superRef _ | .privateName _ | .newTarget _ => .nil
  | .spread e | .chain e | .optional e => e.lists_tree anonymous
  | .object _ properties => Property.lists_trees properties
  | .assign _ target value => target.lists_tree.both (value.lists_tree target.label)
  | .binary _ left right =>
    (left.lists_tree anonymous).both (right.lists_tree anonymous).append_nil
  | .unary _ _ e | .postfixOp _ e | .await _ e | .dot e _ => (e.lists_tree anonymous).append_nil
  | .call callee args | .construct _ callee args =>
    (callee.lists_tree anonymous).both (Expr.lists_trees args)
  | .bracket object key => (object.lists_tree anonymous).both (key.lists_tree anonymous)
  | .ternary test yes no => (test.lists_tree anonymous).both
    ((yes.lists_tree anonymous).both (no.lists_tree anonymous).append_nil)
  | .sequence items => Expr.lists_trees items
  | .function f | .arrow f => f.lists_tree given
  | .classExpr c => c.lists_tree
  | .yield _ e => (Expr.lists_tree? e).toList

theorem Expr.lists_trees : (es : List Expr) →
    (Expr.outlines es).Lists (functionsOfAll (Expr.trees es))
  | [] => .nil
  | e :: es => by
    have he := e.lists_tree anonymous
    have hes := Expr.lists_trees es
    cases e with
    | gap => exact hes
    | _ => exact he.both hes

theorem Expr.lists_tree? : (e : Option Expr) → (Expr.outline? e).Lists (functionsOf? (Expr.tree? e))
  | none => .nil
  | some e => e.lists_tree anonymous

/-- A computed key comes before the value in a tree; if the value is a function, the outline
has it the other way round. -/
theorem Property.lists_trees : (ps : List Property) →
    (Property.outlines ps).Lists (functionsOfAll (Property.trees ps))
  | [] => .nil
  | .keyed (.computed key) value plain :: ps => by
    have hkey := key.lists_tree anonymous
    have hvalue := value.lists_tree (Key.computed key).label
    have hps := Property.lists_trees ps
    show (Outline.both _ _).Lists (_ ++ (_ ++ _))
    rw [← List.append_assoc]
    cases plain with
    | true => exact (hkey.both hvalue).both hps
    | false => exact (hkey.method hvalue).both hps
  | .keyed (.text _) value _ :: ps | .keyed (.number _) value _ :: ps
  | .keyed .hidden value _ :: ps => (value.lists_tree _).both (Property.lists_trees ps)
  | .short _ _ default :: ps =>
    ((Expr.lists_tree? default).toList).bothAll (Property.lists_trees ps)
  | .spread e :: ps => (e.lists_tree anonymous).both (Property.lists_trees ps)

theorem Pattern.lists_tree : (p : Pattern) → p.outline.Lists p.tree.functions
  | .name .. => .nil
  | .member e => e.lists_tree anonymous
  | .withDefault target value =>
    target.lists_defaults.snoc (value.lists_tree anonymous)
  | .array _ elements rest =>
    (lists_defaultsOfElements elements).bothAll (lists_defaultsOfRest rest)
  | .object _ properties rest =>
    (lists_defaultsOfProperties properties).bothAll (lists_defaultsOfRest rest)

/-- Of the targets inside of a pattern only the defaults get into the tree. -/
theorem Pattern.lists_defaults : (p : Pattern) → p.defaultsOutline.Lists (functionsOfAll p.defaults)
  | .name .. | .member _ => .nil
  | .withDefault target value =>
    target.lists_defaults.snoc (value.lists_tree anonymous)
  | .array _ elements rest =>
    (lists_defaultsOfElements elements).bothAll (lists_defaultsOfRest rest)
  | .object _ properties rest =>
    (lists_defaultsOfProperties properties).bothAll (lists_defaultsOfRest rest)

theorem lists_defaultsOfElements : (ps : List Pattern) →
    (outlineOfElements ps).Lists (functionsOfAll (defaultsOfElements ps))
  | [] => .nil
  | p :: ps => p.lists_defaults.bothAll (lists_defaultsOfElements ps)

theorem lists_defaultsOfProperties : (ps : List PatternProperty) →
    (outlineOfProperties ps).Lists (functionsOfAll (defaultsOfProperties ps))
  | [] => .nil
  | .short _ _ default :: ps =>
    ((Expr.lists_tree? default).toList).bothAll (lists_defaultsOfProperties ps)
  | .keyed _ value :: ps => value.lists_defaults.bothAll (lists_defaultsOfProperties ps)

theorem lists_defaultsOfRest : (rest : Option Pattern) →
    (outlineOfRest rest).Lists (functionsOfAll (defaultsOfRest rest))
  | none => .nil
  | some p => p.lists_defaults

theorem Binding.lists_trees : (bs : List Binding) →
    (Binding.outlines bs).Lists (functionsOfAll (Binding.trees bs))
  | [] => .nil
  | .mk target none :: bs =>
    (target.lists_tree.both .empty).both (Binding.lists_trees bs)
  | .mk target (some init) :: bs =>
    (target.lists_tree.both (init.lists_tree target.label)).both (Binding.lists_trees bs)

theorem Function.lists_tree (given : String) : (f : Function) →
    (Outline.function f f.inner).Lists (f.tree given).functions
  | .mk _ _ params rest body =>
    .cons ⟨given, rfl⟩ (((Binding.lists_trees params).bothAll (lists_restTree rest)).both
      body.lists_trees)

theorem lists_restTree : (rest : Option Pattern) →
    (Pattern.outline? rest).Lists (functionsOfAll (restTree rest))
  | none => .nil
  | some p => p.lists_tree.append_nil.append_nil

theorem FunctionBody.lists_trees : (body : FunctionBody) →
    body.outline.Lists (functionsOfAll body.trees)
  | .block list => Stmt.lists_trees list
  | .concise value => (value.lists_tree anonymous).append_nil.append_nil

/-- Keys of members and static blocks do not get into the tree, and neither do they into the
outline. -/
theorem Class.lists_tree : (c : Class) → c.outline.Lists c.tree.functions
  | .mk _ _ superClass members =>
    ((Expr.lists_tree? superClass).toList).bothAll (Member.lists_trees members)

theorem Member.lists_trees : (ms : List Member) →
    (Member.outlines ms).Lists (functionsOfAll (Member.trees ms))
  | [] => .nil
  | .method key f :: ms => (f.lists_tree key.label).both (Member.lists_trees ms)
  | .field _ none :: ms | .staticBlock _ :: ms => Member.lists_trees ms
  | .field key (some e) :: ms => (e.lists_tree key.label).both (Member.lists_trees ms)

/-- The one statement with parts that are swapped is `try`: its handler is listed first. -/
theorem Stmt.lists_tree? : (s : Stmt) → s.outline.Lists (functionsOf? s.tree?)
  | .block _ list => Stmt.lists_trees list
  | .expression e => e.lists_tree anonymous
  | .declare _ _ bindings => Binding.lists_trees bindings
  | .function f => f.lists_tree anonymous
  | .classDecl c => c.lists_tree
  | .ifElse test yes no =>
    (test.lists_tree anonymous).both (yes.lists_tree?.both (Stmt.lists_treeOf? no))
  | .forLoop _ init test update body => (Stmt.lists_treeOf? init).both
    ((Expr.lists_tree? test).both ((Expr.lists_tree? update).both body.lists_tree?.append_nil))
  | .forEach _ _ _ target source body =>
    (target.lists_tree.both (source.lists_tree anonymous)).both body.lists_tree?.append_nil
  | .whileLoop _ test body => (test.lists_tree anonymous).both body.lists_tree?.append_nil
  | .doLoop _ body test =>
    body.lists_tree?.toList.snoc (test.lists_tree anonymous)
  | .switch _ discriminant clauses =>
    (discriminant.lists_tree anonymous).both (Clause.lists_trees clauses)
  | .ret _ value => (Expr.lists_tree? value).toList
  | .throw _ value => (value.lists_tree anonymous).append_nil
  | .tryCatch _ body handler finalizer => by
    have hbody := body.lists_tree?
    refine (Lists.swapped ?_ (Handler.lists_tree? handler)).both (Stmt.lists_treeOf? finalizer)
    cases htree : body.tree? with
    | none =>
      rw [htree] at hbody
      exact hbody
    | some t =>
      rw [htree] at hbody
      exact hbody
  | .labelled _ body => body.lists_tree?
  | .withObject _ object body => (object.lists_tree anonymous).both body.lists_tree?.toList
  | .nothing => .nil

theorem Stmt.lists_trees : (ss : List Stmt) →
    (Stmt.outlines ss).Lists (functionsOfAll (Stmt.trees ss))
  | [] => .nil
  | s :: ss => s.lists_tree?.toList.bothAll (Stmt.lists_trees ss)

theorem Stmt.lists_treeOf? : (s : Option Stmt) →
    (Stmt.outline? s).Lists (functionsOf? (Stmt.treeOf? s))
  | none => .nil
  | some s => s.lists_tree?

theorem Clause.lists_trees : (cs : List Clause) →
    (Clause.outlines cs).Lists (functionsOfAll (Clause.trees cs))
  | [] => .nil
  | .mk _ test body :: cs =>
    ((Expr.lists_tree? test).both (Stmt.lists_trees body)).both (Clause.lists_trees cs)

theorem Handler.lists_tree? : (h : Option Handler) →
    (Handler.outline? h).Lists (functionsOf? (Handler.tree? h))
  | none => .nil
  | some (.mk _ none body) => body.lists_tree?.toList
  | some (.mk _ (some param) body) => param.lists_tree.append_nil.both body.lists_tree?.toList

end

/-- A function as a script has it, and the node it stands at. -/
def Function.StandsAt (g : Graph) (f : Function) (id : NodeId) : Prop :=
  ∃ given, g.Shows (f.tree given) id

/-- **The list of a program is that of its outline.** -/
theorem functions_outlined {load : String → Option String} {file code : String} {p : Program}
    (h : readWith load file code = .ok p) : ∃ ast, Parser.parse load file code = .ok ast ∧
      List.Forall₂ (Function.StandsAt p.graph) (Stmt.outlines ast).listing p.functions := by
  obtain ⟨ast, hast, rfl⟩ := exists_ast h
  have hshown := Program.functions_ofTrees file (Stmt.trees ast)
  refine ⟨ast, hast, List.forall₂_iff_get.mpr ⟨?_, fun i hi hj => ?_⟩⟩
  · exact (Stmt.lists_trees ast).length_eq.trans hshown.length_eq
  · have hlen := (Stmt.lists_trees ast).length_eq
    obtain ⟨given, htree⟩ := (Stmt.lists_trees ast).get hi (hlen ▸ hi)
    exact ⟨given, htree ▸ hshown.get (hlen ▸ hi) hj⟩

end TaintReach.Script
