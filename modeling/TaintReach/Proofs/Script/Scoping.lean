import TaintReach.Script.Reading

/-! Lexical scoping inside a function.

A place in a function is given by the statement lists around it, from the inside
out (`Site`). Each list is a scope: a block, the single statement a branch of an
`if` guards, or the body of the function, to which its parameters and all its
`var`s belong. A name at that place is the one that the innermost scope with a
declaration of it declares, be that before or behind the place (`InForce`).

Beside this stand the declarations that are not in force: those of blocks that are
closed already (`Frame.closed`), and, in the scopes that are open, those that a
reader who goes through the text from the top, and takes note of `var`, `let` and
`const` only, has not noted (`Frame.unseen`). -/
namespace TaintReach.Script

/-! ### Declarations -/

/-- What a declaration says of its name. -/
inductive Declared where
  /-- It is a constant whose value is a literal of this truth. -/
  | literal (truthy : Bool)
  | other
deriving DecidableEq, Repr

/-- The truth of a literal. -/
def Expr.truth? : Expr → Option Bool
  | .null _ => some false
  | .boolean _ value => some value
  | .number _ _ value => some value.truthy
  | .string _ _ units => some (!units.isEmpty)
  | .regexp .. => some true
  | .template _ none chunks [] => some (chunks.any (· ≠ ""))
  | .spread e | .chain e | .optional e => e.truth?
  | _ => none

def Binding.declarations (kind : DeclKind) : Binding → List (String × Declared)
  | .mk (.name _ x) (some init) =>
    match kind, init.truth? with
    | .const, some truthy => [(x, .literal truthy)]
    | _, _ => [(x, .other)]
  | .mk target _ => target.idents.map (·, .other)

/-- The names of functions and classes that a statement declares. -/
def Stmt.definitions : Stmt → List String
  | .function (.mk _ name _ _ _) | .classDecl (.mk _ name _ _) => name.toList
  | _ => []

/-- The names that the declarators of a statement bind. -/
def Stmt.binds : Stmt → List String
  | .declare _ _ bindings => bindingIdents bindings
  | _ => []

/-- What a statement declares in the scope it stands in. -/
def Stmt.lexical : Stmt → List (String × Declared)
  | .declare _ .var _ => []
  | .declare _ kind bindings => bindings.flatMap (Binding.declarations kind)
  | s => s.definitions.map (·, .other)

mutual

/-- The `var`s in a statement, at any depth outside functions. -/
def Stmt.vars : Stmt → List String
  | .declare _ .var bindings => bindingIdents bindings
  | .block _ list => varsOfAll list
  | .ifElse _ yes no => yes.vars ++ varsOf? no
  | _ => []

def varsOfAll : List Stmt → List String
  | [] => []
  | s :: ss => s.vars ++ varsOfAll ss

def varsOf? : Option Stmt → List String
  | none => []
  | some s => s.vars

end

mutual

/-- What is declared in the scopes inside a statement. -/
def Stmt.inner : Stmt → List (String × Declared)
  | .block _ list => innerOfAll list
  | .ifElse _ yes no => yes.lexical ++ yes.inner ++ innerOf? no
  | _ => []

def innerOfAll : List Stmt → List (String × Declared)
  | [] => []
  | s :: ss => s.lexical ++ s.inner ++ innerOfAll ss

def innerOf? : Option Stmt → List (String × Declared)
  | none => []
  | some s => s.lexical ++ s.inner

end

/-! ### Functions -/

def Function.statements : Function → List Stmt
  | .mk _ _ _ _ (.block list) => list
  | .mk _ _ _ _ (.concise _) => []

/-- The names of a function's scope beside what its body declares: parameters and
`var`s. -/
def Function.names (f : Function) : List String :=
  (match f with
    | .mk _ _ params rest _ => bindingIdents params ++ (namesOfRest rest).map Prod.snd) ++
  varsOfAll f.statements

/-- A declared target is a name or a pattern. -/
def Binding.Named : Binding → Prop
  | .mk (.member _) _ => False
  | _ => True

/-- Blocks, declarations, expressions and `if`s. -/
inductive Stmt.Plain : Stmt → Prop
  | block (pos : Pos) {list : List Stmt} (h : ∀ s ∈ list, Plain s) : Plain (.block pos list)
  | declare (pos : Pos) (kind : DeclKind) {bindings : List Binding}
    (h : ∀ b ∈ bindings, b.Named) : Plain (.declare pos kind bindings)
  | expression (e : Expr) : Plain (.expression e)
  | function (f : Function) : Plain (.function f)
  | classDecl (c : Class) : Plain (.classDecl c)
  | ifThen (test : Expr) {yes : Stmt} (h : Plain yes) : Plain (.ifElse test yes none)
  | ifElse (test : Expr) {yes no : Stmt} (hyes : Plain yes) (hno : Plain no) :
    Plain (.ifElse test yes (some no))

/-- A function whose body is a block of such statements. -/
def Function.Plain : Function → Prop
  | .mk _ _ _ _ (.block list) => ∀ s ∈ list, s.Plain
  | .mk _ _ _ _ (.concise _) => False

theorem Function.Plain.statements {f : Function} (h : f.Plain) : ∀ s ∈ f.statements, s.Plain := by
  obtain ⟨_, _, _, _, body⟩ := f
  cases body with
  | block list => exact h
  | concise value => exact h.elim

/-! ### Places -/

/-- A list of statements, split at the one that holds the place. -/
structure Frame where
  /-- What belongs to the scope beside what the list declares. -/
  names : List String := []
  /-- The branch that is left out, for the list of an `else`. -/
  passed : List Stmt := []
  before : List Stmt := []
  current : Stmt
  after : List Stmt := []

namespace Frame

def declarations (f : Frame) : List (String × Declared) :=
  f.names.map (·, .other) ++ (f.before ++ f.current :: f.after).flatMap Stmt.lexical

def declares (x : String) (f : Frame) : Bool := f.declarations.any (·.1 = x)

/-- What is declared in scopes that are closed. -/
def closed (f : Frame) : List (String × Declared) :=
  innerOfAll f.passed ++ f.before.flatMap Stmt.inner

/-- The names that functions and classes before the place declare, or anything from
the place on. -/
def unseen (f : Frame) : List String :=
  f.before.flatMap Stmt.definitions ++ ((f.current :: f.after).flatMap Stmt.lexical).map Prod.fst

end Frame

/-- The lists around a place, the innermost first. -/
abbrev Site := List Frame

namespace Site

/-- The innermost scope that declares `x` declares it as `d`. -/
def InForce (site : Site) (x : String) (d : Declared) : Prop :=
  ∃ f ∈ site.find? (Frame.declares x), (x, d) ∈ f.declarations

/-- A closed scope declares `x` as a constant of this truth. -/
def Leaks (site : Site) (x : String) (truthy : Bool) : Prop :=
  ∃ f ∈ site, (x, .literal truthy) ∈ f.closed

/-- A scope declares `x` as a constant of this truth before the place, and one inside
it declares `x` again, unseen. -/
def Hides (site : Site) (x : String) (truthy : Bool) : Prop :=
  ∃ inner f outer, site = inner ++ f :: outer ∧
    (x, .literal truthy) ∈ f.before.flatMap Stmt.lexical ∧ ∃ g ∈ inner, x ∈ g.unseen

end Site

/-! ### What declarations say -/

/-- A literal is lowered to one. -/
theorem Expr.truth?_of_tree {given : String} {line : Int} {kind : LiteralKind} {raw : String}
    {truthy : Bool} : (e : Expr) → e.tree given = .literal line kind raw truthy →
      e.truth? = some truthy
  | .null _, h | .boolean .., h | .number .., h | .string .., h | .regexp .., h
  | .template _ none _ [], h => by
    cases h
    rfl
  | .spread e, h | .chain e, h | .optional e, h => e.truth?_of_tree h
  | .template _ none _ (_ :: _), h | .template _ (some _) _ _, h | .identifier .., h
  | .thisRef _, h | .array .., h | .gap, h | .object .., h | .assign .., h | .binary .., h
  | .unary .., h | .postfixOp .., h | .call .., h | .construct .., h | .dot .., h
  | .privateDot _, h | .bracket .., h | .ternary .., h | .sequence _, h | .function (.mk ..), h
  | .arrow (.mk ..), h | .classExpr (.mk ..), h | .await .., h | .yield .., h | .superRef _, h
  | .privateName _, h | .newTarget _, h => nomatch h

theorem Binding.mem_declarations {b : Binding} {kind : DeclKind} {x : String} {d : Declared}
    (h : (x, d) ∈ b.declarations kind) : x ∈ b.idents := by
  obtain ⟨target, init⟩ := b
  unfold declarations at h
  split at h
  · rename_i _ y _ heq
    cases heq
    have hx : x = y := by
      split at h <;> exact (Prod.mk.inj (List.mem_singleton.mp h)).1
    rw [hx]
    exact List.mem_singleton_self y
  · rename_i heq
    cases heq
    obtain ⟨y, hy, heq⟩ := List.mem_map.mp h
    obtain ⟨rfl, _⟩ := Prod.mk.inj heq
    exact hy

/-- A name is declared by a declarator, a function or a class. -/
theorem Stmt.mem_lexical {s : Stmt} {x : String} {d : Declared} (h : (x, d) ∈ s.lexical) :
    x ∈ s.binds ∨ x ∈ s.definitions := by
  unfold lexical at h
  split at h
  · cases h
  · obtain ⟨b, hb, hx⟩ := List.mem_flatMap.mp h
    exact .inl (List.mem_flatMap.mpr ⟨b, hb, Binding.mem_declarations hx⟩)
  · obtain ⟨y, hy, heq⟩ := List.mem_map.mp h
    obtain ⟨rfl, _⟩ := Prod.mk.inj heq
    exact .inr hy

theorem Frame.mem_unseen {f : Frame} {x : String} {d : Declared} (hnames : f.names = [])
    (hx : x ∉ f.before.flatMap Stmt.binds) (h : (x, d) ∈ f.declarations) : x ∈ f.unseen := by
  unfold declarations at h
  rw [hnames, List.flatMap_append] at h
  rcases List.mem_append.mp h with h | h
  · cases h
  rcases List.mem_append.mp h with h | h
  · obtain ⟨s, hs, hmem⟩ := List.mem_flatMap.mp h
    rcases Stmt.mem_lexical hmem with hbinds | hdefinition
    · exact absurd (List.mem_flatMap.mpr ⟨s, hs, hbinds⟩) hx
    · exact List.mem_append_left _ (List.mem_flatMap.mpr ⟨s, hs, hdefinition⟩)
  · exact List.mem_append_right _ (List.mem_map_of_mem h)

namespace Site

/-- What a reader has noted of `x` who goes through the text from the top, takes note
of `var`, `let` and `const`, and does not mind where blocks end. -/
def Noted (site : Site) (x : String) (truthy : Bool) : Prop :=
  site.Leaks x truthy ∨ ∃ inner f outer, site = inner ++ f :: outer ∧
    (x, .literal truthy) ∈ f.before.flatMap Stmt.lexical ∧
    ∀ g ∈ inner, g.names = [] ∧ x ∉ g.before.flatMap Stmt.binds

namespace Noted

variable {site outer : Site} {x : String} {truthy : Bool} {names : List String}
  {passed before after : List Stmt} {stmt next : Stmt}

/-- A list is entered. -/
theorem enter (h : Noted site x truthy) (passed : List Stmt) (stmt : Stmt) (after : List Stmt) :
    Noted ({ passed, current := stmt, after } :: site) x truthy := by
  rcases h with ⟨f, hf, hclosed⟩ | ⟨inner, f, outer, rfl, hconst, hinner⟩
  · exact .inl ⟨f, List.mem_cons_of_mem _ hf, hclosed⟩
  · refine .inr ⟨_ :: inner, f, outer, rfl, hconst, List.forall_mem_cons.mpr ⟨?_, hinner⟩⟩
    exact ⟨rfl, List.not_mem_nil⟩

/-- A statement that does not bind `x` is passed. -/
theorem pass (h : Noted (⟨names, passed, before, stmt, next :: after⟩ :: outer) x truthy)
    (hx : x ∉ stmt.binds) :
    Noted (⟨names, passed, before ++ [stmt], next, after⟩ :: outer) x truthy := by
  rcases h with ⟨f, hf, hclosed⟩ | ⟨inner, f, rest, hsite, hconst, hinner⟩
  · rcases List.mem_cons.mp hf with rfl | hf
    · refine .inl ⟨_, List.mem_cons_self, ?_⟩
      simp only [Frame.closed, List.flatMap_append]
      rw [← List.append_assoc]
      exact List.mem_append_left _ hclosed
    · exact .inl ⟨f, List.mem_cons_of_mem _ hf, hclosed⟩
  · cases inner with
    | nil =>
      obtain ⟨rfl, rfl⟩ := List.cons.inj hsite
      refine .inr ⟨[], _, outer, rfl, ?_, fun _ hg => by cases hg⟩
      rw [List.flatMap_append]
      exact List.mem_append_left _ hconst
    | cons g inner =>
      obtain ⟨rfl, rfl⟩ := List.cons.inj hsite
      obtain ⟨⟨hnames, hseen⟩, hinner⟩ := List.forall_mem_cons.mp hinner
      refine .inr ⟨_ :: inner, f, rest, rfl, hconst, List.forall_mem_cons.mpr ⟨⟨hnames, ?_⟩, hinner⟩⟩
      rw [List.flatMap_append]
      simp only [List.flatMap_singleton, List.mem_append, not_or]
      exact ⟨hseen, hx⟩

/-- A statement that declares `x`, here or inside, is passed. -/
theorem note (h : (x, .literal truthy) ∈ stmt.lexical ++ stmt.inner) :
    Noted (⟨names, passed, before ++ [stmt], next, after⟩ :: outer) x truthy := by
  rcases List.mem_append.mp h with h | h
  · refine .inr ⟨[], _, outer, rfl, ?_, fun _ hg => by cases hg⟩
    exact List.mem_flatMap.mpr ⟨stmt, List.mem_append_right _ List.mem_cons_self, h⟩
  · refine .inl ⟨_, List.mem_cons_self, List.mem_append_right _ ?_⟩
    exact List.mem_flatMap.mpr ⟨stmt, List.mem_append_right _ List.mem_cons_self, h⟩

/-- A branch that declares `x` is left for the other. -/
theorem leave (h : (x, .literal truthy) ∈ stmt.lexical ++ stmt.inner) :
    Noted ({ passed := [stmt], current := next } :: outer) x truthy := by
  refine .inl ⟨_, List.mem_cons_self, List.mem_append_left _ ?_⟩
  simpa only [innerOfAll, List.append_nil] using h

/-- **What was noted is in force, or it was noted in a block that is closed, or a
declaration that is not noted hides it.** -/
theorem inForce_or (h : Noted site x truthy) :
    site.InForce x (.literal truthy) ∨ site.Leaks x truthy ∨ site.Hides x truthy := by
  rcases h with hleaks | ⟨inner, f, outer, rfl, hconst, hinner⟩
  · exact .inr (.inl hleaks)
  have hdeclared : (x, .literal truthy) ∈ f.declarations := by
    unfold Frame.declarations
    rw [List.flatMap_append]
    exact List.mem_append_right _ (List.mem_append_left _ hconst)
  by_cases hagain : ∃ g ∈ inner, ∃ d, (x, d) ∈ g.declarations
  · obtain ⟨g, hg, d, hd⟩ := hagain
    obtain ⟨hnames, hseen⟩ := hinner g hg
    exact .inr (.inr ⟨inner, f, outer, rfl, hconst, g, hg, Frame.mem_unseen hnames hseen hd⟩)
  · refine .inl ⟨f, ?_, hdeclared⟩
    have hnone : inner.find? (Frame.declares x) = none := by
      rw [List.find?_eq_none]
      intro g hg hany
      obtain ⟨⟨y, d⟩, hmem, heq⟩ := List.any_eq_true.mp hany
      obtain rfl : y = x := of_decide_eq_true heq
      exact hagain ⟨g, hg, d, hmem⟩
    have hthis : Frame.declares x f = true :=
      List.any_eq_true.mpr ⟨_, hdeclared, decide_eq_true rfl⟩
    rw [List.find?_append, hnone, Option.none_or, List.find?_cons_of_pos hthis]
    rfl

end Noted

end Site

end TaintReach.Script
