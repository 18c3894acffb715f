import Mathlib.Data.List.Basic
import TaintReach.Script.Pattern

/-! The literals in a script.

Every literal expression counts, wherever it stands: in keys, defaults and the bodies of
functions, and also where the analysis does not look. An expression that is read again as
a pattern keeps its literals; none are added. -/
namespace TaintReach.Script

mutual

/-- The literals in an expression. A template is one if it has neither tag nor
substitutions. -/
@[simp] def Expr.literals : Expr → List Expr
  | .null pos => [.null pos]
  | .boolean pos value => [.boolean pos value]
  | .number pos raw value => [.number pos raw value]
  | .string pos raw units => [.string pos raw units]
  | .regexp pos raw => [.regexp pos raw]
  | .template pos none chunks [] => [.template pos none chunks []]
  | .template _ tag _ holes => Expr.literals? tag ++ Expr.literalsOf holes
  | .array _ items _ | .sequence items => Expr.literalsOf items
  | .spread e | .unary _ _ e | .postfixOp _ e | .dot e _ | .privateDot e | .await _ e | .chain e
  | .optional e => e.literals
  | .object _ properties => Property.literalsOf properties
  | .assign _ target value => target.literals ++ value.literals
  | .binary _ left right | .bracket left right => left.literals ++ right.literals
  | .call callee args | .construct _ callee args => callee.literals ++ Expr.literalsOf args
  | .ternary test yes no => test.literals ++ (yes.literals ++ no.literals)
  | .function f | .arrow f => f.literals
  | .classExpr c => c.literals
  | .yield _ argument => Expr.literals? argument
  | .identifier .. | .thisRef _ | .gap | .superRef _ | .privateName _ | .newTarget _ => []

def Expr.literalsOf : List Expr → List Expr
  | [] => []
  | e :: es => e.literals ++ Expr.literalsOf es

@[simp] def Expr.literals? : Option Expr → List Expr
  | none => []
  | some e => e.literals

@[simp] def Property.literals : Property → List Expr
  | .keyed key value _ => key.literals ++ value.literals
  | .short _ _ default => Expr.literals? default
  | .spread e => e.literals

def Property.literalsOf : List Property → List Expr
  | [] => []
  | p :: ps => p.literals ++ Property.literalsOf ps

@[simp] def Key.literals : Key → List Expr
  | .computed e => e.literals
  | .text _ | .number _ | .hidden => []

@[simp] def Pattern.literals : Pattern → List Expr
  | .name .. => []
  | .member e => e.literals
  | .withDefault target value => target.literals ++ value.literals
  | .array _ elements rest => Pattern.literalsOf elements ++ Pattern.literals? rest
  | .object _ properties rest => PatternProperty.literalsOf properties ++ Pattern.literals? rest

def Pattern.literalsOf : List Pattern → List Expr
  | [] => []
  | p :: ps => p.literals ++ Pattern.literalsOf ps

@[simp] def Pattern.literals? : Option Pattern → List Expr
  | none => []
  | some p => p.literals

@[simp] def PatternProperty.literals : PatternProperty → List Expr
  | .short _ _ default => Expr.literals? default
  | .keyed key value => key.literals ++ value.literals

def PatternProperty.literalsOf : List PatternProperty → List Expr
  | [] => []
  | p :: ps => p.literals ++ PatternProperty.literalsOf ps

@[simp] def Binding.literals : Binding → List Expr
  | .mk target init => target.literals ++ Expr.literals? init

def Binding.literalsOf : List Binding → List Expr
  | [] => []
  | b :: bs => b.literals ++ Binding.literalsOf bs

@[simp] def Function.literals : Function → List Expr
  | .mk _ _ params rest body =>
    Binding.literalsOf params ++ (Pattern.literals? rest ++ body.literals)

@[simp] def FunctionBody.literals : FunctionBody → List Expr
  | .block list => Stmt.literalsOf list
  | .concise value => value.literals

@[simp] def Class.literals : Class → List Expr
  | .mk _ _ superClass members => Expr.literals? superClass ++ Member.literalsOf members

@[simp] def Member.literals : Member → List Expr
  | .method key f => key.literals ++ f.literals
  | .field key init => key.literals ++ Expr.literals? init
  | .staticBlock body => Stmt.literalsOf body

def Member.literalsOf : List Member → List Expr
  | [] => []
  | m :: ms => m.literals ++ Member.literalsOf ms

@[simp] def Stmt.literals : Stmt → List Expr
  | .block _ list => Stmt.literalsOf list
  | .expression e => e.literals
  | .declare _ _ bindings => Binding.literalsOf bindings
  | .function f => f.literals
  | .classDecl c => c.literals
  | .ifElse test yes no => test.literals ++ (yes.literals ++ Stmt.literals? no)
  | .forLoop _ init test update body =>
    Stmt.literals? init ++ (Expr.literals? test ++ (Expr.literals? update ++ body.literals))
  | .forEach _ _ _ target source body => target.literals ++ (source.literals ++ body.literals)
  | .whileLoop _ test body | .doLoop _ body test => test.literals ++ body.literals
  | .switch _ discriminant clauses => discriminant.literals ++ Clause.literalsOf clauses
  | .ret _ value => Expr.literals? value
  | .throw _ value => value.literals
  | .tryCatch _ body handler finalizer =>
    body.literals ++ (Handler.literals? handler ++ Stmt.literals? finalizer)
  | .labelled _ body => body.literals
  | .withObject _ object body => object.literals ++ body.literals
  | .nothing => []

/-- The literals in a script. -/
def Stmt.literalsOf : List Stmt → List Expr
  | [] => []
  | s :: ss => s.literals ++ Stmt.literalsOf ss

@[simp] def Stmt.literals? : Option Stmt → List Expr
  | none => []
  | some s => s.literals

@[simp] def Clause.literals : Clause → List Expr
  | .mk _ test body => Expr.literals? test ++ Stmt.literalsOf body

def Clause.literalsOf : List Clause → List Expr
  | [] => []
  | c :: cs => c.literals ++ Clause.literalsOf cs

@[simp] def Handler.literals? : Option Handler → List Expr
  | none => []
  | some (.mk _ param body) => Pattern.literals? param ++ body.literals

end

/-- A template with a tag or a substitution is no literal; it has those of its parts. -/
theorem Expr.literals_template {pos : Pos} {tag : Option Expr} {chunks : List String}
    {holes : List Expr} (h : tag.isSome ∨ holes ≠ []) :
    (Expr.template pos tag chunks holes).literals =
      Expr.literals? tag ++ Expr.literalsOf holes := by
  cases tag with
  | some tag => rfl
  | none =>
    cases holes with
    | nil => simp at h
    | cons hole holes => rfl

/-! ### Lists of syntax -/

/-- The recursion that goes through a list of syntax, as a `flatMap`. -/
theorem flatMap_of_cons {α : Type} {item : α → List Expr} {all : List α → List Expr}
    (hnil : all [] = []) (hcons : ∀ a as, all (a :: as) = item a ++ all as) (as : List α) :
    all as = as.flatMap item := by
  induction as with
  | nil => exact hnil
  | cons a as ih => rw [hcons, ih, List.flatMap_cons]

@[simp] theorem Expr.literalsOf_eq (es : List Expr) :
    Expr.literalsOf es = es.flatMap (·.literals) :=
  flatMap_of_cons rfl (fun _ _ => rfl) es

@[simp] theorem Property.literalsOf_eq (ps : List Property) :
    Property.literalsOf ps = ps.flatMap (·.literals) :=
  flatMap_of_cons rfl (fun _ _ => rfl) ps

@[simp] theorem Pattern.literalsOf_eq (ps : List Pattern) :
    Pattern.literalsOf ps = ps.flatMap (·.literals) :=
  flatMap_of_cons rfl (fun _ _ => rfl) ps

@[simp] theorem PatternProperty.literalsOf_eq (ps : List PatternProperty) :
    PatternProperty.literalsOf ps = ps.flatMap (·.literals) :=
  flatMap_of_cons rfl (fun _ _ => rfl) ps

@[simp] theorem Binding.literalsOf_eq (bs : List Binding) :
    Binding.literalsOf bs = bs.flatMap (·.literals) :=
  flatMap_of_cons rfl (fun _ _ => rfl) bs

@[simp] theorem Member.literalsOf_eq (ms : List Member) :
    Member.literalsOf ms = ms.flatMap (·.literals) :=
  flatMap_of_cons rfl (fun _ _ => rfl) ms

@[simp] theorem Stmt.literalsOf_eq (ss : List Stmt) :
    Stmt.literalsOf ss = ss.flatMap (·.literals) :=
  flatMap_of_cons rfl (fun _ _ => rfl) ss

@[simp] theorem Clause.literalsOf_eq (cs : List Clause) :
    Clause.literalsOf cs = cs.flatMap (·.literals) :=
  flatMap_of_cons rfl (fun _ _ => rfl) cs

/-! ### Expressions read again as patterns -/

theorem Expr.literals_toRest (e : Expr) : e.toRest.literals.Sublist e.literals := by
  cases e with
  | identifier => exact List.nil_sublist _
  | _ => exact List.Sublist.refl _

mutual

/-- Read as a target, an expression has the literals of the members and defaults that it
keeps, in their order. Gaps go missing, but have none. -/
theorem Expr.literals_toTarget? {p : Pattern} :
    (e : Expr) → e.toTarget? = some p → p.literals.Sublist e.literals
  | .identifier .., h | .dot .., h | .privateDot _, h | .bracket .., h => by
    cases h
    exact List.Sublist.refl _
  | .array _ items comma, h => by
    obtain ⟨r, hr, rfl⟩ := Option.map_eq_some_iff.mp h
    exact literals_toElements? comma items hr
  | .object _ properties, h => by
    obtain ⟨r, hr, rfl⟩ := Option.map_eq_some_iff.mp h
    exact literals_toProperties? properties hr
  | .thisRef _, h | .null _, h | .boolean .., h | .number .., h | .string .., h | .regexp .., h
  | .template .., h | .gap, h | .spread _, h | .assign .., h | .binary .., h | .unary .., h
  | .postfixOp .., h | .call .., h | .construct .., h | .ternary .., h | .sequence _, h
  | .function _, h | .arrow _, h | .classExpr _, h | .await .., h | .yield .., h | .chain _, h
  | .optional _, h | .superRef _, h | .privateName _, h | .newTarget _, h => by cases h

/-- The same of an element, which is a target or an assignment that gives its default. -/
theorem Expr.literals_toElement? {p : Pattern} :
    (e : Expr) → e.toElement? = some p → p.literals.Sublist e.literals
  | .assign operator target value, h => by
    simp only [Expr.toElement?] at h
    split at h
    · cases h
      exact List.Sublist.refl _
    · cases h
  | .identifier .., h | .dot .., h | .privateDot _, h | .bracket .., h => by
    cases h
    exact List.Sublist.refl _
  | .array _ items comma, h => by
    obtain ⟨r, hr, rfl⟩ := Option.map_eq_some_iff.mp h
    exact literals_toElements? comma items hr
  | .object _ properties, h => by
    obtain ⟨r, hr, rfl⟩ := Option.map_eq_some_iff.mp h
    exact literals_toProperties? properties hr
  | .thisRef _, h | .null _, h | .boolean .., h | .number .., h | .string .., h | .regexp .., h
  | .template .., h | .gap, h | .spread _, h | .binary .., h | .unary .., h
  | .postfixOp .., h | .call .., h | .construct .., h | .ternary .., h | .sequence _, h
  | .function _, h | .arrow _, h | .classExpr _, h | .await .., h | .yield .., h | .chain _, h
  | .optional _, h | .superRef _, h | .privateName _, h | .newTarget _, h => by cases h

/-- The same of the elements of an array, the last of which may be a rest element. -/
theorem literals_toElements? (comma : Bool) {r : List Pattern × Option Pattern} :
    (items : List Expr) → toElements? comma items = some r →
      (Pattern.literalsOf r.1 ++ Pattern.literals? r.2).Sublist (Expr.literalsOf items)
  | [], h => by
    cases h
    exact List.nil_sublist _
  | e :: items, h => by
    have helement := fun p => e.literals_toElement? (p := p)
    have hitems := fun r => literals_toElements? comma (r := r) items
    cases e with
    | gap => exact hitems r h
    | spread e =>
      simp only [toElements?] at h
      split at h
      · obtain ⟨rest, hrest, rfl⟩ := Option.map_eq_some_iff.mp h
        exact (e.literals_toTarget? hrest).trans (List.sublist_append_left _ _)
      · cases h
    | _ =>
      simp only [toElements?] at h
      split at h
      · rename_i first elements rest hfirst hrest
        cases h
        rw [Pattern.literalsOf, List.append_assoc]
        exact (helement first hfirst).append (hitems (elements, rest) hrest)
      · cases h

/-- The same of the properties of an object. One that is a method is no pattern. -/
theorem literals_toProperties? {r : List PatternProperty × Option Pattern} :
    (properties : List Property) → toProperties? properties = some r →
      (PatternProperty.literalsOf r.1 ++ Pattern.literals? r.2).Sublist
        (Property.literalsOf properties)
  | [], h => by
    cases h
    exact List.nil_sublist _
  | .short _ _ default :: properties, h => by
    obtain ⟨r, hr, rfl⟩ := Option.map_eq_some_iff.mp h
    rw [PatternProperty.literalsOf, List.append_assoc]
    exact (List.Sublist.refl _).append (literals_toProperties? properties hr)
  | .keyed key value true :: properties, h => by
    simp only [toProperties?, if_true] at h
    split at h
    · rename_i first ps rest hfirst hrest
      cases h
      rw [PatternProperty.literalsOf, List.append_assoc]
      have hfirst := (List.Sublist.refl key.literals).append (value.literals_toElement? hfirst)
      exact hfirst.append (literals_toProperties? properties hrest)
    · cases h
  | .keyed key value false :: properties, h => by cases h
  | .spread e :: properties, h => by
    simp only [toProperties?] at h
    split at h
    · cases h
      exact e.literals_toRest.trans (List.sublist_append_left _ _)
    · cases h

end

theorem Expr.literals_toBinding? {e : Expr} {p : Pattern} (h : e.toBinding? = some p) :
    p.literals.Sublist e.literals :=
  e.literals_toTarget? (Option.filter_eq_some_iff.mp h).1

theorem Expr.literals_toParameter? {e : Expr} {b : Binding} (h : e.toParameter? = some b) :
    b.literals.Sublist e.literals := by
  unfold Expr.toParameter? at h
  split at h
  · split at h
    · cases h
      exact List.Sublist.refl _
    · cases h
  · obtain ⟨p, hp, rfl⟩ := Option.map_eq_some_iff.mp h
    simpa using Expr.literals_toBinding? hp

/-- Parenthesised items that turn out to be parameters keep their literals. -/
theorem literals_toParameters? {es : List Expr} {bs : List Binding}
    (h : es.mapM Expr.toParameter? = some bs) :
    (bs.flatMap (·.literals)).Sublist (es.flatMap (·.literals)) := by
  induction es generalizing bs with
  | nil =>
    cases h
    exact List.Sublist.refl _
  | cons e es ih =>
    rw [List.mapM_cons] at h
    obtain ⟨b, hb, h⟩ := Option.bind_eq_some_iff.mp h
    obtain ⟨rest, hrest, h⟩ := Option.bind_eq_some_iff.mp h
    cases h
    exact (Expr.literals_toParameter? hb).append (ih hrest)

end TaintReach.Script
