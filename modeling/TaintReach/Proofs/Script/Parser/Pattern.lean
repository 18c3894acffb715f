import TaintReach.Proofs.Script.Outline

/-! Expressions read again as patterns.

An expression that turns out to be a target is turned into a pattern, and what the
analysis does not look at is dropped. Nothing is added and nothing moves: the functions
in the pattern are among those of the expression, in their order. -/
namespace TaintReach.Script

/-! ### Lists of syntax -/

/-- Where the functions of a list start, if each item stands behind those before it. -/
theorem Outline.starts_of_cons {α : Type} {item : α → Outline} {all : List α → Outline}
    (hnil : all [] = .empty) (hcons : ∀ a as, all (a :: as) = .both (item a) (all as))
    (as : List α) : (all as).starts = as.flatMap fun a => (item a).starts := by
  induction as with
  | nil => rw [hnil]; rfl
  | cons a as ih => rw [hcons, Outline.starts, ih, List.flatMap_cons]

@[simp] theorem Expr.starts_outlines (es : List Expr) :
    (Expr.outlines es).starts = es.flatMap (·.outline.starts) :=
  Outline.starts_of_cons rfl (fun _ _ => rfl) es

@[simp] theorem Property.starts_outlines (ps : List Property) :
    (Property.outlines ps).starts = ps.flatMap (·.outline.starts) :=
  Outline.starts_of_cons rfl (fun _ _ => rfl) ps

@[simp] theorem Binding.starts_outlines (bs : List Binding) :
    (Binding.outlines bs).starts = bs.flatMap (·.outline.starts) :=
  Outline.starts_of_cons rfl (fun _ _ => rfl) bs

@[simp] theorem Member.starts_outlines (ms : List Member) :
    (Member.outlines ms).starts = ms.flatMap (·.outline.starts) :=
  Outline.starts_of_cons rfl (fun _ _ => rfl) ms

@[simp] theorem Stmt.starts_outlines (ss : List Stmt) :
    (Stmt.outlines ss).starts = ss.flatMap (·.outline.starts) :=
  Outline.starts_of_cons rfl (fun _ _ => rfl) ss

@[simp] theorem Clause.starts_outlines (cs : List Clause) :
    (Clause.outlines cs).starts = cs.flatMap (·.outline.starts) :=
  Outline.starts_of_cons rfl (fun _ _ => rfl) cs

/-! ### Patterns -/

/-- Of a member that is assigned to, the outline of the defaults leaves out everything. -/
theorem Pattern.starts_defaults (p : Pattern) :
    p.defaultsOutline.starts.Sublist p.outline.starts := by
  cases p with
  | member e => exact List.nil_sublist _
  | _ => exact List.Sublist.refl _

theorem Expr.starts_toRest (e : Expr) : e.toRest.defaultsOutline.starts.Sublist e.outline.starts := by
  cases e with
  | assign operator target value =>
    exact target.starts_defaults.append (List.Sublist.refl value.outline.starts)
  | _ => exact List.nil_sublist _

mutual

/-- Read as a target, an expression keeps what is in its members and defaults, in order. -/
theorem Expr.starts_toTarget? {p : Pattern} :
    (e : Expr) → e.toTarget? = some p → p.outline.starts.Sublist e.outline.starts
  | .identifier .., h => by
    cases h
    exact List.nil_sublist _
  | .dot .., h | .privateDot _, h | .bracket .., h => by
    cases h
    exact List.Sublist.refl _
  | .array _ items comma, h => by
    obtain ⟨r, hr, rfl⟩ := Option.map_eq_some_iff.mp h
    exact starts_toElements? comma items hr
  | .object _ properties, h => by
    obtain ⟨r, hr, rfl⟩ := Option.map_eq_some_iff.mp h
    exact starts_toProperties? properties hr
  | .thisRef _, h | .null _, h | .boolean .., h | .number .., h | .string .., h | .regexp .., h
  | .template .., h | .gap, h | .spread _, h | .assign .., h | .binary .., h | .unary .., h
  | .postfixOp .., h | .call .., h | .construct .., h | .ternary .., h | .sequence _, h
  | .function _, h | .arrow _, h | .classExpr _, h | .await .., h | .yield .., h | .chain _, h
  | .optional _, h | .superRef _, h | .privateName _, h | .newTarget _, h => by cases h

/-- Inside of a pattern only the defaults are seen, so an element that is a member drops out. -/
theorem Expr.starts_toElement? {p : Pattern} :
    (e : Expr) → e.toElement? = some p → p.defaultsOutline.starts.Sublist e.outline.starts
  | .assign operator target value, h => by
    simp only [Expr.toElement?] at h
    split at h
    · cases h
      exact target.starts_defaults.append (List.Sublist.refl value.outline.starts)
    · cases h
  | .identifier .., h | .dot .., h | .privateDot _, h | .bracket .., h => by
    cases h
    exact List.nil_sublist _
  | .array _ items comma, h => by
    obtain ⟨r, hr, rfl⟩ := Option.map_eq_some_iff.mp h
    exact starts_toElements? comma items hr
  | .object _ properties, h => by
    obtain ⟨r, hr, rfl⟩ := Option.map_eq_some_iff.mp h
    exact starts_toProperties? properties hr
  | .thisRef _, h | .null _, h | .boolean .., h | .number .., h | .string .., h | .regexp .., h
  | .template .., h | .gap, h | .spread _, h | .binary .., h | .unary .., h
  | .postfixOp .., h | .call .., h | .construct .., h | .ternary .., h | .sequence _, h
  | .function _, h | .arrow _, h | .classExpr _, h | .await .., h | .yield .., h | .chain _, h
  | .optional _, h | .superRef _, h | .privateName _, h | .newTarget _, h => by cases h

/-- The same of the elements of an array, the last of which may be a rest element. -/
theorem starts_toElements? (comma : Bool) {r : List Pattern × Option Pattern} :
    (items : List Expr) → toElements? comma items = some r →
      ((outlineOfElements r.1).starts ++ (outlineOfRest r.2).starts).Sublist
        (Expr.outlines items).starts
  | [], h => by
    cases h
    exact List.Sublist.refl _
  | e :: items, h => by
    have helement := fun p => e.starts_toElement? (p := p)
    have hitems := fun r => starts_toElements? comma (r := r) items
    cases e with
    | gap => exact hitems r h
    | spread e =>
      simp only [toElements?] at h
      split at h
      · obtain ⟨rest, hrest, rfl⟩ := Option.map_eq_some_iff.mp h
        have hsub := rest.starts_defaults.trans (e.starts_toTarget? hrest)
        exact hsub.trans (List.sublist_append_left _ _)
      · cases h
    | _ =>
      simp only [toElements?] at h
      split at h
      · rename_i first elements rest hfirst hrest
        cases h
        rw [outlineOfElements, Outline.starts, List.append_assoc]
        exact (helement first hfirst).append (hitems (elements, rest) hrest)
      · cases h

/-- The same of the properties of an object. One that is a method is no pattern. -/
theorem starts_toProperties? {r : List PatternProperty × Option Pattern} :
    (properties : List Property) → toProperties? properties = some r →
      ((outlineOfProperties r.1).starts ++ (outlineOfRest r.2).starts).Sublist
        (Property.outlines properties).starts
  | [], h => by
    cases h
    exact List.Sublist.refl _
  | .short _ _ default :: properties, h => by
    obtain ⟨r, hr, rfl⟩ := Option.map_eq_some_iff.mp h
    rw [outlineOfProperties, Outline.starts, List.append_assoc]
    exact (List.Sublist.refl _).append (starts_toProperties? properties hr)
  | .keyed key value true :: properties, h => by
    simp only [toProperties?, if_true] at h
    split at h
    · rename_i first ps rest hfirst hrest
      cases h
      rw [outlineOfProperties, Outline.starts, List.append_assoc]
      refine ((value.starts_toElement? hfirst).trans ?_).append (starts_toProperties? properties hrest)
      cases key with
      | computed key => exact List.sublist_append_right _ _
      | _ => exact List.Sublist.refl _
    · cases h
  | .keyed key value false :: properties, h => by cases h
  | .spread e :: properties, h => by
    simp only [toProperties?] at h
    split at h
    · cases h
      exact e.starts_toRest.trans (List.sublist_append_left _ _)
    · cases h

end

theorem Expr.starts_toBinding? {e : Expr} {p : Pattern} (h : e.toBinding? = some p) :
    p.outline.starts.Sublist e.outline.starts :=
  e.starts_toTarget? (Option.filter_eq_some_iff.mp h).1

theorem Expr.starts_toParameter? {e : Expr} {b : Binding} (h : e.toParameter? = some b) :
    b.outline.starts.Sublist e.outline.starts := by
  unfold Expr.toParameter? at h
  split at h
  · split at h
    · cases h
      exact List.Sublist.refl _
    · cases h
  · obtain ⟨p, hp, rfl⟩ := Option.map_eq_some_iff.mp h
    simpa [Binding.outline, Expr.outline?, Outline.starts] using Expr.starts_toBinding? hp

theorem starts_toParameters? {es : List Expr} {bs : List Binding}
    (h : es.mapM Expr.toParameter? = some bs) :
    (bs.flatMap (·.outline.starts)).Sublist (es.flatMap (·.outline.starts)) := by
  induction es generalizing bs with
  | nil =>
    cases h
    exact List.Sublist.refl _
  | cons e es ih =>
    rw [List.mapM_cons] at h
    obtain ⟨b, hb, h⟩ := Option.bind_eq_some_iff.mp h
    obtain ⟨rest, hrest, h⟩ := Option.bind_eq_some_iff.mp h
    cases h
    exact (Expr.starts_toParameter? hb).append (ih hrest)

end TaintReach.Script
