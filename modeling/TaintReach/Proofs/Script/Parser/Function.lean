import TaintReach.Proofs.Script.Parser.Pattern
import TaintReach.Proofs.Script.Parser.Triple
import TaintReach.Script.Parser.Class

/-! Functions, literals and classes are read in order.

`Grammar.Ordered` says of the parts of a grammar that they read in order. Given that,
so do the parses that are made of them. A function starts at a place that is noted
before it is read; behind its keyword, or the parenthesis of its parameters, that
place is past. -/
namespace TaintReach.Script.Parser

/-- What the parts of a grammar find starts in the order of the text. -/
structure Grammar.Ordered (G : Grammar) : Prop where
  expression : Reads G.expression (·.outline.starts)
  assignment : Reads G.assignment (·.outline.starts)
  unary : ReadsOpen G.unary (·.outline.starts)
  power : ReadsOpen G.power (·.outline.starts)
  relation : ReadsOpen G.relation (·.outline.starts)
  callable : ReadsOpen G.callable (·.outline.starts)
  constructed : ReadsOpen G.constructed (·.outline.starts)
  target : Reads G.target (·.outline.starts)
  statement : Reads G.statement (·.outline.starts)

/-- Where the functions in a parameter list start. -/
def Params.starts (r : Params) : List Nat :=
  r.list.flatMap (·.outline.starts) ++ (Pattern.outline? r.rest).starts

/-- A function, read from `xs` on, that starts at `pos`. -/
def Starting (pos : Pos) (xs : List Nat) (f : Function) (l : Place) : Prop :=
  f.start = pos.offset ∧ Past (xs ++ f.inner.starts) l

/-- If the start of the function is itself past, so is the function with all that is in it. -/
theorem Starting.past {pos : Pos} {xs : List Nat} {f : Function} {l : Place}
    (h : Starting pos (xs ++ [pos.offset]) f l) :
    Past (xs ++ (Outline.function f f.inner).starts) l := by
  obtain ⟨hstart, h⟩ := h
  rw [Outline.starts, hstart, List.append_cons]
  exact h

/-- Where the functions in a key start. -/
def Key.starts : Key → List Nat
  | .computed e => e.outline.starts
  | _ => []

/-- Behind a key that something starting at `n` begins with: if it is computed, `n` is
past and so are the functions in it. -/
def Keyed (xs : List Nat) (n : Nat) (key : Key) (l : Place) : Prop :=
  match key with
  | .computed e => Past (xs ++ n :: e.outline.starts) l
  | _ => Pending xs n l

section
variable {xs : List Nat} {n : Nat} {key : Key} {l : Place}

theorem Keyed.pending (h : Keyed xs n key l) : Pending xs n l := by
  cases key with
  | computed e => exact Past.pending_of_append h
  | _ => exact h

/-- For something that is no function, where it starts does not matter. -/
theorem Keyed.past (h : Keyed xs n key l) : Past (xs ++ Key.starts key) l := by
  cases key with
  | computed e => exact h.sublist ((List.Sublist.refl xs).append (List.sublist_cons_self n _))
  | _ => exact (List.append_nil xs).symm ▸ Pending.past h

end

variable {G : Grammar} (hG : G.Ordered)
include hG

/-! ### Blocks and function bodies -/

theorem reads_statements : Reads (statements G) (·.flatMap (·.outline.starts)) := by
  intro xs
  refine .loop (fun list => xs ++ list.reverse.flatMap (·.outline.starts)) (fun list => ?_) (by simp)
  refine Stays.token.andThen fun t => .ite (fun _ => .stop (.refl _)) fun _ => ?_
  refine Stays.andThen (.modify fun _ => rfl) fun _ => hG.statement.andThen fun s => ?_
  exact .again (by simp)

theorem reads_block : Reads (block G) (·.2.flatMap (·.outline.starts)) :=
  fun _ => (Keeps.expectMark _).andThen fun _ => (reads_statements hG).andThen fun _ =>
    (Keeps.expectMark _).discard.andThen fun _ => .give (.refl _)

theorem reads_functionBlock (async awaitReserved yieldReserved : Bool) :
    Reads (functionBlock G async awaitReserved yieldReserved) (·.flatMap (·.outline.starts)) :=
  fun xs => (reads_block hG xs).within.bind fun _ => .give (.refl _)

/-! ### Parameters -/

theorem reads_binding : Reads (binding G) (·.outline.starts) := by
  intro xs
  refine hG.target.andThen fun target => (Keeps.skipMark _).andThen fun _ => .ite (fun _ => ?_) ?_
  · exact hG.assignment.andThen fun value => .give (by simp)
  · exact fun _ => .give (by simp)

theorem reads_bindings : Reads (bindings G) (·.flatMap (·.outline.starts)) := by
  intro xs
  refine (reads_binding hG).andThen fun first => ?_
  refine .loop (fun list => xs ++ list.reverse.flatMap (·.outline.starts)) (fun list => ?_) (by simp)
  refine (Keeps.skipMark _).andThen fun _ => .ite (fun _ => ?_) fun _ => .stop (.refl _)
  exact (reads_binding hG).andThen fun b => .again (by simp)

/-- The parenthesis may be where the function itself starts: that place, at the end of `xs`,
is past only behind the mark. -/
theorem parameters_before (xs : List Nat) :
    Triple (Before (.punct "(") xs) (parameters G) fun r => Past (xs ++ r.starts) := by
  refine Triple.expect.discard.bind fun _ => Stays.context.andThen fun _ =>
    (Stays.setContext _).andThen fun _ => Triple.bind ?_ fun params =>
      (Keeps.expectMark _).discard.andThen fun _ => Stays.andThen (.modify fun _ => rfl) fun _ =>
        .give (.refl _)
  refine .loop (fun list => xs ++ list.reverse.flatMap (·.outline.starts)) (fun list => ?_) (by simp)
  refine (Stays.isAtMark _).andThen fun _ => .ite (fun _ => .stop (by simp [Params.starts])) fun _ => ?_
  refine (Keeps.skipMark _).andThen fun _ => .ite (fun _ => ?_) fun _ => ?_
  · refine hG.assignment.andThen fun e => ?_
    split
    · rename_i rest hrest
      exact .stop (by simpa [Params.starts] using Expr.starts_toBinding? hrest)
    · exact .failBind
  · refine (reads_binding hG).andThen fun b => (Stays.isAtMark _).andThen fun _ => ?_
    exact .whenever ((Keeps.expectMark _).discard _ steady_past) (.again (by simp))

theorem reads_parameters : Reads (parameters G) Params.starts :=
  fun xs => (parameters_before hG xs).pre fun _ h => h.before

/-- What has started before the parameters or at their parenthesis is past in them. -/
theorem parameters_pending (xs : List Nat) (n : Nat) :
    Triple (Pending xs n) (parameters G) fun r => Past (xs ++ n :: r.starts) := by
  refine (parameters_before hG (xs ++ [n])).mono (fun _ h => h.before rfl) fun r _ h => ?_
  rwa [← List.append_cons] at h

/-! ### Functions -/

/-- Behind the keyword the start of the function is past, and what is in it starts later. -/
theorem function_before {declaration async : Bool} {pos : Pos} (xs : List Nat) :
    Triple (Before (.keyword "function") xs) (function G declaration async pos)
      (Starting pos xs) := by
  refine Triple.expect.discard.bind fun _ => (Keeps.skipMark _).andThen fun _ =>
    Stays.context.andThen fun _ => .whenever (Stays.setContext _ _) ?_
  refine Stays.atName.andThen fun _ => .optionalOrFail (S := fun _ => Past xs)
    (Keeps.takeName _ steady_past) (fun _ h => h) fun name => .whenever (Stays.setContext _ _) ?_
  refine (reads_parameters hG).andThen fun params => (reads_functionBlock hG _ _ _).andThen fun body =>
    Stays.andThen (.modify fun _ => rfl) fun _ => .pure fun _ h => ⟨rfl, ?_⟩
  simpa [Params.starts] using h

/-- A method has no keyword; its start is past behind the parenthesis of its parameters. -/
theorem method_before {pos : Pos} {kind : MethodKind} {generator async : Bool} (xs : List Nat) :
    Triple (Before (.punct "(") xs) (method G pos kind generator async) (Starting pos xs) := by
  refine Stays.context.andThen fun _ => (Stays.setContext _).andThen fun _ =>
    (parameters_before hG xs).bind fun params => ?_
  extract_lets jp
  have hrest : Triple (Past (xs ++ params.starts)) (jp ()) (Starting pos xs) :=
    (reads_functionBlock hG _ _ _).andThen fun body => Stays.andThen (.modify fun _ => rfl) fun _ =>
      .pure fun _ h => ⟨rfl, by simpa [Params.starts] using h⟩
  cases kind with
  | getter | setter => exact .whenever .fail hrest
  | method => exact (Stays.pure ()).andThen fun _ => hrest

theorem function_pending {declaration async : Bool} {pos : Pos} (xs : List Nat) :
    Triple (Pending xs pos.offset) (function G declaration async pos)
      fun f => Past (xs ++ (Outline.function f f.inner).starts) :=
  (function_before hG _).mono (fun _ h => h.before rfl) fun _ _ h => h.past

theorem method_pending {pos : Pos} {kind : MethodKind} {generator async : Bool} (xs : List Nat) :
    Triple (Pending xs pos.offset) (method G pos kind generator async)
      fun f => Past (xs ++ (Outline.function f f.inner).starts) :=
  (method_before hG _).mono (fun _ h => h.before rfl) fun _ _ h => h.past

/-- The start is noted at `async`, before it is seen whether a function follows. -/
theorem reads_asyncFunction? (declaration : Bool) :
    Reads (asyncFunction? G declaration)
      fun o => o.elim [] fun f => (Outline.function f f.inner).starts := by
  intro xs
  refine Triple.noted.bind fun pos => Stays.peek.andThen fun _ => .ite (fun _ => ?_) fun _ => ?_
  · refine (Keeps.next _ steady_pending).bind fun _ => (function_pending hG xs).bind fun f => ?_
    exact .give (.refl _)
  · exact .pure fun _ h => by simpa using h.past

/-! ### Literals -/

theorem reads_spread : Reads (spread G) (·.outline.starts) :=
  fun _ => (Keeps.expectMark _).discard.andThen fun _ => hG.assignment.andThen fun _ =>
    .give (.refl _)

theorem reads_arrayLiteral : Reads (arrayLiteral G) (·.outline.starts) := by
  intro xs
  refine Stays.get.andThen fun _ => (Keeps.expectMark _).andThen fun pos => Triple.bind
    (Q := fun r => Past (xs ++ r.1.flatMap (·.outline.starts))) ?_
    fun (items, comma) => (Keeps.closeTarget _).andThen fun _ => .give (by simp)
  refine .loop (fun r => xs ++ r.1.reverse.flatMap (·.outline.starts)) (fun (items, comma) => ?_)
    (by simp)
  refine (Stays.isAtMark _).andThen fun _ => .ite (fun _ => .stop (.refl _)) fun _ => ?_
  refine (Keeps.skipMark _).andThen fun _ => .ite (fun _ => .again (by simp)) fun _ => ?_
  refine (Stays.isAtMark _).andThen fun _ => .branch (fun _ => reads_spread hG _)
    (fun _ => hG.assignment _) fun item => ?_
  refine (Stays.isAtMark _).andThen fun _ => .whenever ((Keeps.expectMark _).discard _ steady_past) ?_
  exact (Stays.get.bind fun _ => .pure _).andThen fun _ => .again (by simp)

/-- The bracket of a computed key puts the start of the property behind. -/
theorem propertyKey_pending (xs : List Nat) (n : Nat) :
    Triple (Pending xs n) (propertyKey G) fun k => Keyed xs n k.key := by
  refine Triple.skipPending.bind fun computed => .ite (fun hc => ?_) fun hc => ?_
  · rw [if_pos hc]
    refine hG.assignment.andThen fun e => (Keeps.expectMark _).discard.andThen fun _ => ?_
    exact .pure fun _ h => by simpa [Keyed] using h
  · rw [if_neg hc]
    refine Stays.get.andThen fun s => (Keeps.next _ steady_pending).bind fun _ => ?_
    simp only
    split
    · exact .pure fun _ h => h
    · exact .pure fun _ h => h
    · exact .pure fun _ h => h
    · exact .ite (fun _ => .pure fun _ h => h) fun _ => .fail

/-- The functions in a computed key start between the method and those in its body. -/
theorem method_keyed {pos : Pos} {kind : MethodKind} {generator async : Bool} {key : Key}
    (xs : List Nat) : Triple (Keyed xs pos.offset key) (method G pos kind generator async)
      fun f => Past (xs ++ (Property.keyed key (.function f) false).outline.starts) := by
  cases key with
  | computed e =>
    refine (method_before hG (xs ++ pos.offset :: e.outline.starts)).mono (fun _ h => Past.before h)
      fun f l h => ?_
    obtain ⟨hstart, h⟩ := h
    simpa [Outline.method, hstart] using h
  | _ => exact method_pending hG xs

/-- The start of a property is noted before its key, in case it is a method. -/
theorem reads_property : Reads (property G) (·.outline.starts) := by
  intro xs
  refine (Keeps.skipMark _).andThen fun _ => .ite
    (fun _ => hG.assignment.andThen fun _ => .give (.refl _)) fun _ => ?_
  refine Triple.noted.bind fun pos => (Keeps.skipMark _ _ steady_pending).bind fun generator =>
    (propertyKey_pending hG _ _).bind fun k => ?_
  refine .ite (fun _ => (method_keyed hG xs).bind fun _ => .give (.refl _)) fun _ =>
    Stays.token.andThen fun t => ?_
  refine .ite (fun _ => (method_keyed hG xs).bind fun _ => .give (.refl _)) fun _ =>
    .ite (fun _ => ?_) fun _ => .ite (fun _ => ?_) fun _ => ?_
  · -- a name that stands for a variable
    refine Triple.pre (P := Past xs) ?_ fun _ h => h.pending.past
    refine Stays.context.andThen fun _ => .whenever .fail ?_
    refine (Keeps.skipMark _).andThen fun _ =>
      .optional (S := fun o => Past (xs ++ (Expr.outline? o).starts)) (hG.assignment xs)
        (fun _ h => by simpa using h) fun _ => .give (.refl _)
  · -- an accessor or asynchronous method, whose own key follows
    refine Triple.pre (P := Pending xs pos.offset) ?_ fun _ h => h.pending
    exact (propertyKey_pending hG _ _).bind fun inner => (method_keyed hG xs).bind fun _ =>
      .give (.refl _)
  · refine Triple.pre (P := Past (xs ++ Key.starts k.key)) ?_ fun _ h => h.past
    refine (Keeps.expectMark _).discard.andThen fun _ => hG.assignment.andThen fun value =>
      .give ?_
    cases k.key <;> simp [Key.starts]

theorem reads_objectLiteral : Reads (objectLiteral G) (·.outline.starts) := by
  intro xs
  refine (Keeps.expectMark _).andThen fun pos => Triple.bind
    (Q := fun r => Past (xs ++ r.flatMap (·.outline.starts))) ?_
    fun properties => (Keeps.closeTarget _).andThen fun _ => .give (by simp)
  refine .loop (fun list => xs ++ list.reverse.flatMap (·.outline.starts)) (fun list => ?_) (by simp)
  refine (Stays.isAtMark _).andThen fun _ => .ite (fun _ => .stop (.refl _)) fun _ => ?_
  refine (reads_property hG).andThen fun p => (Stays.isAtMark _).andThen fun _ => ?_
  exact .whenever ((Keeps.expectMark _).discard _ steady_past) (.again (by simp))

/-- A pattern is an array or object literal read again, which changes no order. -/
theorem reads_declaredTarget : Reads (declaredTarget G) (·.outline.starts) := by
  intro xs
  refine Stays.position.andThen fun pos => Stays.atName.andThen fun _ => .ite (fun _ => ?_) fun _ => ?_
  · exact Keeps.takeName.andThen fun _ => .give (by simp)
  refine (Stays.isAtMark _).andThen fun _ => ?_
  extract_lets jp
  have hrest : ∀ literal : Expr, Triple (Past (xs ++ literal.outline.starts)) (jp literal)
      fun p => Past (xs ++ p.outline.starts) := by
    intro literal
    simp only [jp]
    split
    · rename_i target htarget
      exact .give ((List.Sublist.refl xs).append (Expr.starts_toBinding? htarget))
    · exact .fail
  refine (Stays.isAtMark _).andThen fun _ => .ite
    (fun _ => (reads_arrayLiteral hG).andThen hrest) fun _ => ?_
  exact .ite (fun _ => (reads_objectLiteral hG).andThen hrest) fun _ => .failBind

/-! ### Classes -/

omit hG in
theorem Stays.isModifier : Stays isModifier := Stays.peek.bind fun _ => .pure _

omit hG in
theorem Keeps.modifiers : Keeps modifiers := by
  refine Stays.get.keeps.bind fun s => ?_
  extract_lets word jp
  have hrest : ∀ found, Keeps (jp found) :=
    fun _ => (Keeps.skipMark _).bind fun _ => .ite (.pure _) (.pure _)
  have hword : ∀ found, Keeps (isModifier >>= fun b =>
      if b = true then Parser.next >>= fun _ => Pure.pure found >>= jp else Pure.pure {} >>= jp) :=
    fun _ => Stays.isModifier.keeps.bind fun _ => .ite
      (Keeps.next.bind fun _ => (Keeps.pure _).bind hrest) ((Keeps.pure _).bind hrest)
  exact .ite (hword _) (.ite (hword _) ((Keeps.pure _).bind hrest))

/-- The outline leaves out what starts in the key of a member, so behind the key only the
start of the member counts. -/
theorem reads_methodOrField (isStatic : Bool) :
    Reads (methodOrField G isStatic) (·.outline.starts) := by
  intro xs
  refine Triple.noted.bind fun pos => (Keeps.modifiers _ steady_pending).bind fun m =>
    (propertyKey_pending hG _ _).bind fun k => .whenever .fail ?_
  refine Triple.pre (P := Pending xs pos.offset) ?_ fun _ h => h.pending
  refine (Stays.isAtMark _).andThen fun _ => .branch (Q := fun _ => Pending xs pos.offset)
    (fun _ => Stays.pure _ _) (fun _ => Stays.pure _ _) fun kind => ?_
  cases kind with
  | some kind =>
    exact .whenever .fail ((method_pending hG xs).bind fun f => .give (.refl _))
  | none =>
    refine .whenever .fail (Triple.pre (P := Past xs) ?_ (fun _ h => h.past))
    refine (Keeps.skipMark _).andThen fun _ =>
      .optional (S := fun o => Past (xs ++ (Expr.outline? o).starts)) (hG.expression xs)
        (fun _ h => by simpa using h) fun _ => ?_
    exact Stays.token.andThen fun _ => Stays.afterBreak.andThen fun _ =>
      .whenever .fail (.give (.refl _))

theorem reads_member : Reads (member G) (·.outline.starts) := by
  intro xs
  refine Stays.token.andThen fun _ => .ite (fun _ => reads_methodOrField hG false xs) fun _ => ?_
  refine Stays.peek.andThen fun _ => .ite (fun _ => reads_methodOrField hG false xs) fun _ => ?_
  refine Keeps.next.andThen fun _ => (Stays.isAtMark _).andThen fun _ => .ite (fun _ => ?_) fun _ => ?_
  · exact (reads_functionBlock hG _ _ _).andThen fun _ => .give (by simp)
  · exact reads_methodOrField hG true xs

theorem reads_classBody (declaration : Bool) :
    Reads (classBody G declaration) (·.outline.starts) := by
  intro xs
  refine Stays.context.andThen fun _ => .whenever .fail ?_
  refine (Keeps.expectKeyword _).andThen fun pos => Stays.atName.andThen fun _ =>
    .optionalOrFail (S := fun _ => Past xs) (Keeps.takeName _ steady_past) (fun _ h => h) fun name => ?_
  refine (Stays.isAtMark _).andThen fun _ => ?_
  extract_lets jp
  have hmembers : ∀ superClass, Triple (Past (xs ++ (Expr.outline? superClass).starts))
      (jp superClass) fun c => Past (xs ++ c.outline.starts) := by
    intro superClass
    refine (Keeps.expectMark _).discard.andThen fun _ => Triple.bind
      (Q := fun ms => Past (xs ++ (Expr.outline? superClass).starts ++ ms.flatMap (·.outline.starts)))
      ?_ fun members => (Keeps.expectMark _).discard.andThen fun _ => .give (by simp)
    refine .loop (fun list => xs ++ (Expr.outline? superClass).starts ++
      list.reverse.flatMap (·.outline.starts)) (fun list => ?_) (by simp)
    refine (Stays.isAtMark _).andThen fun _ => .ite (fun _ => .stop (.refl _)) fun _ => ?_
    refine (Keeps.skipMark _).andThen fun _ => .ite (fun _ => .again (.refl _)) fun _ => ?_
    exact (reads_member hG).andThen fun _ => .again (by simp)
  refine .ite (fun _ => .pureBind ?_) fun _ => ?_
  · exact (hmembers none).pre fun _ h => by simpa using h
  · exact (Keeps.expectKeyword _).discard.andThen fun _ => hG.callable.reads.andThen fun e =>
      .pureBind (hmembers (some e))

end TaintReach.Script.Parser
