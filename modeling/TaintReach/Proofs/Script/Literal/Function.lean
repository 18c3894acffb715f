import TaintReach.Proofs.Script.Literal.Yield
import TaintReach.Script.Parser.Class

/-! The literals in functions, arrays, objects and classes.

`Grammar.Stands` says of the parts of a grammar that the literals in what they give stand
in the code. Given that, so do those in what is made of them. -/
namespace TaintReach.Script.Parser

/-- The literals in what the parts of a grammar give stand in the code. -/
structure Grammar.Stands (code : List Char) (G : Grammar) : Prop where
  expression : Yields code G.expression (AllStand code ·.literals)
  assignment : Yields code G.assignment (AllStand code ·.literals)
  unary : Yields code G.unary (AllStand code ·.literals)
  power : Yields code G.power (AllStand code ·.literals)
  relation : Yields code G.relation (AllStand code ·.literals)
  callable : Yields code G.callable (AllStand code ·.literals)
  constructed : Yields code G.constructed (AllStand code ·.literals)
  target : Yields code G.target (AllStand code ·.literals)
  statement : Yields code G.statement (AllStand code ·.literals)

/-- The literals in a parameter list. -/
@[simp] def Params.literals (r : Params) : List Expr :=
  Binding.literalsOf r.list ++ Pattern.literals? r.rest

variable {code : List Char} {G : Grammar} (hG : G.Stands code)
include hG

/-! ### Blocks and function bodies -/

theorem yields_statements :
    Yields code (statements G) fun list => ∀ s ∈ list, AllStand code s.literals := by
  refine .iterate (fun list => ∀ s ∈ list, AllStand code s.literals) (fun list hlist => ?_)
    (by simp)
  refine Moves.token.andThen fun _ => .ite (fun _ => .collected hlist) fun _ => ?_
  refine Moves.changeContext.andThen fun _ => hG.statement.bind fun s hs => ?_
  exact .collect hs hlist

theorem yields_block : Yields code (block G) fun r => ∀ s ∈ r.2, AllStand code s.literals :=
  (Moves.expectMark _).andThen fun _ => (yields_statements hG).bind fun _ hlist =>
    (Moves.expectMark _).discard.andThen fun _ => .pure hlist

/-- The surroundings of a body decide which words are reserved in it, not where its literals
stand. -/
theorem yields_functionBlock (async awaitReserved yieldReserved : Bool) :
    Yields code (functionBlock G async awaitReserved yieldReserved)
      fun list => ∀ s ∈ list, AllStand code s.literals :=
  (yields_block hG).within.bind fun _ hlist => .pure hlist

/-! ### Parameters -/

theorem yields_binding : Yields code (binding G) (AllStand code ·.literals) := by
  refine hG.target.bind fun target ht => (Moves.skipMark _).andThen fun _ => .ite (fun _ => ?_) ?_
  · exact hG.assignment.bind fun value hv => .pure (by simpa using ⟨ht, hv⟩)
  · exact fun _ => .pure (by simpa using ht)

theorem yields_bindings :
    Yields code (bindings G) fun list => ∀ b ∈ list, AllStand code b.literals := by
  refine (yields_binding hG).bind fun first hfirst => ?_
  refine .iterate (fun list => ∀ b ∈ list, AllStand code b.literals) (fun list hlist => ?_)
    (by simpa using hfirst)
  refine (Moves.skipMark _).andThen fun _ => .ite (fun _ => ?_) fun _ => .collected hlist
  exact (yields_binding hG).bind fun b hb => .collect hb hlist

/-- A rest parameter is read as an expression and then again as a pattern. -/
theorem yields_parameters : Yields code (parameters G) (AllStand code ·.literals) := by
  refine (Moves.expectMark _).discard.andThen fun _ => Moves.context.andThen fun _ =>
    (Moves.setContext _).andThen fun _ => Yields.bind (Q := (AllStand code ·.literals)) ?_
      fun params hparams => (Moves.expectMark _).discard.andThen fun _ =>
        Moves.changeContext.andThen fun _ => .pure hparams
  refine .iterate (fun list => ∀ b ∈ list, AllStand code b.literals) (fun list hlist => ?_)
    (by simp)
  refine (Moves.isAtMark _).andThen fun _ => .ite (fun _ => .stop (by simpa using hlist))
    fun _ => ?_
  refine (Moves.skipMark _).andThen fun _ => .ite (fun _ => ?_) fun _ => ?_
  · refine hG.assignment.bind fun e he => ?_
    split
    · rename_i rest hrest
      have hrest := he.sublist (Expr.literals_toBinding? hrest)
      exact .stop (by simpa using ⟨hlist, hrest⟩)
    · exact .failBind
  · refine (yields_binding hG).bind fun b hb => (Moves.isAtMark _).andThen fun _ => ?_
    exact .whenever (Moves.expectMark _).discard (.collect hb hlist)

/-! ### Functions -/

theorem yields_function (declaration async : Bool) (pos : Pos) :
    Yields code (function G declaration async pos) (AllStand code ·.literals) := by
  refine (Moves.expectKeyword _).discard.andThen fun _ => (Moves.skipMark _).andThen fun _ =>
    Moves.context.andThen fun _ => .whenever (Moves.setContext _) ?_
  refine Moves.atName.andThen fun _ => .optionalOrFail (S := fun _ => True) Moves.takeName trivial
    fun name _ => .whenever (Moves.setContext _) ?_
  refine (yields_parameters hG).bind fun params hparams =>
    (yields_functionBlock hG _ _ _).bind fun body hbody =>
      Moves.changeContext.andThen fun _ => .pure ?_
  simp_all

/-- An accessor with the wrong number of parameters is refused; otherwise the kinds of method
do not differ. -/
theorem yields_method (pos : Pos) (kind : MethodKind) (generator async : Bool) :
    Yields code (method G pos kind generator async) (AllStand code ·.literals) := by
  refine Moves.context.andThen fun _ => (Moves.setContext _).andThen fun _ =>
    (yields_parameters hG).bind fun params hparams => ?_
  extract_lets jp
  have hrest : Yields code (jp ()) (AllStand code ·.literals) :=
    (yields_functionBlock hG _ _ _).bind fun body hbody =>
      Moves.changeContext.andThen fun _ => .pure (by simp_all)
  cases kind with
  | getter | setter => exact .whenever Moves.fail hrest
  | method => exact .pureBind hrest

/-- Without a function there is nothing to say of literals, only that the parser is in the code. -/
theorem yields_asyncFunction? (declaration : Bool) : Yields code (asyncFunction? G declaration)
    fun f? => ∀ f, f? = some f → AllStand code f.literals := by
  refine Moves.position.andThen fun pos => Moves.peek.andThen fun _ =>
    .ite (fun _ => ?_) fun _ => ?_
  · refine Moves.next.andThen fun _ => (yields_function hG _ _ _).bind fun f hf => .pure ?_
    rintro _ ⟨⟩
    exact hf
  · exact .pure fun _ h => by cases h

/-! ### Arrays and objects -/

theorem yields_spread : Yields code (spread G) (AllStand code ·.literals) :=
  (Moves.expectMark _).discard.andThen fun _ => hG.assignment.bind fun _ he => .pure he

theorem yields_arrayLiteral : Yields code (arrayLiteral G) (AllStand code ·.literals) := by
  refine Moves.get.andThen fun _ => (Moves.expectMark _).andThen fun pos => Yields.bind
    (Q := fun r => ∀ e ∈ r.1, AllStand code e.literals) ?_
    fun (items, comma) hitems => (Moves.closeTarget _).andThen fun _ =>
      .pure (by simpa using hitems)
  refine .iterate (fun r => ∀ e ∈ r.1, AllStand code e.literals) (fun (items, comma) hitems => ?_)
    (by simp)
  refine (Moves.isAtMark _).andThen fun _ => .ite (fun _ => .stop (by simpa using hitems))
    fun _ => ?_
  refine (Moves.skipMark _).andThen fun _ => .ite
    (fun _ => .again (List.forall_mem_cons.mpr ⟨by simp, hitems⟩)) fun _ => ?_
  refine (Moves.isAtMark _).andThen fun _ => .branch (yields_spread hG) hG.assignment
    fun item hitem => ?_
  refine (Moves.isAtMark _).andThen fun _ => .whenever (Moves.expectMark _).discard ?_
  exact (Moves.get.bind fun _ => .pure _).andThen fun _ =>
    .again (List.forall_mem_cons.mpr ⟨hitem, hitems⟩)

/-- Only a computed key has literals: a string or number that is a key is no expression. -/
theorem yields_propertyKey : Yields code (propertyKey G) (AllStand code ·.key.literals) := by
  refine (Moves.skipMark _).andThen fun _ => .ite (fun _ => ?_) fun _ => ?_
  · exact hG.assignment.bind fun e he => (Moves.expectMark _).discard.andThen fun _ => .pure he
  · refine Moves.get.andThen fun s => Moves.next.andThen fun _ => ?_
    simp only
    split
    · exact .pure (by simp)
    · exact .pure (by simp)
    · exact .pure (by simp)
    · exact .ite (fun _ => .pure (by simp)) fun _ => .fail

/-- Methods of all kinds end in the same two steps (`hmethod`); the other forms of a property
are a spread, a variable of that name and a value behind a colon. -/
theorem yields_property : Yields code (property G) (AllStand code ·.literals) := by
  refine (Moves.skipMark _).andThen fun _ => .ite
    (fun _ => hG.assignment.bind fun _ he => .pure he) fun _ => ?_
  refine Moves.position.andThen fun pos => (Moves.skipMark _).andThen fun _ =>
    (yields_propertyKey hG).bind fun k hk => ?_
  have hmethod : ∀ {key : Key} (kind : MethodKind) (generator async : Bool),
      AllStand code key.literals → Yields code (method G pos kind generator async >>= fun f =>
        pure (Property.keyed key (.function f) false)) (AllStand code ·.literals) :=
    fun _ _ _ hkey => (yields_method hG _ _ _ _).bind fun f hf => .pure (by simpa using ⟨hkey, hf⟩)
  refine .ite (fun _ => hmethod _ _ _ hk) fun _ => Moves.token.andThen fun t => ?_
  refine .ite (fun _ => hmethod _ _ _ hk) fun _ => .ite (fun _ => ?_) fun _ => .ite (fun _ => ?_)
    fun _ => ?_
  · -- a name that stands for a variable
    refine Moves.context.andThen fun _ => .whenever Moves.fail ?_
    refine (Moves.skipMark _).andThen fun _ => .optional
      (S := fun o => AllStand code (Expr.literals? o)) hG.assignment (by simp) fun _ ho => .pure ho
  · -- an accessor or asynchronous method, whose own key follows
    exact (yields_propertyKey hG).bind fun inner hinner => hmethod _ _ _ hinner
  · exact (Moves.expectMark _).discard.andThen fun _ => hG.assignment.bind fun value hv =>
      .pure (by simpa using ⟨hk, hv⟩)

theorem yields_objectLiteral : Yields code (objectLiteral G) (AllStand code ·.literals) := by
  refine (Moves.expectMark _).andThen fun pos => Yields.bind
    (Q := fun list => ∀ p ∈ list, AllStand code p.literals) ?_
    fun properties hlist => (Moves.closeTarget _).andThen fun _ => .pure (by simpa using hlist)
  refine .iterate (fun list => ∀ p ∈ list, AllStand code p.literals) (fun list hlist => ?_)
    (by simp)
  refine (Moves.isAtMark _).andThen fun _ => .ite (fun _ => .collected hlist) fun _ => ?_
  refine (yields_property hG).bind fun p hp => (Moves.isAtMark _).andThen fun _ => ?_
  exact .whenever (Moves.expectMark _).discard (.collect hp hlist)

/-- A pattern is an array or object literal read again, so its literals are among those. -/
theorem yields_declaredTarget : Yields code (declaredTarget G) (AllStand code ·.literals) := by
  refine Moves.position.andThen fun pos => Moves.atName.andThen fun _ =>
    .ite (fun _ => ?_) fun _ => ?_
  · exact Moves.takeName.andThen fun _ => .pure (by simp)
  refine (Moves.isAtMark _).andThen fun _ => ?_
  extract_lets jp
  have hrest : ∀ literal : Expr, AllStand code literal.literals →
      Yields code (jp literal) (AllStand code ·.literals) := by
    intro literal hliteral
    simp only [jp]
    split
    · rename_i target htarget
      exact .pure (hliteral.sublist (Expr.literals_toBinding? htarget))
    · exact .fail
  refine (Moves.isAtMark _).andThen fun _ => .ite
    (fun _ => (yields_arrayLiteral hG).bind hrest) fun _ => ?_
  exact .ite (fun _ => (yields_objectLiteral hG).bind hrest) fun _ => .failBind

/-! ### Classes -/

omit hG in
theorem Moves.isModifier : Moves code isModifier := Moves.peek.bind fun _ => .pure _

omit hG in
/-- Whether a word is a modifier is seen from the token behind it, which is not taken. -/
theorem Moves.modifiers : Moves code modifiers := by
  refine Moves.get.bind fun s => ?_
  extract_lets word jp
  have hrest : ∀ found, Moves code (jp found) :=
    fun _ => (Moves.skipMark _).bind fun _ => .ite (.pure _) (.pure _)
  have hword : ∀ found, Moves code (Parser.isModifier >>= fun b =>
      if b = true then Parser.next >>= fun _ => Pure.pure found >>= jp else Pure.pure {} >>= jp) :=
    fun _ => Moves.isModifier.bind fun _ => .ite
      (Moves.next.bind fun _ => (Moves.pure _).bind hrest) ((Moves.pure _).bind hrest)
  exact .ite (hword _) (.ite (hword _) ((Moves.pure _).bind hrest))

theorem yields_methodOrField (isStatic : Bool) :
    Yields code (methodOrField G isStatic) (AllStand code ·.literals) := by
  refine Moves.position.andThen fun pos => Moves.modifiers.andThen fun m =>
    (yields_propertyKey hG).bind fun k hk => .whenever Moves.fail ?_
  refine (Moves.isAtMark _).andThen fun _ => .branch (Q := fun _ => True) (Moves.pure _)
    (Moves.pure _) fun kind _ => ?_
  cases kind with
  | some kind =>
    exact .whenever Moves.fail ((yields_method hG _ _ _ _).bind fun f hf =>
      .pure (by simpa using ⟨hk, hf⟩))
  | none =>
    refine .whenever Moves.fail ((Moves.skipMark _).andThen fun _ => .optional
      (S := fun o => AllStand code (Expr.literals? o)) hG.expression (by simp) fun o ho => ?_)
    exact Moves.token.andThen fun _ => Moves.afterBreak.andThen fun _ =>
      .whenever Moves.fail (.pure (by simpa using ⟨hk, ho⟩))

theorem yields_member : Yields code (member G) (AllStand code ·.literals) := by
  refine Moves.token.andThen fun _ => .ite (fun _ => yields_methodOrField hG false) fun _ => ?_
  refine Moves.peek.andThen fun _ => .ite (fun _ => yields_methodOrField hG false) fun _ => ?_
  refine Moves.next.andThen fun _ => (Moves.isAtMark _).andThen fun _ =>
    .ite (fun _ => ?_) fun _ => ?_
  · exact (yields_functionBlock hG _ _ _).bind fun _ hlist => .pure (by simpa using hlist)
  · exact yields_methodOrField hG true

/-- The members come behind the superclass if there is one, so that part is followed with
either (`hmembers`). -/
theorem yields_classBody (declaration : Bool) :
    Yields code (classBody G declaration) (AllStand code ·.literals) := by
  refine Moves.context.andThen fun _ => .whenever Moves.fail ?_
  refine (Moves.expectKeyword _).andThen fun pos => Moves.atName.andThen fun _ =>
    .optionalOrFail (S := fun _ => True) Moves.takeName trivial fun name _ => ?_
  refine (Moves.isAtMark _).andThen fun _ => ?_
  extract_lets jp
  have hmembers : ∀ superClass, AllStand code (Expr.literals? superClass) →
      Yields code (jp superClass) (AllStand code ·.literals) := by
    intro superClass hsuper
    refine (Moves.expectMark _).discard.andThen fun _ => Yields.bind
      (Q := fun list => ∀ m ∈ list, AllStand code m.literals) ?_
      fun members hlist => (Moves.expectMark _).discard.andThen fun _ =>
        .pure (by simpa using ⟨hsuper, hlist⟩)
    refine .iterate (fun list => ∀ m ∈ list, AllStand code m.literals) (fun list hlist => ?_)
      (by simp)
    refine (Moves.isAtMark _).andThen fun _ => .ite (fun _ => .collected hlist) fun _ => ?_
    refine (Moves.skipMark _).andThen fun _ => .ite (fun _ => .again hlist) fun _ => ?_
    exact (yields_member hG).bind fun m hm => .collect hm hlist
  refine .ite (fun _ => .pureBind (hmembers none (by simp))) fun _ => ?_
  exact (Moves.expectKeyword _).discard.andThen fun _ => hG.callable.bind fun e he =>
    .pureBind (hmembers (some e) he)

end TaintReach.Script.Parser
