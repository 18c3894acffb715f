import TaintReach.Proofs.Script.Literal.Expression
import TaintReach.Script.Parser

/-! The literals of a script.

Each level of the grammar gives literals that stand in the code, as the level below it does
(`stands_grammar`). So every literal of a script stands in its text (`stands_of_parse`). -/
namespace TaintReach.Script.Parser

variable {code : List Char}

theorem Moves.forbidLet : Moves code forbidLet := .modify fun _ h => ⟨h.current, h.after⟩

theorem Moves.headKeyword : Moves code headKeyword := by
  refine Moves.token.bind fun t => ?_
  split
  · exact .pure _
  · exact .pure _
  · exact Moves.peek.bind fun _ => .ite (.pure _) (.pure _)
  · exact .pure _

theorem Moves.enumerates : Moves code enumerates :=
  Moves.get.bind fun _ => .ite (Moves.next.bind fun _ => .pure _) <|
    .ite (Moves.next.bind fun _ => .pure _) (.pure _)

/-- What is put back behind the body of a loop is the context alone. -/
theorem Yields.inLoop {α : Type} {p : Parse α} {Q : α → Prop} (h : Yields code p Q) :
    Yields code (inLoop p) Q :=
  Moves.context.andThen fun _ => Moves.changeContext.andThen fun _ =>
    h.bind fun _ ha => Moves.changeContext.andThen fun _ => .pure ha

theorem yields_unlessMark {m : String} {p : Parse Expr}
    (h : Yields code p (AllStand code ·.literals)) :
    Yields code (unlessMark m p) fun o => AllStand code (Expr.literals? o) := by
  refine (Moves.isAtMark _).andThen fun _ => .ite (fun _ => .pure (by simp)) fun _ => ?_
  exact h.bind fun _ he => .pure he

/-- A jump has no literals. It has to be followed all the same, for where it leaves the parser. -/
theorem yields_jump (word : String) : Yields code (jump word) (AllStand code ·.literals) := by
  refine (Moves.expectKeyword _).discard.andThen fun _ => Moves.context.andThen fun _ =>
    Moves.afterBreak.andThen fun _ => (Moves.skipMark _).andThen fun _ =>
      (Moves.isAtMark _).andThen fun _ => ?_
  extract_lets _ _ jp
  have hrest : Yields code (jp ()) (AllStand code ·.literals) :=
    Moves.expectName.andThen fun _ => .whenever Moves.fail <| .whenever Moves.fail <|
      Moves.semicolon.andThen fun _ => .pure (by simp)
  refine .ite (fun _ => Moves.useBreak.andThen fun _ => .ite (fun _ => ?_) fun _ => .failBind)
    fun _ => hrest
  exact .pure (by simp)

/-- The literals in a loop head. -/
@[simp] def LoopHead.literals : LoopHead → List Expr
  | .counted init => Stmt.literals? init
  | .enumerated _ _ target => target.literals

variable {G : Grammar} (hG : G.Stands code)
include hG

theorem yields_single : Yields code (single G) (AllStand code ·.literals) :=
  Moves.forbidLet.andThen fun _ => hG.statement

theorem yields_blockStatement : Yields code (blockStatement G) (AllStand code ·.literals) :=
  (yields_block hG).bind fun _ hlist => .pure (by simpa using hlist)

theorem yields_guarded : Yields code (guarded G) (AllStand code ·.literals) :=
  (Moves.expectMark _).discard.andThen fun _ => hG.expression.bind fun _ he =>
    (Moves.expectMark _).discard.andThen fun _ => .pure he

/-- Declarations differ by their keyword and by where they are allowed, not by what is in them. -/
theorem yields_declaration (kind : DeclKind) (keyword : Token) :
    Yields code (declaration G kind keyword) (AllStand code ·.literals) := by
  refine Moves.position.andThen fun _ => Moves.context.andThen fun _ =>
    (Moves.expect _).discard.andThen fun _ => .whenever Moves.fail ?_
  exact (yields_bindings hG).bind fun _ hlist => .whenever Moves.fail <|
    Moves.semicolon.andThen fun _ => .pure (by simpa using hlist)

/-! ### Conditions and loops -/

theorem yields_ifStatement : Yields code (ifStatement G) (AllStand code ·.literals) := by
  refine (Moves.expectKeyword _).discard.andThen fun _ => (yields_guarded hG).bind fun test htest =>
    (Moves.isAtMark _).andThen fun _ => .branch (yields_blockStatement hG) (yields_single hG)
      fun yes hyes => ?_
  refine (Moves.isAt _).andThen fun _ => .ite (fun _ => ?_) fun _ =>
    .pure (by simpa using ⟨htest, hyes⟩)
  exact Moves.next.andThen fun _ => (yields_single hG).bind fun _ hno =>
    .pure (by simpa using ⟨htest, hyes, hno⟩)

theorem yields_loopBody : Yields code (loopBody G) (AllStand code ·.literals) :=
  (yields_single hG).inLoop

theorem yields_whileStatement : Yields code (whileStatement G) (AllStand code ·.literals) :=
  (Moves.expectKeyword _).andThen fun _ => (yields_guarded hG).bind fun _ htest =>
    (yields_loopBody hG).bind fun _ hbody => .pure (by simpa using ⟨htest, hbody⟩)

theorem yields_doStatement : Yields code (doStatement G) (AllStand code ·.literals) := by
  refine Yields.inLoop <| (Moves.expectKeyword _).andThen fun _ =>
    (Moves.isAtMark _).andThen fun _ => .branch (yields_blockStatement hG) (yields_single hG)
      fun body hbody => ?_
  exact (Moves.expectKeyword _).discard.andThen fun _ => (yields_guarded hG).bind fun _ htest =>
    (Moves.skipMark _).discard.andThen fun _ => .pure (by simpa using ⟨htest, hbody⟩)

/-- A head with one name can be of either kind of loop, and which shows behind the bindings;
a head with several can only be counted. -/
theorem yields_declaredHead (kind : DeclKind) :
    Yields code (declaredHead G kind) (AllStand code ·.literals) := by
  refine Moves.position.andThen fun pos => Moves.next.andThen fun _ =>
    (yields_bindings hG).bind fun list hlist => ?_
  extract_lets counted jp
  have hcounted : Yields code (counted ()) (AllStand code ·.literals) :=
    Moves.get.andThen fun _ => .pure (by simpa using hlist)
  have hrest : ∀ enumeration, Yields code (jp enumeration) (AllStand code ·.literals) := by
    intro enumeration
    simp only [jp]
    split
    · exact .pure (by simpa using hlist)
    · exact .fail
    · exact .whenever Moves.fail hcounted
  split
  · exact Moves.enumerates.andThen hrest
  · exact .pureBind (hrest none)

/-- The expression in front of `in` or `of` is read again as a target. -/
theorem yields_expressionHead : Yields code (expressionHead G) (AllStand code ·.literals) := by
  refine hG.expression.bind fun e he => Moves.enumerates.andThen fun enumeration => ?_
  split
  · exact .pure he
  · split
    · rename_i target htarget
      exact .pure (he.sublist (e.literals_toTarget? htarget))
    · exact .fail

theorem yields_loopHead : Yields code (loopHead G) (AllStand code ·.literals) := by
  refine (Moves.isAtMark _).andThen fun _ => .ite (fun _ => .pure (by simp)) fun _ =>
    Moves.context.andThen fun _ => Moves.changeContext.andThen fun _ =>
      Moves.headKeyword.andThen fun kind => ?_
  extract_lets jp
  have hrest : ∀ head, AllStand code head.literals →
      Yields code (jp head) (AllStand code ·.literals) :=
    fun _ hhead => Moves.changeContext.andThen fun _ => .pure hhead
  split
  · exact (yields_declaredHead hG _).bind hrest
  · exact (yields_expressionHead hG).bind hrest

theorem yields_forStatement : Yields code (forStatement G) (AllStand code ·.literals) := by
  refine (Moves.expectKeyword _).andThen fun pos => (Moves.expectMark _).discard.andThen fun _ =>
    (yields_loopHead hG).bind fun head hhead => ?_
  cases head with
  | enumerated kind declares target =>
    refine .branch hG.expression hG.assignment fun source hsource => ?_
    exact (Moves.expectMark _).discard.andThen fun _ => (yields_loopBody hG).bind fun _ hbody =>
      .pure (by simpa using ⟨hhead, hsource, hbody⟩)
  | counted init =>
    refine (Moves.expectMark _).discard.andThen fun _ => (yields_unlessMark hG.expression).bind
      fun test htest => (Moves.expectMark _).discard.andThen fun _ =>
        (yields_unlessMark hG.expression).bind fun step hstep => ?_
    exact (Moves.expectMark _).discard.andThen fun _ => (yields_loopBody hG).bind fun _ hbody =>
      .pure (by simpa using ⟨hhead, htest, hstep, hbody⟩)

/-! ### Switches -/

/-- A clause has no brace at its end: its statements run up to the next clause. -/
theorem yields_clause : Yields code (clause G) (AllStand code ·.literals) := by
  refine Moves.position.andThen fun pos => (Moves.isAt _).andThen fun _ => ?_
  extract_lets jp
  have hrest : ∀ test, AllStand code (Expr.literals? test) →
      Yields code (jp test) (AllStand code ·.literals) := by
    intro test htest
    refine (Moves.expectMark _).discard.andThen fun _ => Yields.bind
      (Q := fun list => ∀ s ∈ list, AllStand code s.literals) ?_
      fun body hbody => .pure (by simpa using ⟨htest, hbody⟩)
    refine .iterate (fun list => ∀ s ∈ list, AllStand code s.literals) (fun list hlist => ?_)
      (by simp)
    refine Moves.token.andThen fun _ => .ite (fun _ => .collected hlist) fun _ => ?_
    exact Moves.changeContext.andThen fun _ =>
      hG.statement.bind fun _ hs => .collect hs hlist
  refine .ite (fun _ => ?_) fun _ => ?_
  · exact Moves.next.andThen fun _ => .pureBind (hrest none (by simp))
  · exact (Moves.expectKeyword _).discard.andThen fun _ => hG.expression.bind fun e he =>
      .pureBind (hrest (some e) he)

/-- The end of the text closes a switch as well as a brace does. -/
theorem yields_switchStatement : Yields code (switchStatement G) (AllStand code ·.literals) := by
  refine (Moves.expectKeyword _).andThen fun pos => (yields_guarded hG).bind fun e he =>
    (Moves.expectMark _).discard.andThen fun _ => Moves.context.andThen fun _ =>
      Moves.changeContext.andThen fun _ => Yields.bind
        (Q := fun list => ∀ c ∈ list, AllStand code c.literals) ?_ fun clauses hlist =>
          Moves.changeContext.andThen fun _ =>
            .whenever Moves.fail (.pure (by simpa using ⟨he, hlist⟩))
  refine .iterate (fun list => ∀ c ∈ list, AllStand code c.literals) (fun list hlist => ?_)
    (by simp)
  refine (Moves.isAt _).andThen fun _ => .ite (fun _ => .collected hlist) fun _ => ?_
  refine (Moves.skipMark _).andThen fun _ => .ite (fun _ => .collected hlist) fun _ => ?_
  exact (yields_clause hG).bind fun _ hc => .collect hc hlist

/-! ### Other statements -/

theorem yields_returnStatement : Yields code (returnStatement G) (AllStand code ·.literals) := by
  refine (Moves.expectKeyword _).andThen fun pos => Moves.context.andThen fun _ =>
    .whenever Moves.fail ?_
  refine Moves.token.andThen fun _ => Moves.afterBreak.andThen fun _ => ?_
  extract_lets jp
  have hrest : ∀ value, AllStand code (Expr.literals? value) →
      Yields code (jp value) (AllStand code ·.literals) :=
    fun _ hvalue => Moves.semicolon.andThen fun _ => .pure hvalue
  exact .ite (fun _ => .pureBind (hrest none (by simp))) fun _ =>
    hG.expression.bind fun e he => .pureBind (hrest (some e) he)

theorem yields_throwStatement : Yields code (throwStatement G) (AllStand code ·.literals) := by
  refine (Moves.expectKeyword _).andThen fun pos => Moves.afterBreak.andThen fun _ =>
    .whenever Moves.fail ?_
  exact hG.expression.bind fun _ he => Moves.semicolon.andThen fun _ => .pure he

/-- Handler, parameter and finalizer may each be left out. What comes behind such a part is
followed once, with whatever was found (`hrest`, `hfinish`, `hhandle`). -/
theorem yields_tryStatement : Yields code (tryStatement G) (AllStand code ·.literals) := by
  refine (Moves.expectKeyword _).andThen fun pos =>
    (yields_blockStatement hG).bind fun body hbody => (Moves.isAt _).andThen fun _ => ?_
  extract_lets jp
  have hrest : ∀ handler, AllStand code (Handler.literals? handler) →
      Yields code (jp handler) (AllStand code ·.literals) := by
    intro handler hhandler
    refine (Moves.isAt _).andThen fun _ => ?_
    extract_lets finish
    have hfinish : ∀ finalizer, AllStand code (Stmt.literals? finalizer) →
        Yields code (finish finalizer) (AllStand code ·.literals) :=
      fun _ hfinal => .whenever Moves.fail (.pure (by simpa using ⟨hbody, hhandler, hfinal⟩))
    refine .ite (fun _ => ?_) fun _ => .pureBind (hfinish none (by simp))
    exact Moves.next.andThen fun _ => (yields_blockStatement hG).bind fun s hs =>
      .pureBind (hfinish (some s) hs)
  refine .ite (fun _ => ?_) fun _ => .pureBind (hrest none (by simp))
  refine Moves.position.andThen fun _ => Moves.next.andThen fun _ =>
    (Moves.skipMark _).andThen fun _ => ?_
  extract_lets handle
  have hhandle : ∀ param, AllStand code (Pattern.literals? param) →
      Yields code (handle param) (AllStand code ·.literals) :=
    fun _ hparam => (yields_blockStatement hG).bind fun _ hs => .pureBind <|
      hrest (some _) (by simpa using ⟨hparam, hs⟩)
  refine .ite (fun _ => ?_) fun _ => .pureBind (hhandle none (by simp))
  exact hG.target.bind fun target htarget => (Moves.expectMark _).discard.andThen fun _ =>
    .pureBind (hhandle (some target) htarget)

theorem yields_withStatement : Yields code (withStatement G) (AllStand code ·.literals) :=
  (Moves.expectKeyword _).andThen fun _ => (yields_guarded hG).bind fun _ he =>
    (yields_single hG).bind fun _ hs => .pure (by simpa using ⟨he, hs⟩)

theorem yields_labelled (label : String) :
    Yields code (labelled G label) (AllStand code ·.literals) := by
  refine (Moves.expectMark _).discard.andThen fun _ => Moves.context.andThen fun _ =>
    .whenever Moves.fail <| Moves.changeContext.andThen fun _ => ?_
  exact (yields_single hG).bind fun _ hs =>
    Moves.changeContext.andThen fun _ => .pure hs

/-- A name before a colon was a label. -/
theorem yields_expressionStatement :
    Yields code (expressionStatement G) (AllStand code ·.literals) := by
  refine hG.expression.bind fun e he => ?_
  extract_lets jp
  have hrest : Yields code (jp ()) (AllStand code ·.literals) :=
    Moves.optionalSemicolon.andThen fun _ => .pure he
  split
  · exact (Moves.isAtMark _).andThen fun _ => .ite (fun _ => yields_labelled hG _) fun _ => hrest
  · exact hrest

/-- Where `let` is a name, its token counts as one that can end a statement; the parser does
not move for that. -/
theorem yields_letStatement : Yields code (letStatement G) (AllStand code ·.literals) := by
  refine Moves.peek.andThen fun _ => Moves.context.andThen fun _ => .ite
    (fun _ => yields_declaration hG _ _) fun _ => ?_
  exact Moves.andThen (.modify fun _ h => ⟨h.current, h.after⟩) fun _ =>
    yields_expressionStatement hG

theorem yields_statement : Yields code (statement G) (AllStand code ·.literals) := by
  refine Moves.get.andThen fun s => ?_
  split
  case h_1 => exact .fail
  case h_2 => exact .seqRight Moves.next (.pure (by simp))
  case h_3 => exact yields_blockStatement hG
  case h_4 => exact yields_ifStatement hG
  case h_5 => exact yields_doStatement hG
  case h_6 => exact yields_whileStatement hG
  case h_7 => exact yields_forStatement hG
  case h_8 | h_9 => exact yields_jump _
  case h_10 => exact .seqRight (.seqRight Moves.next Moves.semicolon) (.pure (by simp))
  case h_11 => exact yields_withStatement hG
  case h_12 | h_13 => exact yields_declaration hG _ _
  case h_14 => exact yields_letStatement hG
  case h_15 =>
    refine (yields_asyncFunction? hG true).bind fun f? hf => ?_
    cases f? with
    | some f => exact .pure (hf f rfl)
    | none => exact yields_expressionStatement hG
  case h_16 => exact (yields_function hG _ _ _).bind fun _ hf => .pure hf
  case h_17 => exact (yields_classBody hG true).bind fun _ hc => .pure hc
  case h_18 => exact yields_switchStatement hG
  case h_19 => exact yields_returnStatement hG
  case h_20 => exact yields_throwStatement hG
  case h_21 => exact yields_tryStatement hG
  case h_22 => exact yields_expressionStatement hG

/-! ### Scripts -/

/-- The parser starts before the first token, so it takes one step before the first statement. -/
theorem yields_script :
    Yields code (script G) fun list => ∀ s ∈ list, AllStand code s.literals := by
  refine Moves.next.andThen fun _ => ?_
  refine .iterate (fun list => ∀ s ∈ list, AllStand code s.literals) (fun list hlist => ?_)
    (by simp)
  refine (Moves.isAt _).andThen fun _ => .ite (fun _ => .collected hlist) fun _ => ?_
  exact Moves.changeContext.andThen fun _ =>
    hG.statement.bind fun _ hs => .collect hs hlist

omit hG

/-- The literals that a level of the grammar gives stand in the code. -/
theorem stands_grammar (n : Nat) : (grammar n).Stands code := by
  induction n with
  | zero => constructor <;> exact .fail
  | succ n ih =>
    exact
      { expression := yields_expression ih
        assignment := yields_assignment ih
        unary := yields_unary ih
        power := yields_power ih
        relation := yields_relation ih
        callable := yields_callable ih
        constructed := yields_constructed ih
        target := yields_declaredTarget ih
        statement := yields_statement ih }

/-- A text is read with a number of levels that its length gives; any number will do here. -/
theorem stands_of_parseFrom {start : State} (hstart : start.In code) {ast : Ast}
    (h : parseFrom start = .ok ast) : AllStand code (Stmt.literalsOf ast) := by
  unfold parseFrom at h
  split at h
  · cases h
  · rename_i found s hread
    split at h
    · cases h
    · obtain rfl := Except.ok.inj h
      simpa using (yields_script (stands_grammar _) start hstart found s hread).2

/-- **Every literal of a script stands in its text**, whatever lines the text counts as. -/
theorem stands_of_parse {load : String → Option String} {file code : String} {ast : Ast}
    (h : parse load file code = .ok ast) : AllStand code.toList (Stmt.literalsOf ast) := by
  have hstart : ∀ lineOf noLine, State.In code.toList
      { current := default, after := { rest := code.toList }, canEnd := false, lineOf, noLine } :=
    fun _ _ => ⟨trivial, [], rfl, rfl⟩
  unfold parse at h
  simp only [bind, Except.bind] at h
  split at h
  · cases h
  · rename_i first hfirst
    split at h
    · cases h
    · obtain rfl := Except.ok.inj h
      exact stands_of_parseFrom (hstart _ _) hfirst
    · exact stands_of_parseFrom (hstart _ _) h

end TaintReach.Script.Parser
