import TaintReach.Proofs.Script.Parser.Expression
import TaintReach.Script.Parser

/-! Statements and scripts are read in order.

Each level of the grammar reads in order as the level below it does (`ordered_grammar`).
So the functions of a script start in the order in which they stand in its outline
(`starts_of_parse`), and no two start at the same place. -/
namespace TaintReach.Script.Parser

theorem Stays.forbidLet : Stays forbidLet := .modify fun _ => rfl

theorem Stays.headKeyword : Stays headKeyword := by
  refine Stays.token.bind fun t => ?_
  split
  · exact .pure _
  · exact .pure _
  · exact Stays.peek.bind fun _ P => .ite (fun _ => Stays.pure _ P) fun _ => Stays.pure _ P
  · exact .pure _

theorem Keeps.enumerates : Keeps enumerates :=
  Stays.get.keeps.bind fun _ => .ite (Keeps.next.bind fun _ => .pure _) <|
    .ite (Keeps.next.bind fun _ => .pure _) (.pure _)

/-- Only the context of the parser tells that it is in a loop; its place does not. -/
theorem Triple.inLoop {α : Type} {P : Place → Prop} {p : Parse α} {Q : α → Place → Prop}
    (h : Triple P p Q) : Triple P (inLoop p) Q :=
  Stays.context.andThen fun _ => Stays.andThen (.modify fun _ => rfl) fun _ => h.bind fun _ =>
    Stays.andThen (.modify fun _ => rfl) fun _ => .pure fun _ h => h

theorem reads_unlessMark {m : String} {p : Parse Expr} (h : Reads p (·.outline.starts)) :
    Reads (unlessMark m p) fun o => (Expr.outline? o).starts := by
  intro xs
  refine (Stays.isAtMark _).andThen fun _ => .ite (fun _ => ?_) fun _ => ?_
  · exact .give (by simp)
  · exact h.andThen fun _ => .give (.refl _)

/-- No function starts in a jump. -/
theorem reads_jump (word : String) : Reads (jump word) (·.outline.starts) := by
  intro xs
  refine (Keeps.expectKeyword _).discard.andThen fun _ => Stays.context.andThen fun _ =>
    Stays.afterBreak.andThen fun _ => (Keeps.skipMark _).andThen fun _ =>
      (Stays.isAtMark _).andThen fun _ => ?_
  extract_lets _ _ jp
  have hrest : Triple (Past xs) (jp ()) fun s => Past (xs ++ s.outline.starts) :=
    Keeps.expectName.andThen fun _ => .whenever .fail <| .whenever .fail <|
      Keeps.semicolon.andThen fun _ => .give (by simp)
  refine .ite (fun _ => Stays.useBreak.andThen fun _ => .ite (fun _ => ?_) fun _ => .failBind)
    fun _ => hrest
  exact .give (by simp)

/-- Where the functions in a loop head start. -/
def LoopHead.starts : LoopHead → List Nat
  | .counted init => (Stmt.outline? init).starts
  | .enumerated _ _ target => target.outline.starts

variable {G : Grammar} (hG : G.Ordered)
include hG

theorem reads_single : Reads (single G) (·.outline.starts) :=
  fun xs => Stays.forbidLet.andThen fun _ => hG.statement xs

theorem reads_blockStatement : Reads (blockStatement G) (·.outline.starts) :=
  fun _ => (reads_block hG).andThen fun _ => .give (by simp)

theorem reads_guarded : Reads (guarded G) (·.outline.starts) :=
  fun _ => (Keeps.expectMark _).discard.andThen fun _ => hG.expression.andThen fun _ =>
    (Keeps.expectMark _).discard.andThen fun _ => .give (.refl _)

theorem reads_declaration (kind : DeclKind) (keyword : Token) :
    Reads (declaration G kind keyword) (·.outline.starts) := by
  intro xs
  refine Stays.position.andThen fun _ => Stays.context.andThen fun _ =>
    (Keeps.expect _).discard.andThen fun _ => .whenever .fail ?_
  exact (reads_bindings hG).andThen fun _ => .whenever .fail <|
    Keeps.semicolon.andThen fun _ => .give (by simp)

/-! ### Conditions and loops -/

theorem reads_ifStatement : Reads (ifStatement G) (·.outline.starts) := by
  intro xs
  refine (Keeps.expectKeyword _).discard.andThen fun _ => (reads_guarded hG).andThen fun test =>
    (Stays.isAtMark _).andThen fun _ => .branch (fun _ => reads_blockStatement hG _)
      (fun _ => reads_single hG _) fun yes => ?_
  refine (Stays.isAt _).andThen fun _ => .ite (fun _ => ?_) fun _ => .give (by simp)
  exact Keeps.next.andThen fun _ => (reads_single hG).andThen fun _ => .give (by simp)

theorem reads_loopBody : Reads (loopBody G) (·.outline.starts) :=
  fun xs => (reads_single hG xs).inLoop

theorem reads_whileStatement : Reads (whileStatement G) (·.outline.starts) :=
  fun _ => (Keeps.expectKeyword _).andThen fun _ => (reads_guarded hG).andThen fun _ =>
    (reads_loopBody hG).andThen fun _ => .give (by simp)

/-- The body comes before the condition here, in the text and in the outline. -/
theorem reads_doStatement : Reads (doStatement G) (·.outline.starts) := by
  intro xs
  refine Triple.inLoop <| (Keeps.expectKeyword _).andThen fun _ => (Stays.isAtMark _).andThen fun _ =>
    .branch (fun _ => reads_blockStatement hG _) (fun _ => reads_single hG _) fun body => ?_
  exact (Keeps.expectKeyword _).discard.andThen fun _ => (reads_guarded hG).andThen fun _ =>
    (Keeps.skipMark _).discard.andThen fun _ => .give (by simp)

theorem reads_declaredHead (kind : DeclKind) : Reads (declaredHead G kind) LoopHead.starts := by
  intro xs
  refine Stays.position.andThen fun pos => Keeps.next.andThen fun _ =>
    (reads_bindings hG).andThen fun list => ?_
  extract_lets counted jp
  have hcounted : Triple (Past (xs ++ list.flatMap (·.outline.starts))) (counted ())
      fun head => Past (xs ++ head.starts) :=
    Stays.get.andThen fun _ => .give (by simp [LoopHead.starts])
  have hrest : ∀ enumeration, Triple (Past (xs ++ list.flatMap (·.outline.starts)))
      (jp enumeration) fun head => Past (xs ++ head.starts) := by
    intro enumeration
    simp only [jp]
    split
    · exact .give (by simp [LoopHead.starts])
    · exact .fail
    · exact .whenever .fail hcounted
  split
  · exact Keeps.enumerates.andThen hrest
  · exact .pureBind (hrest none)

/-- Read again as a target, the expression in front of `in` or `of` keeps its functions in order. -/
theorem reads_expressionHead : Reads (expressionHead G) LoopHead.starts := by
  intro xs
  refine hG.expression.andThen fun e => Keeps.enumerates.andThen fun enumeration => ?_
  split
  · exact .give (.refl _)
  · split
    · rename_i target htarget
      exact .give ((List.Sublist.refl xs).append (Expr.starts_toTarget? e htarget))
    · exact .fail

theorem reads_loopHead : Reads (loopHead G) LoopHead.starts := by
  intro xs
  refine (Stays.isAtMark _).andThen fun _ => .ite (fun _ => .give (by simp [LoopHead.starts]))
    fun _ => Stays.context.andThen fun _ => Stays.andThen (.modify fun _ => rfl) fun _ =>
      Stays.headKeyword.andThen fun kind => ?_
  extract_lets jp
  have hrest : ∀ head, Triple (Past (xs ++ head.starts)) (jp head) fun r => Past (xs ++ r.starts) :=
    fun _ => Stays.andThen (.modify fun _ => rfl) fun _ => .give (.refl _)
  split
  · exact (reads_declaredHead hG _).andThen hrest
  · exact (reads_expressionHead hG).andThen hrest

/-- The parts of the head come before the body, in the text and in the outline. -/
theorem reads_forStatement : Reads (forStatement G) (·.outline.starts) := by
  intro xs
  refine (Keeps.expectKeyword _).andThen fun pos => (Keeps.expectMark _).discard.andThen fun _ =>
    (reads_loopHead hG).andThen fun head => ?_
  cases head with
  | enumerated kind declares target =>
    refine .branch (fun _ => hG.expression _) (fun _ => hG.assignment _) fun source => ?_
    exact (Keeps.expectMark _).discard.andThen fun _ => (reads_loopBody hG).andThen fun _ =>
      .give (by simp [LoopHead.starts])
  | counted init =>
    refine (Keeps.expectMark _).discard.andThen fun _ => (reads_unlessMark hG.expression).andThen
      fun test => (Keeps.expectMark _).discard.andThen fun _ =>
        (reads_unlessMark hG.expression).andThen fun step => ?_
    exact (Keeps.expectMark _).discard.andThen fun _ => (reads_loopBody hG).andThen fun _ =>
      .give (by simp [LoopHead.starts])

/-! ### Switches -/

theorem reads_clause : Reads (clause G) (·.outline.starts) := by
  intro xs
  refine Stays.position.andThen fun pos => (Stays.isAt _).andThen fun _ => ?_
  extract_lets jp
  have hrest : ∀ test, Triple (Past (xs ++ (Expr.outline? test).starts)) (jp test)
      fun c => Past (xs ++ c.outline.starts) := by
    intro test
    refine (Keeps.expectMark _).discard.andThen fun _ => Triple.bind
      (Q := fun body => Past (xs ++ (Expr.outline? test).starts ++ body.flatMap (·.outline.starts)))
      ?_ fun body => .give (by simp)
    refine .loop (fun list => xs ++ (Expr.outline? test).starts ++
      list.reverse.flatMap (·.outline.starts)) (fun list => ?_) (by simp)
    refine Stays.token.andThen fun _ => .ite (fun _ => .stop (.refl _)) fun _ => ?_
    exact Stays.andThen (.modify fun _ => rfl) fun _ => hG.statement.andThen fun _ => .again (by simp)
  refine .ite (fun _ => ?_) fun _ => ?_
  · refine Triple.bind (Q := fun o => Past (xs ++ (Expr.outline? o).starts)) ?_ hrest
    exact .seqRight (Keeps.next _ steady_past) (.give (by simp))
  · exact (Keeps.expectKeyword _).discard.andThen fun _ => hG.expression.andThen fun e =>
      .pureBind (hrest (some e))

theorem reads_switchStatement : Reads (switchStatement G) (·.outline.starts) := by
  intro xs
  refine (Keeps.expectKeyword _).andThen fun pos => (reads_guarded hG).andThen fun discriminant =>
    (Keeps.expectMark _).discard.andThen fun _ => Stays.context.andThen fun _ =>
      Stays.andThen (.modify fun _ => rfl) fun _ => Triple.bind
        (Q := fun cs => Past (xs ++ discriminant.outline.starts ++ cs.flatMap (·.outline.starts)))
        ?_ fun clauses => Stays.andThen (.modify fun _ => rfl) fun _ =>
          .whenever .fail (.give (by simp))
  refine .loop (fun list => xs ++ discriminant.outline.starts ++
    list.reverse.flatMap (·.outline.starts)) (fun list => ?_) (by simp)
  refine (Stays.isAt _).andThen fun _ => .ite (fun _ => .stop (.refl _)) fun _ => ?_
  refine (Keeps.skipMark _).andThen fun _ => .ite (fun _ => .stop (.refl _)) fun _ => ?_
  exact (reads_clause hG).andThen fun _ => .again (by simp)

/-! ### Other statements -/

theorem reads_returnStatement : Reads (returnStatement G) (·.outline.starts) := by
  intro xs
  refine (Keeps.expectKeyword _).andThen fun pos => Stays.context.andThen fun _ => .whenever .fail ?_
  refine Stays.token.andThen fun _ => Stays.afterBreak.andThen fun _ => ?_
  extract_lets jp
  have hrest : ∀ value, Triple (Past (xs ++ (Expr.outline? value).starts)) (jp value)
      fun s => Past (xs ++ s.outline.starts) :=
    fun _ => Keeps.semicolon.andThen fun _ => .give (.refl _)
  refine .ite (fun _ => .pureBind ?_) fun _ => hG.expression.andThen fun e => .pureBind (hrest (some e))
  exact (hrest none).pre fun _ h => by simpa using h

theorem reads_throwStatement : Reads (throwStatement G) (·.outline.starts) := by
  intro xs
  refine (Keeps.expectKeyword _).andThen fun pos => Stays.afterBreak.andThen fun _ => .whenever .fail ?_
  exact hG.expression.andThen fun _ => Keeps.semicolon.andThen fun _ => .give (.refl _)

theorem reads_tryStatement : Reads (tryStatement G) (·.outline.starts) := by
  intro xs
  -- the handler stands behind the body in the text, though it is listed before it
  refine (Keeps.expectKeyword _).andThen fun pos => (reads_blockStatement hG).andThen fun body =>
    (Stays.isAt _).andThen fun _ => ?_
  extract_lets jp
  have hrest : ∀ handler, Triple (Past (xs ++ body.outline.starts ++ (Handler.outline? handler).starts))
      (jp handler) fun s => Past (xs ++ s.outline.starts) := by
    intro handler
    refine (Stays.isAt _).andThen fun _ => ?_
    extract_lets finish
    have hfinish : ∀ finalizer, Triple (Past (xs ++ body.outline.starts ++
        (Handler.outline? handler).starts ++ (Stmt.outline? finalizer).starts)) (finish finalizer)
        fun s => Past (xs ++ s.outline.starts) :=
      fun _ => .whenever .fail (.give (by simp))
    refine .ite (fun _ => ?_) fun _ => .pureBind ?_
    · exact Keeps.next.andThen fun _ => (reads_blockStatement hG).andThen fun s =>
        .pureBind (hfinish (some s))
    · exact (hfinish none).pre fun _ h => by simpa using h
  refine .ite (fun _ => ?_) fun _ => .pureBind ?_
  · refine Stays.position.andThen fun _ => Keeps.next.andThen fun _ =>
      (Keeps.skipMark _).andThen fun _ => ?_
    extract_lets handle
    have hhandle : ∀ param, Triple (Past (xs ++ body.outline.starts ++ (Pattern.outline? param).starts))
        (handle param) fun s => Past (xs ++ s.outline.starts) :=
      fun _ => (reads_blockStatement hG).andThen fun _ => .pureBind <|
        (hrest (some _)).pre fun _ h => by simpa using h
    refine .ite (fun _ => ?_) fun _ => .pureBind ?_
    · exact hG.target.andThen fun target => (Keeps.expectMark _).discard.andThen fun _ =>
        .pureBind (hhandle (some target))
    · exact (hhandle none).pre fun _ h => by simpa using h
  · exact (hrest none).pre fun _ h => by simpa using h

theorem reads_withStatement : Reads (withStatement G) (·.outline.starts) :=
  fun _ => (Keeps.expectKeyword _).andThen fun _ => (reads_guarded hG).andThen fun _ =>
    (reads_single hG).andThen fun _ => .give (by simp)

theorem reads_labelled (label : String) : Reads (labelled G label) (·.outline.starts) := by
  intro xs
  refine (Keeps.expectMark _).discard.andThen fun _ => Stays.context.andThen fun _ =>
    .whenever .fail <| Stays.andThen (.modify fun _ => rfl) fun _ => ?_
  exact (reads_single hG).andThen fun _ => Stays.andThen (.modify fun _ => rfl) fun _ =>
    .give (.refl _)

/-- A name before a colon was a label, in which no function starts. -/
theorem reads_expressionStatement : Reads (expressionStatement G) (·.outline.starts) := by
  intro xs
  refine hG.expression.andThen fun e => ?_
  extract_lets jp
  have hrest : Triple (Past (xs ++ e.outline.starts)) (jp ()) fun s => Past (xs ++ s.outline.starts) :=
    Keeps.optionalSemicolon.andThen fun _ => .give (.refl _)
  split
  · refine (Stays.isAtMark _).andThen fun _ => .ite (fun _ => ?_) fun _ => hrest
    exact (reads_labelled hG _ xs).pre fun _ h => by simpa using h
  · exact hrest

/-- Where `let` is a name, the expression begins with it: the parser has not moved yet. -/
theorem reads_letStatement : Reads (letStatement G) (·.outline.starts) := by
  intro xs
  refine Stays.peek.andThen fun _ => Stays.context.andThen fun _ => .ite
    (fun _ => reads_declaration hG _ _ xs) fun _ => ?_
  exact Stays.andThen (.modify fun _ => rfl) fun _ => reads_expressionStatement hG xs

theorem reads_statement : Reads (statement G) (·.outline.starts) := by
  intro xs
  have hnothing : ∀ l, Past xs l → Past (xs ++ Stmt.nothing.outline.starts) l :=
    fun _ h => by simpa using h
  refine Triple.get.bind fun s => Triple.pre (P := Pending xs s.current.pos.offset) ?_
    fun _ h => h.2.pending (h.1 ▸ rfl)
  split
  -- a function declaration starts at the keyword; the others do not ask where they start
  case h_16 => exact (function_pending hG xs).bind fun _ => .give (.refl _)
  all_goals refine Triple.pre (P := Past xs) ?_ fun _ h => h.past
  case h_1 => exact .fail
  case h_2 => exact .seqRight (Keeps.next _ steady_past) (.pure hnothing)
  case h_3 => exact reads_blockStatement hG xs
  case h_4 => exact reads_ifStatement hG xs
  case h_5 => exact reads_doStatement hG xs
  case h_6 => exact reads_whileStatement hG xs
  case h_7 => exact reads_forStatement hG xs
  case h_8 | h_9 => exact reads_jump _ xs
  case h_10 =>
    exact .seqRight (.seqRight (Keeps.next _ steady_past) (Keeps.semicolon _ steady_past))
      (.pure hnothing)
  case h_11 => exact reads_withStatement hG xs
  case h_12 | h_13 => exact reads_declaration hG _ _ xs
  case h_14 => exact reads_letStatement hG xs
  case h_15 =>
    refine (reads_asyncFunction? hG true).andThen fun f? => ?_
    cases f? with
    | some f => exact .give (.refl _)
    | none => exact (reads_expressionStatement hG xs).pre fun _ h => by simpa using h
  case h_17 => exact (reads_classBody hG true).andThen fun _ => .give (.refl _)
  case h_18 => exact reads_switchStatement hG xs
  case h_19 => exact reads_returnStatement hG xs
  case h_20 => exact reads_throwStatement hG xs
  case h_21 => exact reads_tryStatement hG xs
  case h_22 => exact reads_expressionStatement hG xs

/-- The first step leads from no token at all to the first one. -/
theorem reads_script : Reads (script G) (·.flatMap (·.outline.starts)) := by
  intro xs
  refine Keeps.next.andThen fun _ => ?_
  refine .loop (fun list => xs ++ list.reverse.flatMap (·.outline.starts)) (fun list => ?_) (by simp)
  refine (Stays.isAt _).andThen fun _ => .ite (fun _ => .stop (.refl _)) fun _ => ?_
  exact Stays.andThen (.modify fun _ => rfl) fun _ => hG.statement.andThen fun _ => .again (by simp)

omit hG

/-! ### Scripts -/

/-- Every level of the grammar reads in order. -/
theorem ordered_grammar (n : Nat) : (grammar n).Ordered := by
  induction n with
  | zero => constructor <;> exact fun _ => .fail
  | succ n ih =>
    exact
      { expression := reads_expression ih
        assignment := reads_assignment ih
        unary := reads_unary ih
        power := reads_power ih
        relation := reads_relation ih
        callable := reads_callable ih
        constructed := reads_constructed ih
        target := reads_declaredTarget ih
        statement := reads_statement ih }

/-- Before its first step the parser stands at no token. -/
theorem past_nil_of_default {start : State} (h : start.current = default) :
    Past [] start.place := by
  refine ⟨⟨?_, fun hsolid => ?_⟩, .nil, fun _ hx => by cases hx⟩
  · show start.current.pos.offset ≤ _
    rw [h]
    exact Nat.zero_le _
  · change start.current.token.isSolid = true at hsolid
    rw [h] at hsolid
    cases hsolid

/-- Nothing is past at the start, so behind the script its own functions are all there is. -/
theorem starts_of_parseFrom {start : State} (hstart : start.current = default) {ast : Ast}
    (h : parseFrom start = .ok ast) : (Stmt.outlines ast).starts.Pairwise (· < ·) := by
  unfold parseFrom at h
  split at h
  · cases h
  · rename_i found s hread
    split at h
    · cases h
    · obtain rfl := Except.ok.inj h
      have hpast := reads_script (ordered_grammar _) [] start found s
        (past_nil_of_default hstart) hread
      simpa using hpast.2.1

/-- **The functions of a script start in the order of its outline.** -/
theorem starts_of_parse {load : String → Option String} {file code : String} {ast : Ast}
    (h : parse load file code = .ok ast) : (Stmt.outlines ast).starts.Pairwise (· < ·) := by
  unfold parse at h
  simp only [bind, Except.bind] at h
  split at h
  · cases h
  · rename_i first hfirst
    split at h
    · cases h
    · obtain rfl := Except.ok.inj h
      exact starts_of_parseFrom rfl hfirst
    · exact starts_of_parseFrom rfl h

end TaintReach.Script.Parser
