import TaintReach.Proofs.Script.Literal.Function
import TaintReach.Script.Parser.Expression

/-! The literals in expressions.

A number, a string or a keyword is a literal as soon as the parser is on it. A template or
regular expression is read on from a single mark, so its literal stands in the code because
the parser goes on right behind that mark (`templateChunk_at`, `regexp_at`). -/
namespace TaintReach.Script.Parser

open Script.Literal

variable {code : List Char}

/-! ### Templates and regular expressions -/

/-- A chunk is passed over as a whole: no tokens are scanned in it. -/
theorem Moves.templateChunk (tagged : Bool) : Moves code (templateChunk tagged) := by
  refine Yields.get.bind fun s hs => ?_
  split
  · exact .fail
  · exact .whenever Moves.fail (.setNext (hs.after.forward _) fun _ => .pure trivial)

/-- A chunk that runs up to a closing quote, with escapes that an untagged template admits, is
what a literal has between its quotes. -/
theorem chunk_quotation {rest : List Char} {n : Nat}
    (hbody : Quoted.templateBody rest = some (n, .backtick))
    (hplain : (Quoted.plainDigitEscape (rest.take n) ||
      (Quoted.cook true (rest.take n)).isNone) = false) :
    rest.take n ++ ['\x60'] <+: rest ∧ ∃ us, Quotation .back (rest.take n) us := by
  obtain ⟨hdigits, hcook⟩ := Bool.or_eq_false_iff.mp hplain
  obtain ⟨t, behind, rfl, rfl, hbounded⟩ := templateBody_sound hbody
  rw [List.take_left] at hdigits hcook ⊢
  obtain ⟨units, hunits⟩ := Option.isSome_iff_exists.mp (Option.isNone_eq_false_iff.mp hcook)
  obtain ⟨us, hus, -⟩ := cook_sound (q := .back) (hbounded hdigits) hunits
  exact ⟨⟨behind, by simp⟩, us, hus⟩

/-- The chunk behind an opening quote is a literal if it ends the template. -/
theorem templateChunk_at {s : State} (hs : s.In code) (htoken : s.current.token = .backtick) :
    YieldsAt code s (templateChunk false) fun r =>
      r.2 = .backtick → (Expr.template s.current.pos none [r.1] []).Stands code := by
  have hcurrent := hs.current
  simp only [Lexeme.Stands, htoken] at hcurrent
  refine .get ?_
  split
  · exact fun _ _ h => by cases h
  · rename_i n stop hbody
    refine Yields.ite (fun _ => .failBind) (fun hcooked => ?_) s hs
    refine .setNext (hs.after.forward _) fun _ => .pure ?_
    rintro rfl
    obtain ⟨hchunk, us, hus⟩ := chunk_quotation hbody
      (Bool.eq_false_of_not_eq_true hcooked)
    refine ⟨_, .string us, hcurrent.of_prefix (List.cons_prefix_cons.mpr ⟨rfl, ?_⟩), .template ?_⟩
    · rw [String.toList_ofList]
      exact hchunk
    · rwa [String.toList_ofList]

/-- A regular expression is spelled from its mark on, be that `/` or `/=`. What stands between
the slashes is not looked into. -/
theorem regexp_at {s : State} {m : String} {tail : List Char} (hs : s.In code)
    (htoken : s.current.token = .punct m) (hm : m.toList = '/' :: tail) :
    YieldsAt code s regexp (AllStand code ·.literals) := by
  have hcurrent := hs.current
  simp only [Lexeme.Stands, htoken, hm] at hcurrent
  refine .get ?_
  split
  · exact fun _ _ h => by cases h
  · rename_i n hbody
    have hstands : ∀ raw, (Expr.regexp s.current.pos raw).Stands code := fun raw =>
      ⟨_, _, hcurrent.of_prefix ((List.prefix_append_right_inj _).mpr (List.take_prefix n _)),
        .regexp _⟩
    refine Yields.setNext (hs.after.forward _) (fun _ => ?_) s hs
    refine (Moves.isAt _).andThen fun _ => .ite (fun _ => ?_) fun _ =>
      .pure (by simpa using hstands _)
    exact Moves.next.andThen fun _ => Moves.get.andThen fun _ => .pure (by simpa using hstands _)

variable {G : Grammar} (hG : G.Stands code)
include hG

/-- Only a template without a tag whose first chunk ends it is a literal. Any other has the
literals of its tag and of its substitutions. -/
theorem template_at {s : State} {tag : Option Expr} (hs : s.In code)
    (htag : AllStand code (Expr.literals? tag))
    (htoken : tag = none → s.current.token = .backtick) :
    YieldsAt code s (template G tag) (AllStand code ·.literals) := by
  refine .position ?_
  -- once there is a substitution, the template is no literal
  refine Yields.iterateAt (fun r => r.2 ≠ [] ∧ ∀ e ∈ r.2, AllStand code e.literals) ?_ ?_
  · rintro ⟨chunks, holes⟩ ⟨hne, hholes⟩
    refine (Moves.templateChunk _).andThen fun r => .ite (fun _ => .stop ?_) fun _ => ?_
    · rw [Expr.literals_template (.inr (by simpa using hne))]
      simpa using ⟨htag, hholes⟩
    · refine hG.expression.bind fun hole hhole => (Moves.isAtMark _).andThen fun _ =>
        .whenever Moves.fail (.again ⟨List.cons_ne_nil _ _, ?_⟩)
      exact List.forall_mem_cons.mpr ⟨hhole, hholes⟩
  · have hfirst : YieldsAt code s (templateChunk tag.isSome) fun r => r.2 = .backtick →
        AllStand code (Expr.template s.current.pos tag [r.1] []).literals := by
      cases tag with
      | none =>
        intro a t h
        simpa using templateChunk_at hs (htoken rfl) a t h
      | some tag =>
        refine Yields.mono (Moves.templateChunk _) (fun r _ _ => ?_) s hs
        rw [Expr.literals_template (.inl rfl)]
        simpa using htag
    refine hfirst.bind fun r hr => .ite (fun hstop => .stop (hr hstop)) fun _ => ?_
    exact hG.expression.bind fun hole hhole => (Moves.isAtMark _).andThen fun _ =>
      .whenever Moves.fail (.again ⟨List.cons_ne_nil _ _, by simpa using hhole⟩)

/-- A tagged template is no literal, so the token that the parser is on does not matter. -/
theorem yields_tagged {tag : Expr} (htag : AllStand code tag.literals) :
    Yields code (template G (some tag)) (AllStand code ·.literals) :=
  fun _ hs => template_at hG hs htag fun h => by cases h

/-! ### Members and arguments -/

theorem yields_arguments :
    Yields code (arguments G) fun list => ∀ e ∈ list, AllStand code e.literals := by
  refine (Moves.expectMark _).discard.andThen fun _ => Yields.bind
    (Q := fun list => ∀ e ∈ list, AllStand code e.literals) ?_
    fun args hargs => (Moves.expectMark _).discard.andThen fun _ => .pure hargs
  refine .iterate (fun list => ∀ e ∈ list, AllStand code e.literals) (fun list hlist => ?_)
    (by simp)
  refine (Moves.isAtMark _).andThen fun _ => .ite (fun _ => .collected hlist) fun _ => ?_
  refine (Moves.isAtMark _).andThen fun _ => .branch (yields_spread hG) hG.assignment
    fun item hitem => ?_
  have hitems : ∀ e ∈ item :: list, AllStand code e.literals :=
    List.forall_mem_cons.mpr ⟨hitem, hlist⟩
  exact (Moves.skipMark _).andThen fun _ => .ite (fun _ => .again hitems) fun _ =>
    .collected hitems

omit hG in
/-- The word behind a point is no literal, even if it is spelled like one. -/
theorem yields_dotMember {object : Expr} (hobject : AllStand code object.literals) :
    Yields code (dotMember object) (AllStand code ·.literals) := by
  refine Moves.next.andThen fun _ => Moves.get.andThen fun _ =>
    Moves.endTargetAtWord.andThen fun _ =>
      .ite (fun _ => Moves.next.andThen fun _ => .pure hobject) fun _ => ?_
  exact .whenever Moves.fail (Moves.next.andThen fun _ => .pure hobject)

theorem yields_bracketMember {object : Expr} (hobject : AllStand code object.literals) :
    Yields code (bracketMember G object) (AllStand code ·.literals) :=
  (Moves.expectMark _).discard.andThen fun _ => hG.expression.bind fun _ hkey =>
    (Moves.closeTarget _).andThen fun _ => .pure (by simpa using ⟨hobject, hkey⟩)

theorem yields_superRef : Yields code (superRef G) (AllStand code ·.literals) := by
  refine (Moves.expectKeyword _).andThen fun pos => Moves.token.andThen fun t => ?_
  have hself : AllStand code (Expr.superRef pos).literals := by simp
  split
  · refine Moves.peek.andThen fun _ => .ite (fun _ => ?_) fun _ => .fail
    exact yields_dotMember hself
  · exact yields_bracketMember hG hself
  · exact (yields_arguments hG).bind fun _ hargs => .pure (by simpa using hargs)
  · exact .fail

/-! ### Primary expressions -/

/-- Items that make sense only as parameters keep their literals: whether they are parameters
is settled by an arrow behind them. -/
theorem yields_parenthesised : Yields code (parenthesised G) (AllStand code ·.literals) := by
  refine (Moves.expectMark _).discard.andThen fun _ => Yields.bind
    (Q := fun list => ∀ e ∈ list, AllStand code e.literals) ?_ fun items hitems => ?_
  · refine .iterate (fun list => ∀ e ∈ list, AllStand code e.literals) (fun list hlist => ?_)
      (by simp)
    refine (Moves.isAtMark _).andThen fun _ => .ite (fun _ => .stop (by simp)) fun _ => ?_
    refine (Moves.skipMark _).andThen fun _ => .branch (.seqRight Moves.note hG.assignment)
      hG.assignment fun item hitem => ?_
    have hitems : ∀ e ∈ item :: list, AllStand code e.literals :=
      List.forall_mem_cons.mpr ⟨hitem, hlist⟩
    refine (Moves.skipMark _).andThen fun _ => .ite
      (fun _ => .collected hitems) fun _ => ?_
    refine (Moves.isAtMark _).andThen fun _ => .ite (fun _ => ?_) fun _ => .again hitems
    exact Moves.note.andThen fun _ => .collected hitems
  · refine (Moves.expectMark _).discard.andThen fun _ => ?_
    split
    · exact .seqRight Moves.note (.pure (by simp))
    · exact Moves.get.andThen fun _ => .ite (fun _ => .pure (by simpa using hitems)) fun _ =>
        .pure (by simpa using hitems)
    · exact .pure (by simpa using hitems)

/-- All literals arise here. Those of one token stand where the parser is; for those that go
on behind it there are `template_at` and `regexp_at`. -/
theorem yields_primary : Yields code (primary G) (AllStand code ·.literals) := by
  refine .ofState fun s hs => ?_
  have hname : Yields code (if isName s.context s.current.token = true then
      takeName >>= fun name => pure (Expr.identifier s.current.pos name) else fail)
      (AllStand code ·.literals) :=
    .ite (fun _ => Moves.takeName.andThen fun _ => .pure (by simp)) fun _ => .fail
  have hnext : ∀ e : Expr, AllStand code e.literals →
      YieldsAt code s (next *> pure e) (AllStand code ·.literals) := by
    intro e he
    refine Yields.seqRight Moves.next ?_ s hs
    exact .pure he
  have hcurrent := hs.current
  simp only [Lexeme.Stands] at hcurrent
  simp only
  split
  case h_1 htoken =>
    rw [htoken] at hcurrent
    exact hnext _ (allStand_singleton.mpr ⟨_, _, hcurrent, .null⟩)
  case h_2 htoken =>
    rw [htoken] at hcurrent
    exact hnext _ (allStand_singleton.mpr ⟨_, _, hcurrent, .boolean true⟩)
  case h_3 htoken =>
    rw [htoken] at hcurrent
    exact hnext _ (allStand_singleton.mpr ⟨_, _, hcurrent, .boolean false⟩)
  case h_4 => exact hnext _ (by simp)
  case h_5 => exact yields_superRef hG s hs
  case h_6 => exact (yields_function hG _ _ _ s hs).bind fun _ hf => .pure hf
  case h_7 => exact (yields_classBody hG false s hs).bind fun _ hc => .pure hc
  case h_8 htoken =>
    rw [htoken] at hcurrent
    obtain ⟨hstands, q, t, us, hq, hraw, hus, hempty⟩ := hcurrent
    exact hnext _ (allStand_singleton.mpr ⟨_, _, hstands, .string hq hraw hus hempty⟩)
  case h_9 htoken =>
    rw [htoken] at hcurrent
    exact hnext _ (allStand_singleton.mpr ⟨_, _, hcurrent.1, .number hcurrent.2⟩)
  case h_10 htoken => exact template_at hG hs (by simp) fun _ => htoken
  case h_11 htoken => exact regexp_at hs htoken rfl
  case h_12 htoken => exact regexp_at hs htoken rfl
  case h_13 => exact yields_objectLiteral hG s hs
  case h_14 => exact yields_arrayLiteral hG s hs
  case h_15 => exact yields_parenthesised hG s hs
  case h_16 =>
    refine Yields.ite (fun _ => (yields_asyncFunction? hG false).bind fun f? hf => ?_)
      (fun _ => hname) s hs
    cases f? with
    | none => exact hname
    | some f => exact .pure (hf f rfl)

/-! ### Calls -/

theorem yields_construct : Yields code (construct G) (AllStand code ·.literals) := by
  refine (Moves.expectKeyword _).andThen fun pos => (Moves.skipMark _).andThen fun _ => .ite ?_ ?_
  · intro _
    refine Moves.get.andThen fun _ => .ite (fun _ => ?_) fun _ => .failBind
    exact Moves.next.andThen fun _ => Moves.get.andThen fun _ => .pure (by simp)
  · intro _
    refine hG.constructed.bind fun callee hcallee => (Moves.isAtMark _).andThen fun _ => .branch
      (yields_arguments hG) (.pure (by simp)) fun args hargs => ?_
    exact .pure (by simpa using ⟨hcallee, hargs⟩)

theorem yields_head : Yields code (head G) (AllStand code ·.literals) :=
  Moves.token.andThen fun _ => .ite (fun _ => yields_construct hG) fun _ => yields_primary hG

theorem yields_constructed : Yields code (constructed G) (AllStand code ·.literals) := by
  refine (yields_head hG).bind fun e he => ?_
  refine .iterate (AllStand code ·.literals) (fun e he => Moves.token.andThen fun t => ?_) he
  split
  · exact (yields_dotMember he).bind fun _ h => .again h
  · exact (yields_bracketMember hG he).bind fun _ h => .again h
  · exact (yields_tagged hG he).bind fun _ h => .again h
  · exact .stop he

/-- Each step puts the expression so far into a member, a call or a tagged template. So its
literals are kept from step to step. -/
theorem yields_callable : Yields code (callable G) (AllStand code ·.literals) := by
  refine Yields.within ((yields_head hG).bind fun e he => ?_)
  refine .iterate (fun r => AllStand code r.1.literals)
    (fun (e, optional) he => Moves.token.andThen fun t => ?_) he
  simp only
  split
  · exact (yields_dotMember he).bind fun _ h => .again h
  · exact (yields_bracketMember hG he).bind fun _ h => .again h
  · exact (yields_arguments hG).bind fun _ hargs => .again (by simpa using ⟨he, hargs⟩)
  · exact .whenever Moves.fail ((yields_tagged hG he).bind fun _ h => .again h)
  · refine Moves.peek.andThen fun t => ?_
    split
    · exact Moves.next.andThen fun _ => .again he
    · exact Moves.next.andThen fun _ => .again he
    · exact Moves.next.andThen fun _ => .again he
    · have hoptional : AllStand code (Expr.optional e).literals := he
      exact (yields_dotMember hoptional).bind fun _ h => .again h
  · refine .stop ?_
    split <;> exact he

/-! ### Operators -/

theorem yields_update : Yields code (update G) (AllStand code ·.literals) := by
  have hleading : ∀ pos operator, Yields code (update.prefixUpdate G pos operator)
      (AllStand code ·.literals) :=
    fun _ _ => Moves.next.andThen fun _ => hG.unary.bind fun _ he =>
      .ite (fun _ => .pure he) fun _ => .fail
  have htrailing : ∀ operator (operand : Expr), AllStand code operand.literals →
      Yields code (update.postfixUpdate operator operand) (AllStand code ·.literals) :=
    fun _ _ he => Moves.next.andThen fun _ => .ite (fun _ => .pure he) fun _ => .fail
  refine Moves.position.andThen fun pos => Moves.token.andThen fun t => ?_
  split
  · exact hleading _ _
  · exact hleading _ _
  · refine (yields_callable hG).bind fun operand he => Moves.afterBreak.andThen fun _ =>
      .ite (fun _ => .pure he) fun _ => Moves.token.andThen fun t => ?_
    split
    · exact htrailing _ _ he
    · exact htrailing _ _ he
    · exact .pure he

theorem yields_unary : Yields code (unary G) (AllStand code ·.literals) := by
  refine Moves.get.andThen fun s => ?_
  have happly : ∀ operator, Yields code
      (next >>= fun _ => G.unary >>= fun e => pure (Expr.unary s.current.pos operator e))
      (AllStand code ·.literals) :=
    fun _ => Moves.next.andThen fun _ => hG.unary.bind fun _ he => .pure he
  simp only
  split
  case h_8 =>
    refine .ite (fun _ => ?_) fun _ => yields_update hG
    exact Moves.next.andThen fun _ => .whenever Moves.fail (hG.unary.bind fun _ he => .pure he)
  case h_9 => exact yields_update hG
  all_goals exact happly _

theorem yields_power : Yields code (power G) (AllStand code ·.literals) := by
  refine (Moves.isAtMark _).andThen fun _ => (yields_unary hG).bind fun left hleft =>
    (Moves.isAtMark _).andThen fun _ => .whenever Moves.fail ?_
  refine .iterate (AllStand code ·.literals) (fun e he => ?_) hleft
  refine (Moves.skipMark _).andThen fun _ => .ite (fun _ => ?_) fun _ => .stop he
  exact hG.power.bind fun _ hright => .again (by simpa using ⟨he, hright⟩)

omit hG in
/-- The rule for the operators of one level; most levels of the grammar are nested uses of it. -/
theorem yields_leftward {operators : List String} {operand : Parse Expr}
    (h : Yields code operand (AllStand code ·.literals)) :
    Yields code (leftward G operators operand) (AllStand code ·.literals) := by
  refine h.bind fun left hleft => ?_
  refine .iterate (AllStand code ·.literals) (fun e he => Moves.token.andThen fun t => ?_) hleft
  split
  · refine .ite (fun _ => Moves.next.andThen fun _ => ?_) fun _ => .stop he
    exact h.bind fun _ hright => .again (by simpa using ⟨he, hright⟩)
  · exact .stop he

theorem yields_shift : Yields code (shift G) (AllStand code ·.literals) :=
  yields_leftward <| yields_leftward <| yields_leftward <| yields_power hG

theorem yields_relation : Yields code (relation G) (AllStand code ·.literals) := by
  refine Moves.get.andThen fun s => .ite (fun _ => ?_) fun _ => ?_
  · refine Moves.next.andThen fun _ => (Moves.isAt _).andThen fun _ => .ite (fun _ => ?_) fun _ =>
      .pure (by simp)
    exact Moves.next.andThen fun _ => (yields_shift hG).bind fun _ hright =>
      Moves.get.andThen fun _ => .pure (by simpa using hright)
  · refine (yields_shift hG).bind fun left hleft => Moves.token.andThen fun t => ?_
    split
    · exact .pure hleft
    · exact .within (Moves.next.andThen fun _ => hG.relation.bind fun _ hright =>
        .pure (by simpa using ⟨hleft, hright⟩))

theorem yields_conjunction : Yields code (conjunction G) (AllStand code ·.literals) :=
  yields_leftward <| yields_leftward <| yields_leftward <| yields_leftward <| yields_leftward <|
    yields_relation hG

theorem yields_disjunction : Yields code (disjunction G) (AllStand code ·.literals) := by
  refine (Moves.isAtMark _).andThen fun _ => (yields_conjunction hG).bind fun left hleft =>
    (Moves.isAtMark _).andThen fun _ => .ite (fun _ => ?_) fun _ => ?_
  · refine .iterate (AllStand code ·.literals) (fun e he => ?_) hleft
    refine (Moves.isAtMark _).andThen fun _ => .whenever Moves.fail ?_
    refine (Moves.skipMark _).andThen fun _ => .ite (fun _ => ?_) fun _ => .stop he
    exact (yields_conjunction hG).bind fun _ hright => .again (by simpa using ⟨he, hright⟩)
  · refine .iterate (AllStand code ·.literals) (fun e he => ?_) hleft
    refine (Moves.isAtMark _).andThen fun _ => .whenever Moves.fail ?_
    refine (Moves.skipMark _).andThen fun _ => .ite (fun _ => ?_) fun _ => .stop he
    exact (Moves.isAtMark _).andThen fun _ => (yields_conjunction hG).bind fun _ hright =>
      .whenever Moves.fail (.again (by simpa using ⟨he, hright⟩))

theorem yields_ternary : Yields code (ternary G) (AllStand code ·.literals) := by
  refine (yields_disjunction hG).bind fun test htest => (Moves.skipMark _).andThen fun _ =>
    .ite (fun _ => ?_) fun _ => .pure htest
  refine hG.assignment.within.bind fun yes hyes => (Moves.expectMark _).discard.andThen fun _ => ?_
  exact hG.assignment.bind fun no hno => .pure (by simpa using ⟨htest, hyes, hno⟩)

/-! ### Arrow functions, assignments and sequences -/

theorem yields_arrowBody {params : Params} (hparams : AllStand code params.literals) (pos : Pos)
    (async : Bool) : Yields code (arrowBody G pos params async) (AllStand code ·.literals) := by
  obtain ⟨hlist, hrest⟩ := allStand_append.mp hparams
  refine (Moves.expectMark _).discard.andThen fun _ => (Moves.isAtMark _).andThen fun _ =>
    .ite (fun _ => ?_) fun _ => ?_
  · refine (yields_functionBlock hG _ _ _).bind fun body hbody => .pure ?_
    simpa using ⟨by simpa using hlist, hrest, hbody⟩
  · refine hG.assignment.within.bind fun body hbody => .pure ?_
    simpa using ⟨by simpa using hlist, hrest, hbody⟩

theorem yields_asyncArrow (pos : Pos) : Yields code (asyncArrow G pos) (AllStand code ·.literals) :=
  .within (Moves.position.andThen fun _ => Moves.expectName.andThen fun _ =>
    yields_arrowBody hG (by simp) _ _)

theorem yields_yieldValue : Yields code (yieldValue G) (AllStand code ·.literals) := by
  refine Moves.position.andThen fun pos => Moves.next.andThen fun _ =>
    Moves.context.andThen fun _ => .whenever Moves.fail ?_
  refine Moves.afterBreak.andThen fun _ => (Moves.isAtMark _).andThen fun _ =>
    .whenever Moves.next ?_
  refine Moves.get.andThen fun _ => .ite (fun _ => .pure (by simp)) fun _ => ?_
  exact hG.assignment.bind fun _ he => .pure he

omit hG in
/-- A left side that is read as a pattern has no literals that it did not have before. -/
theorem literals_leftSide? {parenthesis : Bool} {operator : String} {left : Expr} {target : Pattern}
    (h : leftSide? parenthesis operator left = some target) :
    target.literals.Sublist left.literals := by
  unfold leftSide? at h
  split at h
  · exact left.literals_toTarget? h
  · split at h
    · exact left.literals_toTarget? h
    · cases h

/-- The parameters are a name alone, items that were read as expressions, or what stands in
the parentheses read once more from `start` on. -/
theorem yields_arrowParams {start : State} {left : Expr} (hstart : start.In code)
    (hleft : AllStand code left.literals) (parenthesis : Bool) :
    Yields code (arrowParams G start parenthesis left) (AllStand code ·.literals) := by
  unfold arrowParams
  split
  · exact .pure (by simp)
  · refine .whenever Moves.fail (Moves.get.andThen fun s => ?_)
    split
    · rename_i items _ _
      split
      · rename_i list hlist
        have hitems : AllStand code (items.flatMap (·.literals)) := by simpa using hleft
        exact .pure (by simpa using hitems.sublist (literals_toParameters? hlist))
      · exact .fail
    · exact (Yields.set hstart).bind fun _ _ => yields_parameters hG

/-- Whether an assignment is an arrow function shows only behind what it begins with. If the
parser then goes back to `start`, it is in the code there as well. -/
theorem yields_assignment : Yields code (assignment G) (AllStand code ·.literals) := by
  refine Yields.get.bind fun start hstart => .ite (fun _ => yields_yieldValue hG) fun _ => ?_
  refine .branch (Q := fun _ => True) Moves.peek (Moves.pure _) fun ahead _ => .ite (fun _ => ?_)
    fun _ => ?_
  · exact Moves.next.andThen fun _ => yields_asyncArrow hG _
  refine (yields_ternary hG).bind fun left hleft => (Moves.isAtMark _).andThen fun _ =>
    .ite (fun _ => .ite (fun _ => ?_) fun _ => ?_) fun _ => ?_
  · -- `async` and parameters in parentheses, which are read again
    split
    · refine .within (Moves.get.andThen fun s => (Yields.set ?_).bind fun _ _ => ?_)
      · exact ⟨hstart.current, hstart.after⟩
      · exact Moves.next.andThen fun _ => (yields_parameters hG).bind fun params hparams =>
          yields_arrowBody hG hparams _ _
    · exact .fail
  · exact (yields_arrowParams hG hstart hleft _).bind fun _ hparams =>
      yields_arrowBody hG hparams _ _
  · refine Moves.token.andThen fun t => ?_
    split
    · exact .pure hleft
    · refine Moves.next.andThen fun _ => ?_
      split
      · exact .fail
      · rename_i target htarget
        have htarget := hleft.sublist (literals_leftSide? htarget)
        exact hG.assignment.bind fun value hvalue => .pure (by simpa using ⟨htarget, hvalue⟩)

theorem yields_expression : Yields code (expression G) (AllStand code ·.literals) := by
  refine (yields_assignment hG).bind fun first hfirst => (Moves.isAtMark _).andThen fun _ =>
    .ite (fun _ => .pure hfirst) fun _ => ?_
  refine .iterate (fun list => ∀ e ∈ list, AllStand code e.literals) (fun list hlist => ?_)
    (by simpa using hfirst)
  refine (Moves.skipMark _).andThen fun _ => .ite (fun _ => ?_) fun _ =>
    .stop (by simpa using hlist)
  exact hG.assignment.bind fun _ he => .collect he hlist

end TaintReach.Script.Parser
