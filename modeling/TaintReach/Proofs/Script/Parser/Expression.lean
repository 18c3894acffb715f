import TaintReach.Proofs.Script.Parser.Function
import TaintReach.Script.Parser.Expression

/-! Expressions are read in order.

Everything below an assignment may begin with a parenthesis that turns out to open the
parameters of an arrow function. So these parses are followed from a place where the
arrow is already past, if the current token is that parenthesis (`ReadsOpen`). -/
namespace TaintReach.Script.Parser

/-! ### Templates and regular expressions -/

/-- A chunk is passed over as a whole, and the place behind it follows the one before it. -/
theorem Keeps.templateChunk (tagged : Bool) : Keeps (templateChunk tagged) := by
  intro P hP
  refine Triple.get.bind fun s => ?_
  split
  · exact .fail
  · refine .whenever .fail (.setNext hP ?_ fun _ => Stays.pure _ P)
    exact s.after.offset_forward _

/-- No function starts in a regular expression, and reading one does not go back. -/
theorem reads_regexp : Reads regexp (·.outline.starts) := by
  intro xs
  refine Triple.get.bind fun s => ?_
  split
  · exact .fail
  · refine .setNext steady_past ?_ fun _ => ?_
    · exact s.after.offset_forward _
    refine (Stays.isAt _).andThen fun _ => .ite (fun _ => ?_) fun _ => .give (by simp)
    exact Keeps.next.andThen fun _ => Stays.get.andThen fun _ => .give (by simp)

variable {G : Grammar} (hG : G.Ordered)
include hG

/-- The tag was read before, so the functions in it are past when the template begins. -/
theorem reads_template (tag : Option Expr) (xs : List Nat) :
    Triple (Past (xs ++ (Expr.outline? tag).starts)) (template G tag)
      fun e => Past (xs ++ e.outline.starts) := by
  refine Stays.position.andThen fun pos => ?_
  refine .loop (fun r => xs ++ (Expr.outline? tag).starts ++ r.2.reverse.flatMap (·.outline.starts))
    (fun (chunks, holes) => ?_) (by simp)
  refine (Keeps.templateChunk _).andThen fun (raw, stop) => .ite (fun _ => .stop (by simp)) fun _ => ?_
  exact hG.expression.andThen fun hole => (Stays.isAtMark _).andThen fun _ =>
    .whenever .fail (.again (by simp))

/-! ### Members and arguments -/

theorem reads_arguments : Reads (arguments G) (·.flatMap (·.outline.starts)) := by
  intro xs
  refine (Keeps.expectMark _).discard.andThen fun _ => Triple.bind
    (Q := fun args => Past (xs ++ args.flatMap (·.outline.starts))) ?_
    fun args => (Keeps.expectMark _).discard.andThen fun _ => .give (.refl _)
  refine .loop (fun list => xs ++ list.reverse.flatMap (·.outline.starts)) (fun list => ?_) (by simp)
  refine (Stays.isAtMark _).andThen fun _ => .ite (fun _ => .stop (.refl _)) fun _ => ?_
  refine (Stays.isAtMark _).andThen fun _ => .branch (fun _ => reads_spread hG _)
    (fun _ => hG.assignment _) fun item => ?_
  exact (Keeps.skipMark _).andThen fun _ => .ite (fun _ => .again (by simp)) fun _ => .stop (by simp)

omit hG in
/-- The functions in the object are past already, and a name adds none. -/
theorem dotMember_past (object : Expr) (xs : List Nat) :
    Triple (Past (xs ++ object.outline.starts)) (dotMember object)
      fun e => Past (xs ++ e.outline.starts) := by
  refine Keeps.next.andThen fun _ => Stays.get.andThen fun _ => Stays.endTargetAtWord.andThen fun _ =>
    .ite (fun _ => Keeps.next.andThen fun _ => .give (by simp)) fun _ => ?_
  exact .whenever .fail (Keeps.next.andThen fun _ => .give (by simp))

theorem bracketMember_past (object : Expr) (xs : List Nat) :
    Triple (Past (xs ++ object.outline.starts)) (bracketMember G object)
      fun e => Past (xs ++ e.outline.starts) :=
  (Keeps.expectMark _).discard.andThen fun _ => hG.expression.andThen fun _ =>
    (Keeps.closeTarget _).andThen fun _ => .give (by simp)

theorem reads_superRef : Reads (superRef G) (·.outline.starts) := by
  intro xs
  refine (Keeps.expectKeyword _).andThen fun pos => Stays.token.andThen fun t => ?_
  have hself : ∀ l, Past xs l → Past (xs ++ (Expr.superRef pos).outline.starts) l :=
    fun _ h => by simpa using h
  simp only
  split
  · refine Stays.peek.andThen fun _ => .ite (fun _ => ?_) fun _ => .fail
    exact (dotMember_past _ xs).pre hself
  · exact (bracketMember_past hG _ xs).pre hself
  · exact (reads_arguments hG).andThen fun _ => .give (by simp)
  · exact .fail

/-! ### Primary expressions -/

/-- The parenthesis itself may be the start of the last function in `xs`. -/
theorem parenthesised_before (xs : List Nat) :
    Triple (Before (.punct "(") xs) (parenthesised G) fun e => Past (xs ++ e.outline.starts) := by
  refine Triple.expect.discard.bind fun _ => Triple.bind
    (Q := fun items => Past (xs ++ items.flatMap (·.outline.starts))) ?_ fun items => ?_
  · refine .loop (fun list => xs ++ list.reverse.flatMap (·.outline.starts)) (fun list => ?_) (by simp)
    refine (Stays.isAtMark _).andThen fun _ => .ite (fun _ => .stop (by simp)) fun _ => ?_
    refine (Keeps.skipMark _).andThen fun _ => .branch
      (fun _ => .seqRight (Stays.note _) (hG.assignment _)) (fun _ => hG.assignment _) fun item => ?_
    refine (Keeps.skipMark _).andThen fun _ => .ite (fun _ => .stop (by simp)) fun _ => ?_
    refine (Stays.isAtMark _).andThen fun _ => .ite (fun _ => ?_) fun _ => .again (by simp)
    exact Stays.note.andThen fun _ => .stop (by simp)
  · refine (Keeps.expectMark _).discard.andThen fun _ => ?_
    split
    · exact .seqRight (Stays.note _) (.give (by simp))
    · exact Stays.get.andThen fun _ => .ite (fun _ => .give (by simp)) fun _ => .give (by simp)
    · exact .give (by simp)

/-- An open parenthesis leads into what is parenthesised. Where a function starts is noted
at its keyword; for the other tokens it is enough that everything before is past. -/
theorem reads_primary : ReadsOpen (primary G) (·.outline.starts) := by
  intro xs
  refine .getOpen (fun s hs => ?_) fun s => ?_
  · simp only [hs]
    exact (parenthesised_before hG xs).pre fun _ h => h.1
  have hname : Triple (Past xs) (if isName s.context s.current.token = true then
      takeName >>= fun name => pure (Expr.identifier s.current.pos name) else fail)
      fun e => Past (xs ++ e.outline.starts) :=
    .ite (fun _ => Keeps.takeName.andThen fun _ => .give (by simp)) fun _ => .fail
  simp only
  split
  case h_6 => exact (function_pending hG xs).bind fun _ => .give (.refl _)
  all_goals refine Triple.pre (P := Past xs) ?_ fun _ h => h.past
  case h_5 => exact reads_superRef hG xs
  case h_7 => exact (reads_classBody hG false).andThen fun _ => .give (.refl _)
  case h_10 => exact (reads_template hG none xs).pre fun _ h => by simpa using h
  case h_11 | h_12 => exact reads_regexp xs
  case h_13 => exact reads_objectLiteral hG xs
  case h_14 => exact reads_arrayLiteral hG xs
  case h_15 => exact (parenthesised_before hG xs).pre fun _ h => h.before
  case h_16 =>
    refine .ite (fun _ => (reads_asyncFunction? hG false).andThen fun f => ?_) fun _ => hname
    cases f with
    | none => exact hname.pre fun _ h => by simpa using h
    | some f => exact .give (.refl _)
  all_goals exact .seqRight (Keeps.next _ steady_past) (.give (by simp))

/-! ### Calls -/

theorem reads_construct : Reads (construct G) (·.outline.starts) := by
  intro xs
  refine (Keeps.expectKeyword _).andThen fun pos => (Keeps.skipMark _).andThen fun _ => .ite ?_ ?_
  · intro _
    refine Stays.get.andThen fun _ => .ite (fun _ => ?_) fun _ => .failBind
    exact Keeps.next.andThen fun _ => Stays.get.andThen fun _ => .give (by simp)
  · intro _
    refine hG.constructed.reads.andThen fun callee => (Stays.isAtMark _).andThen fun _ => .branch
      (fun _ => reads_arguments hG _) (fun _ => .pure fun _ h => by simpa using h) fun args => ?_
    exact .give (by simp)

theorem reads_head : ReadsOpen (head G) (·.outline.starts) := by
  intro xs
  refine .tokenOpen ?_ fun t => .ite (fun _ => reads_construct hG xs) fun _ =>
    (reads_primary hG).reads xs
  exact .ite (fun h => by cases h) fun _ => reads_primary hG xs

theorem reads_constructed : ReadsOpen (constructed G) (·.outline.starts) := by
  intro xs
  refine (reads_head hG).andThen fun e => ?_
  refine .loop (fun e => xs ++ e.outline.starts) (fun e => Stays.token.andThen fun t => ?_) (.refl _)
  simp only
  split
  · exact (dotMember_past e xs).bind fun _ => .again (.refl _)
  · exact (bracketMember_past hG e xs).bind fun _ => .again (.refl _)
  · exact (reads_template hG (some e) xs).bind fun _ => .again (.refl _)
  · exact .stop (.refl _)

/-- Only the head of a chain can be at an open parenthesis; behind it everything is past. -/
theorem reads_callable : ReadsOpen (callable G) (·.outline.starts) := by
  intro xs
  refine Triple.within ((reads_head hG).andThen fun e => ?_)
  refine .loop (fun r => xs ++ r.1.outline.starts) (fun (e, optional) => Stays.token.andThen fun t => ?_)
    (.refl _)
  simp only
  split
  · exact (dotMember_past e xs).bind fun _ => .again (.refl _)
  · exact (bracketMember_past hG e xs).bind fun _ => .again (.refl _)
  · exact (reads_arguments hG).andThen fun _ => .again (by simp)
  · exact .whenever .fail ((reads_template hG (some e) xs).bind fun _ => .again (.refl _))
  · refine Stays.peek.andThen fun t => ?_
    split
    · exact Keeps.next.andThen fun _ => .again (.refl _)
    · exact Keeps.next.andThen fun _ => .again (.refl _)
    · exact Keeps.next.andThen fun _ => .again (.refl _)
    · exact (dotMember_past (.optional e) xs).bind fun _ => .again (.refl _)
  · refine .stop ?_
    split <;> exact .refl _

/-! ### Operators -/

theorem reads_update : ReadsOpen (update G) (·.outline.starts) := by
  intro xs
  have hleading : ∀ pos operator, Triple (Past xs) (update.prefixUpdate G pos operator)
      fun e => Past (xs ++ e.outline.starts) :=
    fun _ _ => Keeps.next.andThen fun _ => hG.unary.reads.andThen fun _ =>
      .ite (fun _ => .give (.refl _)) fun _ => .fail
  have htrailing : ∀ operator (operand : Expr), Triple (Past (xs ++ operand.outline.starts))
      (update.postfixUpdate operator operand) fun e => Past (xs ++ e.outline.starts) :=
    fun _ _ => Keeps.next.andThen fun _ => .ite (fun _ => .give (.refl _)) fun _ => .fail
  refine Stays.position.andThen fun pos => Triple.token.bind fun t => ?_
  split
  · exact (hleading _ _).pre fun _ h => Opens.past h (by decide)
  · exact (hleading _ _).pre fun _ h => Opens.past h (by decide)
  · refine Triple.pre (P := Opens xs) ?_ fun _ h => h.2
    refine (reads_callable hG).andThen fun operand => Stays.afterBreak.andThen fun _ =>
      .ite (fun _ => .give (.refl _)) fun _ => Stays.token.andThen fun t => ?_
    split
    · exact htrailing _ _
    · exact htrailing _ _
    · exact .give (.refl _)

theorem reads_unary : ReadsOpen (unary G) (·.outline.starts) := by
  intro xs
  refine .getOpen (fun s hs => ?_) fun s => ?_
  · simp only [hs]
    exact reads_update hG xs
  have happly : ∀ operator, Triple (Past xs)
      (next >>= fun _ => G.unary >>= fun e => pure (Expr.unary s.current.pos operator e))
      fun e => Past (xs ++ e.outline.starts) :=
    fun _ => Keeps.next.andThen fun _ => hG.unary.reads.andThen fun _ => .give (.refl _)
  refine Triple.pre (P := Past xs) ?_ fun _ h => h.past
  simp only
  split
  case h_8 =>
    refine .ite (fun _ => ?_) fun _ => (reads_update hG).reads xs
    exact Keeps.next.andThen fun _ => .whenever .fail
      (hG.unary.reads.andThen fun _ => .give (.refl _))
  case h_9 => exact (reads_update hG).reads xs
  all_goals exact happly _

theorem reads_power : ReadsOpen (power G) (·.outline.starts) := by
  intro xs
  refine (Stays.isAtMark _).andThen fun _ => (reads_unary hG).andThen fun left =>
    (Stays.isAtMark _).andThen fun _ => .whenever .fail ?_
  refine .loop (fun e => xs ++ e.outline.starts) (fun e => ?_) (.refl _)
  refine (Keeps.skipMark _).andThen fun _ => .ite (fun _ => ?_) fun _ => .stop (.refl _)
  exact hG.power.reads.andThen fun _ => .again (by simp)

omit hG in
/-- Only the first operand can be at an open parenthesis, so of the others less is asked. -/
theorem reads_leftward {operators : List String} {operand : Parse Expr}
    (h : ReadsOpen operand (·.outline.starts)) :
    ReadsOpen (leftward G operators operand) (·.outline.starts) := by
  intro xs
  refine h.andThen fun left => ?_
  refine .loop (fun e => xs ++ e.outline.starts) (fun e => Stays.token.andThen fun t => ?_) (.refl _)
  split
  · refine .ite (fun _ => Keeps.next.andThen fun _ => ?_) fun _ => .stop (.refl _)
    exact h.reads.andThen fun _ => .again (by simp)
  · exact .stop (.refl _)

theorem reads_shift : ReadsOpen (shift G) (·.outline.starts) :=
  reads_leftward <| reads_leftward <| reads_leftward <| reads_power hG

theorem reads_relation : ReadsOpen (relation G) (·.outline.starts) := by
  intro xs
  refine Triple.get.bind fun s => .ite (fun hc => ?_) fun _ => ?_
  · have hs : s.current.token ≠ .punct "(" := by
      rw [of_decide_eq_true (Bool.and_eq_true_iff.mp hc).2]
      decide
    refine Triple.pre (P := Past xs) ?_ fun l h => h.2.2 (h.1 ▸ hs)
    refine Keeps.next.andThen fun _ => (Stays.isAt _).andThen fun _ => .ite (fun _ => ?_) fun _ =>
      .give (by simp)
    exact Keeps.next.andThen fun _ => (reads_shift hG).reads.andThen fun _ =>
      Stays.get.andThen fun _ => .give (by simp)
  · refine Triple.pre (P := Opens xs) ?_ fun _ h => h.2
    refine (reads_shift hG).andThen fun left => Stays.token.andThen fun t => ?_
    split
    · exact .give (.refl _)
    · exact .within (Keeps.next.andThen fun _ => hG.relation.reads.andThen fun _ => .give (by simp))

theorem reads_conjunction : ReadsOpen (conjunction G) (·.outline.starts) :=
  reads_leftward <| reads_leftward <| reads_leftward <| reads_leftward <| reads_leftward <|
    reads_relation hG

theorem reads_disjunction : ReadsOpen (disjunction G) (·.outline.starts) := by
  intro xs
  refine (Stays.isAtMark _).andThen fun _ => (reads_conjunction hG).andThen fun left =>
    (Stays.isAtMark _).andThen fun _ => .ite (fun _ => ?_) fun _ => ?_
  · refine .loop (fun e => xs ++ e.outline.starts) (fun e => ?_) (.refl _)
    refine (Stays.isAtMark _).andThen fun _ => .whenever .fail ?_
    refine (Keeps.skipMark _).andThen fun _ => .ite (fun _ => ?_) fun _ => .stop (.refl _)
    exact (reads_conjunction hG).reads.andThen fun _ => .again (by simp)
  · refine .loop (fun e => xs ++ e.outline.starts) (fun e => ?_) (.refl _)
    refine (Stays.isAtMark _).andThen fun _ => .whenever .fail ?_
    refine (Keeps.skipMark _).andThen fun _ => .ite (fun _ => ?_) fun _ => .stop (.refl _)
    exact (Stays.isAtMark _).andThen fun _ => (reads_conjunction hG).reads.andThen fun _ =>
      .whenever .fail (.again (by simp))

theorem reads_ternary : ReadsOpen (ternary G) (·.outline.starts) := by
  intro xs
  refine (reads_disjunction hG).andThen fun test => (Keeps.skipMark _).andThen fun _ =>
    .ite (fun _ => ?_) fun _ => .give (.refl _)
  refine Triple.bind (hG.assignment _).within fun yes => (Keeps.expectMark _).discard.andThen fun _ => ?_
  exact hG.assignment.andThen fun no => .give (by simp)

/-! ### Arrow functions, assignments and sequences -/

/-- Behind the arrow, the start of the function and its parameters are past. -/
theorem arrowBody_before {pos : Pos} {params : Params} {async : Bool} (xs : List Nat) :
    Triple (Before (.punct "=>") (xs ++ pos.offset :: params.starts)) (arrowBody G pos params async)
      fun e => Past (xs ++ e.outline.starts) := by
  refine Triple.expect.discard.bind fun _ => (Stays.isAtMark _).andThen fun _ =>
    .ite (fun _ => ?_) fun _ => ?_
  · refine (reads_functionBlock hG _ _ _).andThen fun body => .give ?_
    simp [Function.start, Params.starts]
  · refine Triple.bind (hG.assignment _).within fun body => .give ?_
    simp [Function.start, Params.starts]

/-- The function starts at `async`, in front of the name that the arrow follows. -/
theorem asyncArrow_pending {pos : Pos} (xs : List Nat) :
    Triple (Pending xs pos.offset) (asyncArrow G pos) fun e => Past (xs ++ e.outline.starts) := by
  refine Triple.within (Stays.position.andThen fun at_ =>
    (Keeps.expectName _ steady_pending).bind fun name => ?_)
  refine (arrowBody_before hG xs).pre fun _ h => ?_
  simpa [Params.starts] using h.before rfl

theorem reads_yieldValue : Reads (yieldValue G) (·.outline.starts) := by
  intro xs
  refine Stays.position.andThen fun pos => Keeps.next.andThen fun _ => Stays.context.andThen fun _ =>
    .whenever .fail ?_
  refine Stays.afterBreak.andThen fun _ => (Stays.isAtMark _).andThen fun _ =>
    .whenever (Keeps.next _ steady_past) ?_
  refine Stays.get.andThen fun _ => .ite (fun _ => .give (by simp)) fun _ => ?_
  exact hG.assignment.andThen fun _ => .give (.refl _)

omit hG in
theorem starts_leftSide? {parenthesis : Bool} {operator : String} {left : Expr} {target : Pattern}
    (h : leftSide? parenthesis operator left = some target) :
    target.outline.starts.Sublist left.outline.starts := by
  unfold leftSide? at h
  split at h
  · exact left.starts_toTarget? h
  · split at h
    · exact left.starts_toTarget? h
    · cases h

/-- Behind what an assignment begins with, read from `start` on: if it began with a
parenthesis, an arrow function that starts there is past. -/
structure Begun (xs : List Nat) (start : State) (left : Expr) (l : Place) : Prop where
  past : Past (xs ++ left.outline.starts) l
  pending : Pending xs start.current.pos.offset l
  opened : start.current.token = .punct "(" →
    Past (xs ++ start.current.pos.offset :: left.outline.starts) l

/-- What an assignment begins with is followed in both ways at once: as an expression, and as
the parameters of an arrow function that starts where it does. -/
theorem ternary_begun {xs : List Nat} {start : State} (hstart : Past xs start.place) :
    Triple (fun l => l = start.place ∧ Past xs l) (ternary G) (Begun xs start) := by
  have hpending : Pending xs start.current.pos.offset start.place := hstart.pending rfl
  by_cases htoken : start.current.token = .punct "("
  · -- once the parenthesis is skipped, an arrow function that starts at it is past
    refine (reads_ternary hG (xs ++ [start.current.pos.offset])).mono (fun l h => ?_) fun left l h => ?_
    · rw [h.1]
      exact ⟨hpending.before rfl, fun hne => absurd htoken hne⟩
    · rw [← List.append_cons] at h
      refine ⟨h.sublist ?_, h.pending_of_append, fun _ => h⟩
      exact (List.Sublist.refl xs).append (List.sublist_cons_self _ _)
  · refine (((reads_ternary hG).reads xs).and (Reads.le_start (n := start.current.pos.offset)
      (reads_ternary hG).reads)).mono (fun l h => ?_) fun left l h => ?_
    · rw [h.1]
      exact ⟨hstart, hstart.1, Nat.le_refl _⟩
    · exact ⟨h.1, ⟨h.2.1, hpending.2.1, h.2.2⟩, fun ht => absurd ht htoken⟩

/-- In front of the arrow the parameters are past, in whichever way they were found. If they
are read again, that is from a place where the start of the function was pending. -/
theorem arrowParams_begun {xs : List Nat} {start : State} (hstart : Past xs start.place)
    (left : Expr) : Triple (Begun xs start left)
      (arrowParams G start (decide (start.current.token = .punct "(")) left)
      fun r => Before (.punct "=>") (xs ++ start.current.pos.offset :: r.starts) := by
  unfold arrowParams
  split
  · exact .pure fun _ h => by simpa [Params.starts] using h.pending.before rfl
  by_cases htoken : start.current.token = .punct "("
  · refine .whenever .fail (Stays.get.andThen fun s => ?_)
    split
    · rename_i items _
      split
      · rename_i list hlist
        refine .pure fun _ h => ((h.opened htoken).sublist ?_).before
        simpa [Params.starts] using starts_toParameters? hlist
      · exact .fail
    · refine Triple.set.bind fun _ => (parameters_pending hG xs _).mono (fun _ h => ?_)
        fun _ _ h => h.before
      rw [h.1]
      exact hstart.pending rfl
  · refine .ite (fun _ => .failBind) fun hc => ?_
    simp [htoken] at hc

/-- The start of an assignment is kept pending until it shows whether it is that of an arrow
function. -/
theorem reads_assignment : Reads (assignment G) (·.outline.starts) := by
  intro xs
  refine Triple.get.bind fun start => .given (φ := Past xs start.place) (fun _ h => h.1 ▸ h.2)
    fun hstart => .ite (fun _ => ?_) fun _ => ?_
  · exact (reads_yieldValue hG xs).pre fun _ h => h.2
  refine .branch (Q := fun _ l => l = start.place ∧ Past xs l) (fun _ => Stays.peek _)
    (fun _ => Stays.pure _ _) fun ahead => .ite (fun _ => ?_) fun _ => ?_
  · refine Triple.pre (P := Pending xs start.current.pos.offset) ?_ fun _ h => ?_
    · exact (Keeps.next _ steady_pending).bind fun _ => asyncArrow_pending hG xs
    · exact h.2.pending (h.1 ▸ rfl)
  refine (ternary_begun hG hstart).bind fun left => (Stays.isAtMark _).andThen fun _ =>
    .ite (fun _ => .ite (fun _ => ?_) fun _ => ?_) fun _ => ?_
  · -- `async` and parameters in parentheses, which are read again
    split
    · refine Triple.within (Stays.get.andThen fun s => Triple.set.bind fun _ => ?_)
      refine Triple.pre (P := Pending xs start.current.pos.offset) ?_ fun _ h => ?_
      · refine (Keeps.next _ steady_pending).bind fun _ => (parameters_pending hG _ _).bind fun _ => ?_
        exact (arrowBody_before hG xs).pre fun _ h => h.before
      · rw [h.1]
        exact hstart.pending rfl
    · exact .fail
  · exact (arrowParams_begun hG hstart left).bind fun _ => arrowBody_before hG xs
  · refine Stays.token.andThen fun t => ?_
    refine Triple.pre (P := Past (xs ++ left.outline.starts)) ?_ fun _ h => h.past
    split
    · exact .give (.refl _)
    · refine Keeps.next.andThen fun _ => ?_
      split
      · exact .fail
      · rename_i target htarget
        refine hG.assignment.andThen fun value => .give ?_
        simpa using starts_leftSide? htarget

theorem reads_expression : Reads (expression G) (·.outline.starts) := by
  intro xs
  refine (reads_assignment hG).andThen fun first => (Stays.isAtMark _).andThen fun _ =>
    .ite (fun _ => .give (.refl _)) fun _ => ?_
  refine .loop (fun items => xs ++ items.reverse.flatMap (·.outline.starts)) (fun items => ?_) (by simp)
  refine (Keeps.skipMark _).andThen fun _ => .ite (fun _ => ?_) fun _ => .stop (by simp)
  exact hG.assignment.andThen fun _ => .again (by simp)

end TaintReach.Script.Parser
