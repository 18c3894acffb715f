import TaintReach.Proofs.Script.Literal.Token
import TaintReach.Proofs.Script.Literal.Within
import TaintReach.Proofs.Script.Parser.Triple

/-! What a parse gives, as it stands in the code.

The parser is always somewhere in the code, on a token that stands there (`State.In`). A
parse that starts so ends so, and what it gives depends on the code only through the tokens
that it has been on (`Yields`). The rules follow the constructs that the grammar is written
with. -/
namespace TaintReach.Script

open Script.Literal

/-! ### Literals in the code -/

/-- The literal is spelled like this and has this value. -/
inductive Spells : Expr → List Char → Meaning → Prop
  | null {pos : Pos} : Spells (.null pos) "null".toList .null
  | boolean {pos : Pos} (value : Bool) :
    Spells (.boolean pos value) (if value then "true" else "false").toList (.boolean value)
  | number {pos : Pos} {raw : String} {value : Numeral} (h : Numeric raw.toList value.worth) :
    Spells (.number pos raw value) raw.toList value.worth
  | string {pos : Pos} {raw : String} {q : Quote} {t : List Char} {us units : List Nat}
    (hq : q ≠ .back) (hraw : raw.toList = q.char :: (t ++ [q.char])) (h : Quotation q t us)
    (hempty : us = [] ↔ units = []) : Spells (.string pos raw units) raw.toList (.string us)
  | regexp {pos : Pos} {raw : String} (t : List Char) : Spells (.regexp pos raw) ('/' :: t) .object
  | template {pos : Pos} {chunk : String} {us : List Nat} (h : Quotation .back chunk.toList us) :
    Spells (.template pos none [chunk] []) ('\x60' :: (chunk.toList ++ ['\x60'])) (.string us)

variable {code : List Char}

/-- The literal stands in the code at its place. -/
def Expr.Stands (code : List Char) (e : Expr) : Prop :=
  ∃ text v, StandsAt code e.pos.offset text ∧ Spells e text v

def AllStand (code : List Char) (es : List Expr) : Prop := ∀ e ∈ es, e.Stands code

@[simp] theorem allStand_nil : AllStand code [] := fun _ h => by cases h

@[simp] theorem allStand_singleton {e : Expr} : AllStand code [e] ↔ e.Stands code :=
  List.forall_mem_singleton

@[simp] theorem allStand_append {es es' : List Expr} :
    AllStand code (es ++ es') ↔ AllStand code es ∧ AllStand code es' :=
  List.forall_mem_append

@[simp] theorem allStand_flatMap {α : Type} {as : List α} {f : α → List Expr} :
    AllStand code (as.flatMap f) ↔ ∀ a ∈ as, AllStand code (f a) :=
  List.forall_mem_flatMap

theorem AllStand.sublist {es es' : List Expr} (h : AllStand code es) (hsub : es'.Sublist es) :
    AllStand code es' :=
  fun e he => h e (hsub.subset he)

/-! ### Parses -/

namespace Parser

variable {α β σ : Type} {s : State} {p q : Parse α} {Q : α → Prop} {f : α → Parse β} {R : β → Prop}

/-- The parser is in the code, on a token that stands there. -/
structure State.In (code : List Char) (s : State) : Prop where
  current : s.current.Stands code s.after
  after : s.after.At code

/-- From this state, a parse that succeeds stays in the code and gives something with `Q`. -/
def YieldsAt (code : List Char) (s : State) (p : Parse α) (Q : α → Prop) : Prop :=
  ∀ a t, p s = .ok (a, t) → t.In code ∧ Q a

/-- A parse that succeeds stays in the code and gives something with `Q`. -/
def Yields (code : List Char) (p : Parse α) (Q : α → Prop) : Prop :=
  ∀ s : State, s.In code → YieldsAt code s p Q

theorem YieldsAt.bind (hp : YieldsAt code s p Q) (hf : ∀ a, Q a → Yields code (f a) R) :
    YieldsAt code s (p >>= f) R := by
  intro b t h
  obtain ⟨a, u, ha, hb⟩ := bind_eq_ok.mp h
  obtain ⟨hu, hQ⟩ := hp a u ha
  exact hf a hQ u hu b t hb

theorem YieldsAt.get {f : State → Parse α} (h : YieldsAt code s (f s) Q) :
    YieldsAt code s (MonadState.get >>= f) Q := by
  intro a t ha
  obtain ⟨_, _, hget, hrest⟩ := bind_eq_ok.mp ha
  cases hget
  exact h a t hrest

theorem YieldsAt.position {f : Pos → Parse α} (h : YieldsAt code s (f s.current.pos) Q) :
    YieldsAt code s (position >>= f) Q := by
  intro a t ha
  obtain ⟨_, _, hposition, hrest⟩ := bind_eq_ok.mp ha
  cases hposition
  exact h a t hrest

/-- A parse that looks at the state first. -/
theorem Yields.ofState {f : State → Parse α}
    (h : ∀ s : State, s.In code → YieldsAt code s (f s) Q) :
    Yields code (MonadState.get >>= f) Q :=
  fun s hs => (h s hs).get

namespace Yields

theorem bind (hp : Yields code p Q) (hf : ∀ a, Q a → Yields code (f a) R) :
    Yields code (p >>= f) R :=
  fun s hs => (hp s hs).bind hf

theorem pure {a : α} (h : Q a) : Yields code (Pure.pure a) Q := by
  intro s hs b t hb
  cases hb
  exact ⟨hs, h⟩

theorem fail : Yields code fail Q := fun _ _ _ _ h => by cases h

theorem mono {Q' : α → Prop} (h : Yields code p Q) (hQ : ∀ a, Q a → Q' a) : Yields code p Q' :=
  fun s hs a t ha => (h s hs a t ha).imp_right (hQ a)

theorem get : Yields code MonadState.get (State.In code) := by
  intro s hs a t h
  cases h
  exact ⟨hs, hs⟩

theorem set (hs : s.In code) : Yields code (MonadStateOf.set s) fun _ => True := by
  intro u _ a t h
  cases h
  exact ⟨hs, trivial⟩

theorem ite {c : Prop} [Decidable c] (hp : c → Yields code p Q) (hq : ¬ c → Yields code q Q) :
    Yields code (if c then p else q) Q := by
  split
  · exact hp ‹c›
  · exact hq ‹¬ c›

/-- What one of two parses gives is handed on. -/
theorem branch {c : Prop} [Decidable c] (hp : Yields code p Q) (hq : Yields code q Q)
    (hf : ∀ a, Q a → Yields code (f a) R) :
    Yields code (if c then p >>= f else q >>= f) R :=
  ite (fun _ => hp.bind hf) fun _ => hq.bind hf

theorem pureBind {a : α} (h : Yields code (f a) R) : Yields code (Pure.pure a >>= f) R :=
  (pure (Q := (· = a)) rfl).bind fun _ hb => hb ▸ h

theorem failBind : Yields code (Parser.fail >>= f) R := by
  intro s _ b t h
  cases h

/-- Something is read under a condition only. -/
theorem optional {c : Prop} [Decidable c] {f : Option α → Parse β} {S : Option α → Prop}
    (hp : Yields code p fun a => S (some a)) (hnone : S none)
    (hf : ∀ o, S o → Yields code (f o) R) :
    Yields code (if c then p >>= fun a => Pure.pure (some a) >>= f else Pure.pure none >>= f) R :=
  ite (fun _ => hp.bind fun a ha => pureBind (hf (some a) ha)) fun _ => pureBind (hf none hnone)

/-- The same, where it may also be wrong that nothing stands there. -/
theorem optionalOrFail {c d : Prop} [Decidable c] [Decidable d] {f : Option α → Parse β}
    {S : Option α → Prop} (hp : Yields code p fun a => S (some a)) (hnone : S none)
    (hf : ∀ o, S o → Yields code (f o) R) :
    Yields code (if c then p >>= fun a => Pure.pure (some a) >>= f
      else if d then Parser.fail >>= f else Pure.pure none >>= f) R :=
  ite (fun _ => hp.bind fun a ha => pureBind (hf (some a) ha))
    fun _ => ite (fun _ => failBind) fun _ => pureBind (hf none hnone)

theorem seqRight {r : Parse β} (hp : Yields code p Q) (hr : Yields code r R) :
    Yields code (p *> r) R :=
  show Yields code (p >>= fun _ => r) R from hp.bind fun _ _ => hr

/-- What the steps of a repetition lead to: something to go on with, or the result. -/
def Loop (I : σ → Prop) (R : β → Prop) (r : σ ⊕ β) : Prop := r.elim I R

theorem again {I : σ → Prop} {x : σ} (h : I x) :
    Yields code (Pure.pure (Sum.inl x)) (Loop I R) :=
  pure h

theorem stop {I : σ → Prop} {b : β} (h : R b) : Yields code (Pure.pure (Sum.inr b)) (Loop I R) :=
  pure h

/-- What is repeated is collected in a list, the last first. -/
theorem collect {P : α → Prop} {a : α} {list : List α} (ha : P a) (h : ∀ a ∈ list, P a) :
    Yields code (Pure.pure (Sum.inl (a :: list))) (Loop (fun list => ∀ a ∈ list, P a) R) :=
  again (List.forall_mem_cons.mpr ⟨ha, h⟩)

theorem collected {P : α → Prop} {I : σ → Prop} {list : List α} (h : ∀ a ∈ list, P a) :
    Yields code (Pure.pure (Sum.inr list.reverse)) (Loop I fun list => ∀ a ∈ list, P a) :=
  stop fun a ha => h a (List.mem_reverse.mp ha)

/-- A repetition keeps what each of its steps keeps. -/
theorem iterate (I : σ → Prop) {step : σ → Parse (σ ⊕ β)}
    (hstep : ∀ x, I x → Yields code (step x) (Loop I R)) {n : Nat} {x : σ} (hx : I x) :
    Yields code (iterate step n x) R := by
  induction n generalizing x with
  | zero => exact fail
  | succ n ih =>
    refine (hstep x hx).bind fun r hr => ?_
    cases r with
    | inl y => exact ih hr
    | inr b => exact pure hr

/-- The same, where the first step is taken from a certain state. -/
theorem iterateAt (I : σ → Prop) {step : σ → Parse (σ ⊕ β)}
    (hstep : ∀ x, I x → Yields code (step x) (Loop I R)) {n : Nat} {x : σ}
    (hx : YieldsAt code s (step x) (Loop I R)) : YieldsAt code s (Parser.iterate step n x) R := by
  cases n with
  | zero => exact fun _ _ h => by cases h
  | succ n =>
    refine hx.bind fun r hr => ?_
    cases r with
    | inl y => exact iterate I hstep hr
    | inr b => exact pure hr

end Yields

/-! ### Parses that give no literals -/

/-- A parse that stays in the code. -/
def Moves (code : List Char) (p : Parse α) : Prop := Yields code p fun _ => True

/-- A step leads to a token that stands in the code, whatever the parser was on. -/
theorem next_in {t : State} {a : Unit} (hs : s.after.At code) (h : next s = .ok (a, t)) :
    t.In code := by
  obtain ⟨hlexeme, hafter⟩ :=
    scan_stands s.context.awaitReserved s.context.yieldReserved s.canEnd hs
  cases h
  exact ⟨hlexeme, hafter⟩

namespace Moves

theorem andThen (h : Moves code p) (hf : ∀ a, Yields code (f a) R) : Yields code (p >>= f) R :=
  h.bind fun a _ => hf a

theorem bind (h : Moves code p) (hf : ∀ a, Moves code (f a)) : Moves code (p >>= f) := h.andThen hf

theorem pure (a : α) : Moves code (Pure.pure a) := Yields.pure trivial

theorem fail : Moves code (Parser.fail : Parse α) := Yields.fail

theorem get : Moves code MonadState.get := Yields.get.mono fun _ _ => trivial

theorem ite {c : Prop} [Decidable c] (hp : Moves code p) (hq : Moves code q) :
    Moves code (if c then p else q) :=
  Yields.ite (fun _ => hp) fun _ => hq

theorem discard (h : Moves code p) : Moves code (Functor.discard p) :=
  show Moves code (p >>= fun _ => Pure.pure ()) from h.bind fun _ => pure ()

/-- What stands in the code does not depend on the surroundings. -/
theorem changeContext {g : State → Context} :
    Moves code (modify fun s : State => { s with context := g s } : Parse Unit) := by
  intro s hs a t h
  cases h
  exact ⟨⟨hs.current, hs.after⟩, trivial⟩

theorem modify {g : State → State} (hg : ∀ s : State, s.In code → (g s).In code) :
    Moves code (modify g : Parse Unit) := by
  intro s hs a t h
  cases h
  exact ⟨hg s hs, trivial⟩

theorem note : Moves code note := modify fun _ h => ⟨h.current, h.after⟩

theorem token : Moves code token := get.bind fun _ => pure _

theorem position : Moves code position := get.bind fun _ => pure _

theorem context : Moves code context := get.bind fun _ => pure _

theorem setContext (c : Context) : Moves code (setContext c) := changeContext

theorem peek : Moves code peek := get.bind fun _ => pure _

theorem isAt (t : Token) : Moves code (isAt t) := token.bind fun _ => pure _

theorem isAtMark (m : String) : Moves code (isAtMark m) := isAt _

theorem atName : Moves code atName := get.bind fun _ => pure _

theorem endTarget (n : Nat) : Moves code (endTarget n) := modify fun _ h => ⟨h.current, h.after⟩

theorem endTargetAtWord : Moves code endTargetAtWord := get.bind fun _ => endTarget _

theorem afterBreak : Moves code afterBreak := get.bind fun _ => pure _

theorem useBreak : Moves code useBreak := modify fun _ h => ⟨h.current, h.after⟩

theorem next : Moves code next := fun _ hs _ _ h => ⟨next_in hs.after h, trivial⟩

theorem skipMark (m : String) : Moves code (skipMark m) :=
  (isAtMark m).bind fun _ => ite (next.bind fun _ => pure _) (pure _)

theorem expect (t : Token) : Moves code (expect t) :=
  position.bind fun _ => (isAt t).bind fun _ => ite (next.bind fun _ => pure _) fail

theorem expectMark (m : String) : Moves code (expectMark m) := expect _

theorem expectKeyword (word : String) : Moves code (expectKeyword word) := expect _

theorem takeName : Moves code takeName :=
  get.bind fun _ => endTargetAtWord.bind fun _ => next.bind fun _ => pure _

theorem closeTarget (m : String) : Moves code (closeTarget m) :=
  (expectMark m).bind fun _ => endTarget _

theorem expectName : Moves code expectName := atName.bind fun _ => ite takeName fail

theorem semicolon : Moves code semicolon :=
  token.bind fun _ => ite (pure _) <| afterBreak.bind fun _ => ite useBreak (expectMark _).discard

theorem optionalSemicolon : Moves code optionalSemicolon :=
  (skipMark _).bind fun _ => ite (pure _) <| afterBreak.bind fun _ => ite useBreak <|
    token.bind fun _ => ite (pure _) (expectMark _).discard

end Moves

namespace Yields

/-- Something is done under a condition only. -/
theorem whenever {c : Prop} [Decidable c] {p : Parse Unit} {f : Unit → Parse β}
    (hp : Moves code p) (hf : Yields code (f ()) R) :
    Yields code (if c then p >>= f else f ()) R :=
  ite (fun _ => hp.andThen fun _ => hf) fun _ => hf

theorem within {change : Context → Context} (h : Yields code p Q) :
    Yields code (within change p) Q :=
  Moves.context.andThen fun _ => (Moves.setContext _).andThen fun _ => h.bind fun _ ha =>
    Moves.changeContext.andThen fun _ => pure ha

/-- A step from some place in the code. -/
theorem setNext {f : Unit → Parse β} (hs : s.after.At code) (hf : ∀ a, Yields code (f a) R) :
    Yields code (MonadStateOf.set s >>= fun _ => Parser.next >>= f) R := by
  intro u _ b t h
  obtain ⟨_, v, hset, h⟩ := bind_eq_ok.mp h
  cases hset
  obtain ⟨a, w, hnext, hrest⟩ := bind_eq_ok.mp h
  exact hf a w (next_in hs hnext) b t hrest

end Yields

end Parser

end TaintReach.Script
