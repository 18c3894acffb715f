import Mathlib.Data.List.Basic
import TaintReach.Proofs.Script.Parser.Place

/-! What a parse leads to.

A triple says what holds of the place and the result behind a parse that succeeds,
given what holds of the place before it. The rules follow the constructs that the
grammar is written with. Some parses do not move (`Stays`); some only step from token
to token (`Keeps`), and so keep every condition that steps keep. What the others find
is told by the places where functions start: `Past xs` says that these lie before the
current token, each before the next. -/
namespace TaintReach.Script.Parser

variable {α β σ : Type} {P P' : Place → Prop} {p q : Parse α} {Q Q' : α → Place → Prop}
  {f : α → Parse β} {R : β → Place → Prop}

/-- From a place with `P`, a parse that succeeds leads to one with `Q` of the result. -/
def Triple (P : Place → Prop) (p : Parse α) (Q : α → Place → Prop) : Prop :=
  ∀ s a t, P s.place → p s = .ok (a, t) → Q a t.place

theorem bind_eq_ok {s t : State} {b : β} :
    (p >>= f) s = .ok (b, t) ↔ ∃ a u, p s = .ok (a, u) ∧ f a u = .ok (b, t) := by
  show (Except.bind (p s) fun r => f r.1 r.2) = .ok (b, t) ↔ _
  cases hp : p s with
  | error e => simp [Except.bind]
  | ok r =>
    obtain ⟨a, u⟩ := r
    simp [Except.bind]

namespace Triple

theorem bind (hp : Triple P p Q) (hf : ∀ a, Triple (Q a) (f a) R) : Triple P (p >>= f) R := by
  intro s b t hs h
  obtain ⟨a, u, ha, hb⟩ := bind_eq_ok.mp h
  exact hf a u b t (hp s a u hs ha) hb

theorem pure {a : α} (h : ∀ l, P l → Q a l) : Triple P (Pure.pure a) Q := by
  intro s b t hs hb
  cases hb
  exact h _ hs

theorem fail : Triple P fail Q := fun _ _ _ _ h => by cases h

theorem mono (h : Triple P p Q) (hP : ∀ l, P' l → P l) (hQ : ∀ a l, Q a l → Q' a l) :
    Triple P' p Q' :=
  fun s a t hs ha => hQ a t.place (h s a t (hP _ hs) ha)

theorem pre (h : Triple P p Q) (hP : ∀ l, P' l → P l) : Triple P' p Q := h.mono hP fun _ _ h => h

theorem post (h : Triple P p Q) (hQ : ∀ a l, Q a l → Q' a l) : Triple P p Q' :=
  h.mono (fun _ h => h) hQ

/-- What the precondition says apart from the place is at hand. -/
theorem given {φ : Prop} (hφ : ∀ l, P l → φ) (h : φ → Triple P p Q) : Triple P p Q :=
  fun s a t hs => h (hφ _ hs) s a t hs

theorem and {Q Q' : α → Place → Prop} {P' : Place → Prop} (h : Triple P p Q) (h' : Triple P' p Q') :
    Triple (fun l => P l ∧ P' l) p fun a l => Q a l ∧ Q' a l :=
  fun s a t hs ha => ⟨h s a t hs.1 ha, h' s a t hs.2 ha⟩

theorem get : Triple P MonadState.get fun s l => l = s.place ∧ P l := by
  intro s a t hs h
  cases h
  exact ⟨rfl, hs⟩

theorem set {s : State} : Triple P (MonadStateOf.set s) fun _ l => l = s.place ∧ ∃ k, P k := by
  intro u a t hu h
  cases h
  exact ⟨rfl, u.place, hu⟩

theorem next : Triple P next fun _ l => ∃ k, P k ∧ k.Follows l :=
  fun s _ _ hs h => ⟨s.place, hs, follows_of_next h⟩

theorem ite {c : Prop} [Decidable c] (hp : c → Triple P p Q) (hq : ¬ c → Triple P q Q) :
    Triple P (if c then p else q) Q := by
  split
  · exact hp ‹c›
  · exact hq ‹¬ c›

/-- What one of two parses gives is handed on. -/
theorem branch {c : Prop} [Decidable c] (hp : c → Triple P p Q) (hq : ¬ c → Triple P q Q)
    (hf : ∀ a, Triple (Q a) (f a) R) : Triple P (if c then p >>= f else q >>= f) R :=
  ite (fun hc => (hp hc).bind hf) fun hc => (hq hc).bind hf

/-- Something is done under a condition only. -/
theorem whenever {c : Prop} [Decidable c] {p : Parse Unit} {f : Unit → Parse β}
    (hp : Triple P p fun _ => P) (hf : Triple P (f ()) R) :
    Triple P (if c then p >>= f else f ()) R :=
  ite (fun _ => hp.bind fun _ => hf) fun _ => hf

theorem pureBind {a : α} (h : Triple P (f a) R) : Triple P (Pure.pure a >>= f) R :=
  (pure (Q := fun b l => b = a ∧ P l) fun _ h => ⟨rfl, h⟩).bind fun _ =>
    fun s b t ⟨heq, hs⟩ hb => h s b t hs (heq ▸ hb)

theorem failBind : Triple P (Parser.fail >>= f) R := by
  intro s b t _ h
  cases h

/-- Something is read under a condition only. -/
theorem optional {c : Prop} [Decidable c] {f : Option α → Parse β} {S : Option α → Place → Prop}
    (hp : Triple P p fun a => S (some a)) (hnone : ∀ l, P l → S none l)
    (hf : ∀ o, Triple (S o) (f o) R) :
    Triple P (if c then p >>= fun a => Pure.pure (some a) >>= f else Pure.pure none >>= f) R :=
  ite (fun _ => hp.bind fun a => pureBind (hf (some a)))
    fun _ => pureBind ((hf none).pre hnone)

/-- The same, where it may also be wrong that nothing stands there. -/
theorem optionalOrFail {c d : Prop} [Decidable c] [Decidable d] {f : Option α → Parse β}
    {S : Option α → Place → Prop} (hp : Triple P p fun a => S (some a))
    (hnone : ∀ l, P l → S none l) (hf : ∀ o, Triple (S o) (f o) R) :
    Triple P (if c then p >>= fun a => Pure.pure (some a) >>= f
      else if d then Parser.fail >>= f else Pure.pure none >>= f) R :=
  ite (fun _ => hp.bind fun a => pureBind (hf (some a)))
    fun _ => ite (fun _ => failBind) fun _ => pureBind ((hf none).pre hnone)

theorem discard (h : Triple P p fun _ => P') : Triple P (Functor.discard p) fun _ => P' :=
  show Triple P (p >>= fun _ => Pure.pure ()) fun _ => P' from h.bind fun _ => pure fun _ h => h

theorem seqRight {r : Parse β} (hp : Triple P p fun _ => P') (hr : Triple P' r R) :
    Triple P (p *> r) R :=
  show Triple P (p >>= fun _ => r) R from hp.bind fun _ => hr

/-- A repetition keeps what each of its steps keeps. -/
theorem iterate {I : σ → Place → Prop} {step : σ → Parse (σ ⊕ β)}
    (hstep : ∀ x, Triple (I x) (step x) fun r l => r.elim (I · l) (R · l)) (n : Nat) (x : σ) :
    Triple (I x) (iterate step n x) R := by
  induction n generalizing x with
  | zero => exact fail
  | succ n ih =>
    refine (hstep x).bind fun r => ?_
    cases r with
    | inl y => exact ih y
    | inr b => exact pure fun _ h => h

end Triple

/-! ### Parses that do not move -/

/-- Whatever holds of the place still holds. -/
def Stays (p : Parse α) : Prop := ∀ P, Triple P p fun _ => P

namespace Stays

theorem andThen (h : Stays p) (hf : ∀ a, Triple P (f a) R) : Triple P (p >>= f) R := (h P).bind hf

theorem bind (h : Stays p) (hf : ∀ a, Stays (f a)) : Stays (p >>= f) :=
  fun P => h.andThen fun a => hf a P

theorem pure (a : α) : Stays (Pure.pure a) := fun _ => .pure fun _ h => h

theorem fail : Stays (Parser.fail : Parse α) := fun _ => .fail

theorem get : Stays MonadState.get := fun _ => Triple.get.post fun _ _ h => h.2

theorem modify {f : State → State} (hf : ∀ s, (f s).place = s.place) :
    Stays (modify f : Parse Unit) := by
  intro P s a t hs h
  cases h
  rwa [hf]

theorem note : Stays note := modify fun _ => rfl

theorem token : Stays token := get.bind fun _ => pure _

theorem position : Stays position := get.bind fun _ => pure _

theorem context : Stays context := get.bind fun _ => pure _

theorem setContext (c : Context) : Stays (setContext c) := modify fun _ => rfl

theorem peek : Stays peek := get.bind fun _ => pure _

theorem isAt (t : Token) : Stays (isAt t) := token.bind fun _ => pure _

theorem isAtMark (m : String) : Stays (isAtMark m) := isAt _

theorem atName : Stays atName := get.bind fun _ => pure _

theorem endTarget (n : Nat) : Stays (endTarget n) := modify fun _ => rfl

theorem endTargetAtWord : Stays endTargetAtWord := get.bind fun _ => endTarget _

theorem afterBreak : Stays afterBreak := get.bind fun _ => pure _

theorem useBreak : Stays useBreak := modify fun _ => rfl

end Stays

namespace Triple

theorem token : Triple P token fun t l => t = l.token ∧ P l :=
  get.bind fun s => pure fun l ⟨hl, h⟩ => ⟨by rw [hl]; rfl, h⟩

theorem position : Triple P position fun pos l => pos.offset = l.start ∧ P l :=
  get.bind fun s => pure fun l ⟨hl, h⟩ => ⟨by rw [hl]; rfl, h⟩

theorem isAt {t : Token} : Triple P (isAt t) fun b l => (b = true ↔ l.token = t) ∧ P l :=
  token.bind fun _ => pure fun _ ⟨ht, h⟩ => ⟨by rw [ht]; exact decide_eq_true_iff, h⟩

theorem within {change : Context → Context} (h : Triple P p Q) : Triple P (within change p) Q :=
  Stays.context.andThen fun _ => (Stays.setContext _).andThen fun _ => h.bind fun _ =>
    Stays.andThen (.modify fun _ => rfl) fun _ => pure fun _ h => h

end Triple

/-! ### Parses that only step -/

/-- A condition that every step keeps. -/
def Steady (P : Place → Prop) : Prop := ∀ {k l : Place}, P k → k.Follows l → P l

/-- Whatever steps keep still holds. -/
def Keeps (p : Parse α) : Prop := ∀ P, Steady P → Triple P p fun _ => P

theorem Stays.keeps (h : Stays p) : Keeps p := fun P _ => h P

namespace Keeps

theorem bind (h : Keeps p) (hf : ∀ a, Keeps (f a)) : Keeps (p >>= f) :=
  fun P hP => (h P hP).bind fun a => hf a P hP

theorem ite {c : Prop} [Decidable c] (hp : Keeps p) (hq : Keeps q) : Keeps (if c then p else q) :=
  fun P hP => .ite (fun _ => hp P hP) fun _ => hq P hP

theorem discard (h : Keeps p) : Keeps (Functor.discard p) := fun P hP => (h P hP).discard

theorem pure (a : α) : Keeps (Pure.pure a) := (Stays.pure a).keeps

theorem fail : Keeps (Parser.fail : Parse α) := Stays.fail.keeps

theorem next : Keeps next :=
  fun _ hP => Triple.next.post fun _ _ ⟨_, hk, hfollows⟩ => hP hk hfollows

theorem skipMark (m : String) : Keeps (skipMark m) :=
  (Stays.isAtMark m).keeps.bind fun _ => ite (next.bind fun _ => pure _) (pure _)

theorem expect (t : Token) : Keeps (expect t) :=
  Stays.position.keeps.bind fun _ => (Stays.isAt t).keeps.bind fun _ =>
    ite (next.bind fun _ => pure _) fail

theorem expectMark (m : String) : Keeps (expectMark m) := expect _

theorem expectKeyword (word : String) : Keeps (expectKeyword word) := expect _

theorem takeName : Keeps takeName :=
  Stays.get.keeps.bind fun _ => Stays.endTargetAtWord.keeps.bind fun _ => next.bind fun _ => pure _

theorem closeTarget (m : String) : Keeps (closeTarget m) :=
  (expectMark m).bind fun _ => (Stays.endTarget _).keeps

theorem expectName : Keeps expectName := Stays.atName.keeps.bind fun _ => ite takeName fail

theorem semicolon : Keeps semicolon :=
  Stays.token.keeps.bind fun _ => ite (pure _) <| Stays.afterBreak.keeps.bind fun _ =>
    ite Stays.useBreak.keeps (expectMark _).discard

theorem optionalSemicolon : Keeps optionalSemicolon :=
  (skipMark _).bind fun _ => ite (pure _) <| Stays.afterBreak.keeps.bind fun _ =>
    ite Stays.useBreak.keeps <| Stays.token.keeps.bind fun _ =>
      ite (pure _) (expectMark _).discard

end Keeps

/-! ### Where functions start -/

/-- The numbers increase up to `hi`. -/
def Ascends (xs : List Nat) (hi : Nat) : Prop := xs.Pairwise (· < ·) ∧ ∀ x ∈ xs, x < hi

namespace Ascends

variable {xs ys : List Nat} {hi hi' : Nat}

theorem mono (h : Ascends xs hi) (hle : hi ≤ hi') : Ascends xs hi' :=
  ⟨h.1, fun x hx => Nat.lt_of_lt_of_le (h.2 x hx) hle⟩

theorem sublist (h : Ascends xs hi) (hsub : ys.Sublist xs) : Ascends ys hi :=
  ⟨h.1.sublist hsub, fun x hx => h.2 x (hsub.subset hx)⟩

theorem concat (h : Ascends xs hi) (hlt : hi < hi') : Ascends (xs ++ [hi]) hi' := by
  refine ⟨List.pairwise_append.mpr ⟨h.1, List.pairwise_singleton _ _, fun x hx y hy => ?_⟩, ?_⟩
  · rw [List.mem_singleton.mp hy]
    exact h.2 x hx
  · intro x hx
    rcases List.mem_append.mp hx with hx | hx
    · exact Nat.lt_trans (h.2 x hx) hlt
    · rwa [List.mem_singleton.mp hx]

end Ascends

/-- The current token is behind all of `xs`. -/
def Past (xs : List Nat) (l : Place) : Prop := l.Ready ∧ Ascends xs l.start

/-- If the current token is `t`, what follows it is behind all of `xs`. -/
def Before (t : Token) (xs : List Nat) (l : Place) : Prop :=
  l.Ready ∧ (l.token = t → Ascends xs l.stop)

/-- The current token is behind all of `xs`, or it is an opening parenthesis and what
follows it is. -/
def Opens (xs : List Nat) (l : Place) : Prop :=
  Before (.punct "(") xs l ∧ (l.token ≠ .punct "(" → Past xs l)

/-- Something started at `n`, behind all of `xs` and not behind the current token. -/
def Pending (xs : List Nat) (n : Nat) (l : Place) : Prop := l.Ready ∧ Ascends xs n ∧ n ≤ l.start

/-- A step from a place further on in the text. -/
theorem Triple.setNext {s s' : State} (hP : Steady P) (hstop : s.place.stop ≤ s'.place.stop)
    {f : Unit → Parse β} (hf : ∀ a, Triple P (f a) R) :
    Triple (fun l => l = s.place ∧ P l) (MonadStateOf.set s' >>= fun _ => Parser.next >>= f) R := by
  refine Triple.set.bind fun _ => (Triple.next.post fun _ l h => ?_).bind hf
  obtain ⟨_, ⟨rfl, _, rfl, hs⟩, hready, hle⟩ := h
  exact hP hs ⟨hready, Nat.le_trans hstop hle⟩

section
variable {xs ys : List Nat} {n : Nat} {l : Place} {t : Token}

theorem Past.sublist (h : Past xs l) (hsub : ys.Sublist xs) : Past ys l := ⟨h.1, h.2.sublist hsub⟩

theorem Past.before (h : Past xs l) : Before t xs l := ⟨h.1, fun _ => h.2.mono h.1.le⟩

theorem Past.opens (h : Past xs l) : Opens xs l := ⟨h.before, fun _ => h⟩

theorem Past.pending (h : Past xs l) (hn : n = l.start) : Pending xs n l :=
  ⟨h.1, hn ▸ h.2, Nat.le_of_eq hn⟩

/-- Nothing is open at a token other than a parenthesis. -/
theorem Opens.past (h : t = l.token ∧ Opens xs l) (ht : t ≠ .punct "(") : Past xs l :=
  h.2.2 (h.1 ▸ ht)

theorem Past.pending_of_append (h : Past (xs ++ n :: ys) l) : Pending xs n l := by
  obtain ⟨hready, hpairs, hlt⟩ := h
  obtain ⟨hxs, _, hcross⟩ := List.pairwise_append.mp hpairs
  refine ⟨hready, ⟨hxs, fun x hx => hcross x hx n List.mem_cons_self⟩, Nat.le_of_lt (hlt n ?_)⟩
  exact List.mem_append_right _ List.mem_cons_self

theorem Pending.past (h : Pending xs n l) : Past xs l := ⟨h.1, h.2.1.mono h.2.2⟩

theorem Pending.before (h : Pending xs n l) (ht : t.isSolid = true) : Before t (xs ++ [n]) l :=
  ⟨h.1, fun hl => h.2.1.concat (Nat.lt_of_le_of_lt h.2.2 (h.1.lt (hl ▸ ht)))⟩

theorem steady_past : Steady (Past xs) :=
  fun h hl => ⟨hl.1, h.2.mono (Nat.le_trans h.1.le hl.2)⟩

theorem steady_pending : Steady (Pending xs n) :=
  fun h hl => ⟨hl.1, h.2.1, Nat.le_trans h.2.2 (Nat.le_trans h.1.le hl.2)⟩

theorem Keeps.andThen (h : Keeps p) (hf : ∀ a, Triple (Past xs) (f a) R) :
    Triple (Past xs) (p >>= f) R :=
  (h _ steady_past).bind hf

/-- Behind the token `t` everything before it is past. -/
theorem Triple.expect : Triple (Before t xs) (expect t) fun _ => Past xs :=
  Stays.position.andThen fun _ => Triple.isAt.bind fun _ =>
    .ite (fun hb => (Triple.next.post fun _ l ⟨_, ⟨ht, hk⟩, hl⟩ =>
        (⟨hl.1, (hk.2 (ht.mp hb)).mono hl.2⟩ : Past xs l)).bind fun _ => .pure fun _ h => h)
      fun _ => .fail

theorem Triple.noted : Triple (Past xs) Parser.position fun pos => Pending xs pos.offset :=
  Triple.position.post fun _ _ h => h.2.pending h.1

/-- A mark that is skipped puts behind what was pending. -/
theorem Triple.skipPending {m : String} : Triple (Pending xs n) (skipMark m)
    fun b => if b then Past (xs ++ [n]) else Pending xs n :=
  Triple.isAt.bind fun _ => .ite
    (fun hb => (Triple.next.post fun _ l ⟨_, ⟨ht, hk⟩, hl⟩ =>
        (⟨hl.1, ((hk.before rfl).2 (ht.mp hb)).mono hl.2⟩ : Past (xs ++ [n]) l)).bind
      fun _ => .pure fun _ h => h)
    fun _ => .pure fun _ h => h.2

/-- What a parse gives starts behind everything before it. -/
def Reads (p : Parse α) (starts : α → List Nat) : Prop :=
  ∀ xs, Triple (Past xs) p fun a => Past (xs ++ starts a)

/-- The same, also of an opening parenthesis in front. -/
def ReadsOpen (p : Parse α) (starts : α → List Nat) : Prop :=
  ∀ xs, Triple (Opens xs) p fun a => Past (xs ++ starts a)

variable {starts : α → List Nat}

/-- A parse that looks at the state first: only with a parenthesis something is open. -/
theorem Triple.getOpen {body : State → Parse β}
    (hopen : ∀ s, s.current.token = .punct "(" → Triple (Opens xs) (body s) R)
    (hpast : ∀ s, Triple (Pending xs s.current.pos.offset) (body s) R) :
    Triple (Opens xs) (MonadState.get >>= body) R := by
  refine Triple.get.bind fun s => ?_
  by_cases htoken : s.current.token = .punct "("
  · exact (hopen s htoken).pre fun _ h => h.2
  · refine (hpast s).pre fun l h => (h.2.2 ?_).pending ?_
    · rw [h.1]
      exact htoken
    · rw [h.1]
      rfl

/-- The same of one that looks at the token. -/
theorem Triple.tokenOpen {body : Token → Parse β} (hopen : Triple (Opens xs) (body (.punct "(")) R)
    (hpast : ∀ t, Triple (Past xs) (body t) R) : Triple (Opens xs) (Parser.token >>= body) R := by
  refine Triple.token.bind fun t => ?_
  by_cases htoken : t = .punct "("
  · subst htoken
    exact hopen.pre fun _ h => h.2
  · exact (hpast t).pre fun _ h => Opens.past h htoken

/-- What reads in order does not go back. -/
theorem Reads.le_start (h : Reads p starts) :
    Triple (fun l => l.Ready ∧ n ≤ l.start) p fun _ l => l.Ready ∧ n ≤ l.start := by
  cases n with
  | zero =>
    refine (h []).mono (fun l hl => ⟨hl.1, ?_⟩) fun _ l hl => ⟨hl.1, Nat.zero_le _⟩
    exact ⟨.nil, fun x hx => by cases hx⟩
  | succ m =>
    refine (h [m]).mono (fun l hl => ⟨hl.1, List.pairwise_singleton _ _, ?_⟩) fun _ l hl => ⟨hl.1, ?_⟩
    · intro x hx
      rw [List.mem_singleton.mp hx]
      exact hl.2
    · exact hl.2.2 m (List.mem_append_left _ List.mem_cons_self)

theorem ReadsOpen.reads (h : ReadsOpen p starts) : Reads p starts :=
  fun xs => (h xs).pre fun _ h => h.opens

theorem Reads.andThen (h : Reads p starts) (hf : ∀ a, Triple (Past (xs ++ starts a)) (f a) R) :
    Triple (Past xs) (p >>= f) R :=
  (h xs).bind hf

theorem ReadsOpen.andThen (h : ReadsOpen p starts)
    (hf : ∀ a, Triple (Past (xs ++ starts a)) (f a) R) : Triple (Opens xs) (p >>= f) R :=
  (h xs).bind hf

/-- A result whose functions are among those that are past. -/
theorem Triple.give {a : α} (h : (starts a).Sublist ys) :
    Triple (Past ys) (Pure.pure a) fun a => Past (starts a) :=
  .pure fun _ hl => hl.sublist h

/-- What the steps of a repetition lead to: something to go on with, or the result. -/
def Loop (going : σ → List Nat) (done : β → List Nat) (r : σ ⊕ β) (l : Place) : Prop :=
  r.elim (fun x => Past (going x) l) fun b => Past (done b) l

variable {going : σ → List Nat} {done : β → List Nat}

theorem Triple.again {x : σ} (h : (going x).Sublist ys) :
    Triple (Past ys) (Pure.pure (Sum.inl x)) (Loop going done) :=
  .pure fun _ hl => hl.sublist h

theorem Triple.stop {b : β} (h : (done b).Sublist ys) :
    Triple (Past ys) (Pure.pure (Sum.inr b)) (Loop going done) :=
  .pure fun _ hl => hl.sublist h

theorem Triple.loop (going : σ → List Nat) {step : σ → Parse (σ ⊕ β)}
    (hstep : ∀ x, Triple (Past (going x)) (step x) (Loop going done)) {n : Nat} {x : σ}
    (hx : (going x).Sublist xs) : Triple (Past xs) (Parser.iterate step n x) fun b => Past (done b) :=
  (Triple.iterate (I := fun x => Past (going x)) hstep n x).pre fun _ h => h.sublist hx

end

end TaintReach.Script.Parser
