import TaintReach.Proofs.Walk.Termination

/-! Logical conditions and when they hold.

A condition built from literals, functions, names, `this`, `!`, `&&`, `||` and sequences
is a formula. What it comes to depends on its constants, which are known, and on its other
leaves, of which nothing is known. The classifier takes every leaf by itself, and read
that way it is exact: it answers `always` for the formulas that hold whatever the leaves
are, `never` for those that fail whatever they are, and `maybe` for all others
(`Walk.formulas_decided`). -/
namespace TaintReach

/-- A condition as far as logic goes; a sequence is its last part. -/
inductive Formula where
  | literal (truthy : Bool)
  | function
  | name (ident : String)
  | thisRef
  | not (a : Formula)
  | and (a b : Formula)
  | or (a b : Formula)
  | sequence (last : Formula)
deriving DecidableEq, Repr

/-- The field holds a formula, no node of which stands on the path or below itself. -/
inductive Graph.Reads (g : Graph) : List NodeId → Option NodeId → Formula → Prop
  | literal {path : List NodeId} {id : NodeId} {line : Int} {kind : LiteralKind} {raw : String}
    {truthy : Bool} (hn : g.node? id = some ⟨line, .literal kind raw truthy⟩) (hp : id ∉ path) :
    Reads g path (some id) (.literal truthy)
  | function {path : List NodeId} {id : NodeId} {line : Int} {name : String}
    {params body : List (Option NodeId)} {locals : List String}
    (hn : g.node? id = some ⟨line, .function name params body locals⟩) (hp : id ∉ path) :
    Reads g path (some id) .function
  | name {path : List NodeId} {id : NodeId} {line : Int} {ident : String}
    (hn : g.node? id = some ⟨line, .name ident⟩) (hp : id ∉ path) :
    Reads g path (some id) (.name ident)
  | thisRef {path : List NodeId} {id : NodeId} {line : Int}
    (hn : g.node? id = some ⟨line, .thisRef⟩) (hp : id ∉ path) : Reads g path (some id) .thisRef
  | not {path : List NodeId} {id : NodeId} {line : Int} {a : Option NodeId} {f : Formula}
    (hn : g.node? id = some ⟨line, .operation "!" [a]⟩) (hp : id ∉ path)
    (ha : Reads g (id :: path) a f) : Reads g path (some id) (.not f)
  | and {path : List NodeId} {id : NodeId} {line : Int} {a b : Option NodeId} {f k : Formula}
    (hn : g.node? id = some ⟨line, .operation "&&" [a, b]⟩) (hp : id ∉ path)
    (ha : Reads g (id :: path) a f) (hb : Reads g (id :: path) b k) :
    Reads g path (some id) (.and f k)
  | or {path : List NodeId} {id : NodeId} {line : Int} {a b : Option NodeId} {f k : Formula}
    (hn : g.node? id = some ⟨line, .operation "||" [a, b]⟩) (hp : id ∉ path)
    (ha : Reads g (id :: path) a f) (hb : Reads g (id :: path) b k) :
    Reads g path (some id) (.or f k)
  | sequence {path : List NodeId} {id : NodeId} {line : Int} (before : List (Option NodeId))
    {last : Option NodeId} {f : Formula}
    (hn : g.node? id = some ⟨line, .other "sequence" (before ++ [last])⟩) (hp : id ∉ path)
    (hlast : Reads g (id :: path) last f) : Reads g path (some id) (.sequence f)

/-- The class of a branch whose guard has this truth. -/
def Reachable.ofTruth (truthy : Bool) : Reachable := if truthy then .always else .never

namespace Formula

open Walk (Consts)

/-- Where a leaf stands: the operands taken on the way down, `true` for the second of two. -/
abbrev Place := List Bool

/-- What the formula comes to with these values at its unknown leaves, each by its place. -/
def eval (consts : Consts) : Formula → (Place → Bool) → Bool
  | .literal truthy, _ => truthy
  | .function, _ => true
  | .name x, v => (consts.truth? x).getD (v [])
  | .thisRef, v => v []
  | .not a, v => !a.eval consts fun p => v (false :: p)
  | .and a b, v => (a.eval consts fun p => v (false :: p)) && b.eval consts fun p => v (true :: p)
  | .or a b, v => (a.eval consts fun p => v (false :: p)) || b.eval consts fun p => v (true :: p)
  | .sequence a, v => a.eval consts fun p => v (false :: p)

/-- What the formula comes to if a name has one value wherever it stands. -/
def truth (consts : Consts) (names : String → Bool) (self : Bool) : Formula → Bool
  | .literal truthy => truthy
  | .function => true
  | .name x => (consts.truth? x).getD (names x)
  | .thisRef => self
  | .not a => !a.truth consts names self
  | .and a b => a.truth consts names self && b.truth consts names self
  | .or a b => a.truth consts names self || b.truth consts names self
  | .sequence a => a.truth consts names self

/-- The class of the formula, by those of its parts. -/
def reach (consts : Consts) : Formula → Reachable
  | .literal truthy => .ofTruth truthy
  | .function => .always
  | .name x => (consts.truth? x).elim .maybe .ofTruth
  | .thisRef => .maybe
  | .not a => (a.reach consts).negate
  | .and a b => (a.reach consts).meet (b.reach consts)
  | .or a b => (a.reach consts).either (b.reach consts)
  | .sequence a => a.reach consts

/-! ### What a class decides -/

/-- The class tells what a condition comes to in all cases. -/
inductive Decides {α : Type} : Reachable → (α → Bool) → Prop
  | always {t : α → Bool} (h : ∀ v, t v = true) : Decides .always t
  | never {t : α → Bool} (h : ∀ v, t v = false) : Decides .never t
  | maybe {t : α → Bool} {v w : α} (hv : t v = true) (hw : t w = false) : Decides .maybe t

namespace Decides

variable {α β : Type} {r q : Reachable} {t : α → Bool} {u : β → Bool}

theorem ofTruth (truthy : Bool) : Decides (.ofTruth truthy) fun _ : α => truthy := by
  cases truthy with
  | false => exact .never fun _ => rfl
  | true => exact .always fun _ => rfl

/-- The cases may be told in another way, if none is left out. -/
theorem comp (h : Decides r t) {f : β → α} (hf : f.Surjective) : Decides r fun v => t (f v) := by
  cases h with
  | always h => exact .always fun v => h (f v)
  | never h => exact .never fun v => h (f v)
  | @maybe _ v w hv hw =>
    obtain ⟨v, rfl⟩ := hf v
    obtain ⟨w, rfl⟩ := hf w
    exact .maybe hv hw

theorem not (h : Decides r t) : Decides r.negate fun v => !t v := by
  cases h with
  | always h => exact .never fun v => by simp [h]
  | never h => exact .always fun v => by simp [h]
  | @maybe _ v w hv hw => exact .maybe (v := w) (w := v) (by simp [hw]) (by simp [hv])

/-- The cases of two conditions that share nothing are all pairs of theirs. -/
theorem and [Inhabited α] [Inhabited β] (h : Decides r t) (k : Decides q u) :
    Decides (r.meet q) fun p : α × β => t p.1 && u p.2 := by
  cases h with
  | never h => cases k <;> exact .never fun p => by simp [h]
  | always h =>
    cases k with
    | always k => exact .always fun p => by simp [h, k]
    | never k => exact .never fun p => by simp [k]
    | @maybe _ v w hv hw =>
      exact .maybe (v := (default, v)) (w := (default, w)) (by simp [h, hv]) (by simp [hw])
  | @maybe _ v w hv hw =>
    cases k with
    | always k =>
      exact .maybe (v := (v, default)) (w := (w, default)) (by simp [hv, k]) (by simp [hw])
    | never k => exact .never fun p => by simp [k]
    | @maybe _ v' w' hv' _ =>
      exact .maybe (v := (v, v')) (w := (w, v')) (by simp [hv, hv']) (by simp [hw])

/-- One of two conditions holds unless both fail. -/
theorem or [Inhabited α] [Inhabited β] (h : Decides r t) (k : Decides q u) :
    Decides (r.either q) fun p : α × β => t p.1 || u p.2 := by
  have hclass : (r.negate.meet q.negate).negate = r.either q := by cases h <;> cases k <;> rfl
  have hfail := (h.not.and k.not).not
  simp only [Bool.not_and, Bool.not_not, hclass] at hfail
  exact hfail

/-- Each class is given exactly where it is right. -/
theorem correct [Inhabited α] (h : Decides r t) : (r = .always ↔ ∀ v, t v = true) ∧
    (r = .never ↔ ∀ v, t v = false) ∧ (r = .maybe ↔ (∃ v, t v = true) ∧ ∃ v, t v = false) := by
  cases h with
  | always h => simp [h, Reachable.always, Reachable.never, Reachable.maybe]
  | never h => simp [h, Reachable.always, Reachable.never, Reachable.maybe]
  | @maybe _ v w hv hw =>
    refine ⟨iff_of_false (by decide) fun h => ?_, iff_of_false (by decide) fun h => ?_,
      iff_of_true rfl ⟨⟨v, hv⟩, w, hw⟩⟩
    · simp [h] at hw
    · simp [h] at hv

end Decides

/-- Values for the leaves of a first operand and of a second one. -/
def beside (v w : Place → Bool) : Place → Bool
  | [] => false
  | false :: p => v p
  | true :: p => w p

/-- No leaf is in both operands, so they are filled independently. -/
theorem operands_surjective : Function.Surjective fun v : Place → Bool =>
    ((fun p => v (false :: p), fun p => v (true :: p)) : (Place → Bool) × (Place → Bool)) := by
  rintro ⟨v, w⟩
  exact ⟨beside v w, rfl⟩

theorem operand_surjective :
    Function.Surjective fun (v : Place → Bool) p => v (false :: p) :=
  fun v => ⟨beside v v, rfl⟩

/-- **The class of a formula decides it.** -/
theorem reach_decides (consts : Consts) (f : Formula) :
    Decides (f.reach consts) (f.eval consts) := by
  have hunknown : Decides .maybe fun v : Place → Bool => v [] :=
    .maybe (v := fun _ => true) (w := fun _ => false) rfl rfl
  induction f with
  | literal truthy => exact .ofTruth truthy
  | function => exact .always fun _ => rfl
  | name x =>
    show Decides ((consts.truth? x).elim .maybe .ofTruth)
      fun v : Place → Bool => (consts.truth? x).getD (v [])
    cases consts.truth? x with
    | none => exact hunknown
    | some truthy => exact .ofTruth truthy
  | thisRef => exact hunknown
  | not a ih => exact (ih.comp operand_surjective).not
  | and a b iha ihb => exact (iha.and ihb).comp operands_surjective
  | or a b iha ihb => exact (iha.or ihb).comp operands_surjective
  | sequence a ih => exact ih.comp operand_surjective

/-- One value for each name is one way to fill the leaves. -/
theorem exists_eval_eq_truth (consts : Consts) (names : String → Bool) (self : Bool) (f : Formula) :
    ∃ v, f.eval consts v = f.truth consts names self := by
  induction f with
  | literal truthy => exact ⟨fun _ => false, rfl⟩
  | function => exact ⟨fun _ => false, rfl⟩
  | name x => exact ⟨fun _ => names x, rfl⟩
  | thisRef => exact ⟨fun _ => self, rfl⟩
  | not a ih =>
    obtain ⟨v, hv⟩ := ih
    exact ⟨beside v v, by simp [eval, truth, beside, hv]⟩
  | and a b iha ihb =>
    obtain ⟨v, hv⟩ := iha
    obtain ⟨w, hw⟩ := ihb
    exact ⟨beside v w, by simp [eval, truth, beside, hv, hw]⟩
  | or a b iha ihb =>
    obtain ⟨v, hv⟩ := iha
    obtain ⟨w, hw⟩ := ihb
    exact ⟨beside v w, by simp [eval, truth, beside, hv, hw]⟩
  | sequence a ih =>
    obtain ⟨v, hv⟩ := ih
    exact ⟨beside v v, by simp [eval, truth, beside, hv]⟩

/-- What is decided holds where a name has one value wherever it stands. -/
theorem truth_of_reach (consts : Consts) (f : Formula) (names : String → Bool) (self : Bool) :
    (f.reach consts = .always → f.truth consts names self = true) ∧
      (f.reach consts = .never → f.truth consts names self = false) := by
  obtain ⟨halways, hnever, -⟩ := (f.reach_decides consts).correct
  obtain ⟨v, hv⟩ := f.exists_eval_eq_truth consts names self
  exact ⟨fun hr => hv ▸ halways.mp hr v, fun hr => hv ▸ hnever.mp hr v⟩

end Formula

/-! ### What the classifier reads -/

namespace Walk

variable {g : Graph} {consts : Consts} {path : List NodeId} {id : NodeId} {n : Node}

theorem classify_of_constant {truthy : Bool} (hn : g.node? id = some n) (hp : id ∉ path)
    (hconst : constant? consts n.form = some truthy) :
    classify g consts path (some id) = ⟨.ofTruth truthy, none⟩ := by
  rw [classify_eq]
  simp only [classifyCall, hn, hp, hconst, if_false]
  rfl

theorem classify_of_open (hn : g.node? id = some n) (hp : id ∉ path)
    (hconst : constant? consts n.form = none) : classify g consts path (some id) =
      judge (classify g consts (id :: path)) (operand g consts (id :: path)) n.form := by
  rw [classify_eq]
  simp only [classifyCall, hn, hp, hconst, if_false]

/-- A formula is classified by its parts, and no loop is told of. -/
theorem classify_of_reads {c : Option NodeId} {f : Formula} (h : g.Reads path c f) :
    classify g consts path c = ⟨f.reach consts, none⟩ := by
  induction h with
  | literal hn hp => exact classify_of_constant hn hp rfl
  | function hn hp => exact classify_of_constant hn hp rfl
  | name hn hp => exact classify_of_name hn hp
  | thisRef hn hp => exact classify_of_open hn hp rfl
  | not hn hp _ ih =>
    rw [classify_of_open hn hp rfl]
    simp only [judge, ih]
    rfl
  | and hn hp _ _ iha ihb =>
    rw [classify_of_open hn hp rfl]
    simp only [judge, iha, ihb]
    rfl
  | or hn hp _ _ iha ihb =>
    rw [classify_of_open hn hp rfl]
    simp only [judge, iha, ihb]
    rfl
  | @sequence path id line before last f hn hp _ ih =>
    rw [classify_of_open hn hp rfl]
    cases before with
    | nil => exact ih
    | cons first rest =>
      have hlast : (first :: (rest ++ [last])).getLast (List.cons_ne_nil _ _) = last := by simp
      simp only [List.cons_append, judge, hlast]
      exact ih

/-- **The classifier decides formulas exactly.** Whatever is known of constants, the answer is
`always` for the formulas that hold with any values at their unknown leaves, `never` for those
that fail with any, and `maybe` for those that may do either. So `always` and `never` are
right where a name has one value wherever it stands. -/
theorem formulas_decided (consts : Consts) {path : List NodeId} {c : Option NodeId} {f : Formula}
    (h : g.Reads path c f) :
    ((classify g consts path c).reach = .always ↔ ∀ v, f.eval consts v = true) ∧
    ((classify g consts path c).reach = .never ↔ ∀ v, f.eval consts v = false) ∧
    ((classify g consts path c).reach = .maybe ↔
      (∃ v, f.eval consts v = true) ∧ ∃ v, f.eval consts v = false) ∧
    ∀ names self,
      ((classify g consts path c).reach = .always → f.truth consts names self = true) ∧
      ((classify g consts path c).reach = .never → f.truth consts names self = false) := by
  rw [classify_of_reads h]
  obtain ⟨halways, hnever, hmaybe⟩ := (f.reach_decides consts).correct
  exact ⟨halways, hnever, hmaybe, f.truth_of_reach consts⟩

/-- `(x, !k) || (x && !x)`, with one node for every `x`. -/
def doubling : Graph := ⟨#[
  ⟨1, .operation "||" [some 1, some 4]⟩, ⟨1, .other "sequence" [some 5, some 2]⟩,
  ⟨1, .operation "!" [some 3]⟩, ⟨1, .name "k"⟩, ⟨1, .operation "&&" [some 5, some 6]⟩,
  ⟨1, .name "x"⟩, ⟨1, .operation "!" [some 5]⟩]⟩

theorem doubling_reads : doubling.Reads [] (some 0)
    (.or (.sequence (.not (.name "k"))) (.and (.name "x") (.not (.name "x")))) :=
  .or rfl (by decide)
    (.sequence [some 5] rfl (by decide) (.not rfl (by decide) (.name rfl (by decide))))
    (.and rfl (by decide) (.name rfl (by decide)) (.not rfl (by decide) (.name rfl (by decide))))

/-- Two places of one name count as two leaves, so this is not seen to fail. -/
theorem formulas_decided_doubling :
    doubling.Reads [] (some 0)
      (.or (.sequence (.not (.name "k"))) (.and (.name "x") (.not (.name "x")))) ∧
    ∃ v, Formula.eval [("k", true)]
      (.or (.sequence (.not (.name "k"))) (.and (.name "x") (.not (.name "x")))) v = true :=
  ⟨doubling_reads, ((formulas_decided [("k", true)] doubling_reads).2.2.1.mp (by decide +kernel)).1⟩

end Walk

end TaintReach
