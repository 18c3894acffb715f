import TaintReach.Proofs.Walk.Formula

/-! Conditions with `??`.

The value of `a ?? b` is that of `a`, unless that is null or undefined, and then that of
`b`. The classifier knows of truth only and judges `a ?? b` as it judges `a || b`. So a
`never` is right: where no operand is true, neither is the choice. An `always` is right
unless an operand is false without being null or undefined, for then the choice ends
there (`Walk.coalescing_judged`), though a true operand may come later
(`Walk.false_choice_judged_always`). -/
namespace TaintReach

/-- What a value is as an operand of `??` and as a condition: null or undefined, another
false value, or a true one. -/
inductive Worth where
  | nullish
  | falsy
  | truthy
deriving DecidableEq, Repr

/-- Literals other than null are true or false as they say. -/
def Worth.ofLiteral (kind : LiteralKind) (truthy : Bool) : Worth :=
  if truthy then .truthy else if kind = .null then .nullish else .falsy

/-- A condition made of literals and names by `??`. -/
inductive Choice where
  | literal (kind : LiteralKind) (truthy : Bool)
  | name (ident : String)
  | orElse (a b : Choice)
deriving DecidableEq, Repr

/-- The field holds a choice, no node of which stands on the path or below itself. -/
inductive Graph.Chooses (g : Graph) : List NodeId → Option NodeId → Choice → Prop
  | literal {path : List NodeId} {id : NodeId} {line : Int} {kind : LiteralKind} {raw : String}
    {truthy : Bool} (hn : g.node? id = some ⟨line, .literal kind raw truthy⟩) (hp : id ∉ path) :
    Chooses g path (some id) (.literal kind truthy)
  | name {path : List NodeId} {id : NodeId} {line : Int} {ident : String}
    (hn : g.node? id = some ⟨line, .name ident⟩) (hp : id ∉ path) :
    Chooses g path (some id) (.name ident)
  | orElse {path : List NodeId} {id : NodeId} {line : Int} {a b : Option NodeId} {f k : Choice}
    (hn : g.node? id = some ⟨line, .operation "??" [a, b]⟩) (hp : id ∉ path)
    (ha : Chooses g (id :: path) a f) (hb : Chooses g (id :: path) b k) :
    Chooses g path (some id) (.orElse f k)

/-- The values agree with what is known of constants. -/
def Walk.Consts.Fits (consts : Walk.Consts) (values : String → Worth) : Prop :=
  ∀ x truthy, consts.truth? x = some truthy → decide (values x = .truthy) = truthy

namespace Choice

open Walk (Consts)

/-- The value of a choice. -/
def worth (values : String → Worth) : Choice → Worth
  | .literal kind truthy => .ofLiteral kind truthy
  | .name x => values x
  | .orElse a b => if a.worth values = .nullish then b.worth values else a.worth values

/-- The choice ends at an operand that is false without being null or undefined, before
the last. -/
def CutShort (values : String → Worth) : Choice → Prop
  | .literal .. => False
  | .name _ => False
  | .orElse a b => a.worth values = .falsy ∨ a.worth values = .nullish ∧ b.CutShort values

/-- The same with `||` for `??`. -/
def disjunction : Choice → Formula
  | .literal _ truthy => .literal truthy
  | .name x => .name x
  | .orElse a b => .or a.disjunction b.disjunction

variable {consts : Consts} {values : String → Worth}

theorem worth_of_cutShort {f : Choice} (h : f.CutShort values) : f.worth values = .falsy := by
  induction f with
  | literal => cases h
  | name => cases h
  | orElse a b _ ihb =>
    rcases h with ha | ⟨ha, hb⟩
    · simp [worth, ha]
    · simp [worth, ha, ihb hb]

/-- Where names are as true as their values, a true choice has a true operand, and one
that is not cut short is true if it has. -/
theorem worth_eq_truthy_iff (hvalues : consts.Fits values) (f : Choice) :
    f.worth values = .truthy ↔
      f.disjunction.truth consts (fun x => values x = .truthy) false = true ∧
        ¬ f.CutShort values := by
  induction f with
  | literal kind truthy =>
    cases truthy with
    | true => simp [worth, Worth.ofLiteral, disjunction, Formula.truth, CutShort]
    | false =>
      have hfalse : Worth.ofLiteral kind false ≠ .truthy := by cases kind <;> decide
      simp [worth, hfalse, disjunction, Formula.truth]
  | name x =>
    have hknown : (consts.truth? x).getD (decide (values x = .truthy)) =
        decide (values x = .truthy) := by
      cases hx : consts.truth? x with
      | none => rfl
      | some truthy => exact (hvalues x truthy hx).symm
    simp [worth, disjunction, Formula.truth, CutShort, hknown]
  | orElse a b iha ihb =>
    cases ha : a.worth values with
    | truthy =>
      obtain ⟨htrue, -⟩ := iha.mp ha
      simp [worth, ha, disjunction, Formula.truth, htrue, CutShort]
    | falsy => simp [worth, ha, CutShort]
    | nullish =>
      -- a first operand with something true in it would have been cut short, and so be false
      have hnone : a.disjunction.truth consts (fun x => values x = .truthy) false = false := by
        by_contra htrue
        have hcut : a.CutShort values := by
          by_contra hfree
          have hworth := iha.mpr ⟨by simpa using htrue, hfree⟩
          rw [ha] at hworth
          cases hworth
        have hfalse := worth_of_cutShort hcut
        rw [ha] at hfalse
        cases hfalse
      simp [worth, ha, disjunction, Formula.truth, hnone, CutShort, ihb]

end Choice

namespace Walk

variable {g : Graph} {path : List NodeId} {c : Option NodeId} {f : Choice}

/-- A choice is judged as the disjunction is. -/
theorem classify_of_chooses (consts : Consts) (h : g.Chooses path c f) :
    classify g consts path c = ⟨f.disjunction.reach consts, none⟩ := by
  induction h with
  | literal hn hp => exact classify_of_constant hn hp rfl
  | name hn hp => exact classify_of_name hn hp
  | orElse hn hp _ _ iha ihb =>
    rw [classify_of_open hn hp rfl]
    simp only [judge, iha, ihb]
    rfl

/-- **What the classes of a choice tell.** Whatever is known of constants, a choice is
judged `always` exactly if its operands joined by `||` always hold, and `never` exactly
if they never do. For all values that the names can have, it is not true where it is
judged `never`, and where it is judged `always` it is true exactly if it is not cut
short. -/
theorem coalescing_judged (consts : Consts) (h : g.Chooses path c f) :
    ((classify g consts path c).reach = .always ↔ ∀ v, f.disjunction.eval consts v = true) ∧
    ((classify g consts path c).reach = .never ↔ ∀ v, f.disjunction.eval consts v = false) ∧
    ∀ values, consts.Fits values →
      ((classify g consts path c).reach = .never → f.worth values ≠ .truthy) ∧
      ((classify g consts path c).reach = .always →
        (f.worth values = .truthy ↔ ¬ f.CutShort values)) := by
  rw [classify_of_chooses consts h]
  obtain ⟨halways, hnever, -⟩ := (f.disjunction.reach_decides consts).correct
  refine ⟨halways, hnever, fun values hvalues => ?_⟩
  have hworth := Choice.worth_eq_truthy_iff hvalues f
  obtain ⟨htrue, hfalse⟩ :=
    f.disjunction.truth_of_reach consts (fun x => values x = .truthy) false
  constructor
  · intro hr htruthy
    have hdisjunction := (hworth.mp htruthy).1
    rw [hfalse hr] at hdisjunction
    cases hdisjunction
  · intro hr
    rw [hworth, htrue hr]
    simp

/-- `x ?? (k ?? true)`. -/
def defaulting : Graph := ⟨#[
  ⟨1, .operation "??" [some 1, some 2]⟩, ⟨1, .name "x"⟩, ⟨1, .operation "??" [some 3, some 4]⟩,
  ⟨1, .name "k"⟩, ⟨1, .literal .bool "true" true⟩]⟩

theorem defaulting_chooses : defaulting.Chooses [] (some 0)
    (.orElse (.name "x") (.orElse (.name "k") (.literal .bool true))) :=
  .orElse rfl (by decide) (.name rfl (by decide))
    (.orElse rfl (by decide) (.name rfl (by decide)) (.literal rfl (by decide)))

/-- With `const k = null`, and `x` null or undefined too, the choice comes to its last operand. -/
theorem coalescing_judged_defaulting :
    defaulting.Chooses [] (some 0)
      (.orElse (.name "x") (.orElse (.name "k") (.literal .bool true))) ∧
    Consts.Fits [("k", false)] (fun _ => .nullish) ∧
    (Choice.orElse (.name "x") (.orElse (.name "k") (.literal .bool true))).worth
      (fun _ => .nullish) = .truthy := by
  have hvalues : Consts.Fits [("k", false)] fun _ => .nullish := by
    intro x truthy hx
    unfold Consts.truth? at hx
    simp only [List.lookup_cons, List.lookup_nil] at hx
    split at hx
    · exact Option.some.inj hx
    · cases hx
  refine ⟨defaulting_chooses, hvalues, ?_⟩
  have hjudged := (coalescing_judged [("k", false)] defaulting_chooses).2.2 _ hvalues
  exact (hjudged.2 (by decide +kernel)).mpr (by simp [Choice.CutShort, Choice.worth])

/-- With `x` false the choice is false, and is judged `always`. -/
theorem false_choice_judged_always :
    defaulting.Chooses [] (some 0)
      (.orElse (.name "x") (.orElse (.name "k") (.literal .bool true))) ∧
    Consts.Fits [] (fun _ => .falsy) ∧
    (classify defaulting [] [] (some 0)).reach = .always ∧
    (Choice.orElse (.name "x") (.orElse (.name "k") (.literal .bool true))).worth
      (fun _ => .falsy) = .falsy :=
  ⟨defaulting_chooses, (fun _ _ h => by cases h), by decide +kernel, rfl⟩

end Walk

end TaintReach
