import TaintReach.Proofs.Script.Literal.Unique
import TaintReach.Script.Numeral

/-! Numbers are read with their values.

What is found at the start of a text is a number literal of the grammar, and its value is
the one that the grammar gives (`find_sound`). Whether the value counts as true is right for
all numbers that are rounded (`roundsToZero_iff`), and wrong for one other: an integer of
any size counts as true though it be zero (`truthy_iff`). -/
namespace TaintReach.Script.Literal
open Text (hexDigit? isDigitIn valueIn)

variable {base n d : Nat} {c : Char} {t cs rest : List Char} {ds : List Nat}

/-! ### Digits -/

theorem IsDigit.hexDigit?_eq (h : IsDigit base c d) : hexDigit? c = some d := by
  have hall : ∀ d < 16, hexDigit? (Nat.digitChar d) = some d ∧
      hexDigit? (Nat.digitChar d).toUpper = some d := by decide
  obtain ⟨_, hd, rfl | rfl⟩ := h
  · exact (hall d hd).1
  · exact (hall d hd).2

theorem isDigit_of_hexDigit? (h : hexDigit? c = some d) (hd : d < base) : IsDigit base c d := by
  refine ⟨hd, ?_⟩
  have hc : c = Char.ofNat c.toNat := (Char.ofNat_toNat c).symm
  unfold hexDigit? at h
  simp only [Char.le_def, UInt32.le_iff_toNat_le] at h
  change (if 48 ≤ c.toNat ∧ c.toNat ≤ 57 then some (c.toNat - 48)
    else if 97 ≤ c.toNat ∧ c.toNat ≤ 102 then some (c.toNat - 97 + 10)
    else if 65 ≤ c.toNat ∧ c.toNat ≤ 70 then some (c.toNat - 65 + 10) else none) = some d at h
  generalize c.toNat = n at h hc
  split_ifs at h with h₁ h₂ h₃ <;> obtain rfl := Option.some.inj h <;> subst hc
  · obtain ⟨hlow, hhigh⟩ := h₁
    interval_cases n <;> decide
  · obtain ⟨hlow, hhigh⟩ := h₂
    interval_cases n <;> decide
  · obtain ⟨hlow, hhigh⟩ := h₃
    interval_cases n <;> decide

theorem isDigitIn_iff : isDigitIn base c = true ↔ ∃ d, IsDigit base c d := by
  constructor
  · intro h
    obtain ⟨d, hc, hd⟩ := (Option.any_eq_true _ _).mp h
    exact ⟨d, isDigit_of_hexDigit? hc (of_decide_eq_true hd)⟩
  · rintro ⟨d, h⟩
    simp [isDigitIn, h.hexDigit?_eq, h.1]

theorem number_append (base : Nat) (ds es : List Nat) :
    number base (ds ++ es) = number base ds * base ^ es.length + number base es := by
  simp [number, Nat.ofDigits_append, Nat.mul_comm, Nat.add_comm]

/-- The value of a run is the number of its digits, whatever else is in it. -/
theorem valueIn_eq (base : Nat) (t : List Char) :
    valueIn base t = number base (t.filterMap hexDigit?) := by
  induction t using List.reverseRecOn with
  | nil => rfl
  | append_singleton t c ih =>
    rw [valueIn, List.foldl_append, List.filterMap_append, number_append, ← ih]
    cases hc : hexDigit? c with
    | none => simp [hc, valueIn, number]
    | some d => simp [hc, valueIn, number]

theorem Digits.filterMap_eq (h : Digits base t ds) : t.filterMap hexDigit? = ds := by
  induction h with
  | single hc => simp [hc.hexDigit?_eq]
  | next hc _ ih => simp [hc.hexDigit?_eq, ih]
  | separated hc _ ih =>
    have hseparator : hexDigit? '_' = none := rfl
    simp [hc.hexDigit?_eq, hseparator, ih]

theorem Digits.length_filter (h : Digits base t ds) : (t.filter (· ≠ '_')).length = ds.length := by
  induction h with
  | single hc => simp [hc.ne_separator]
  | next hc _ ih => simpa [hc.ne_separator] using ih
  | separated hc _ ih => simpa [hc.ne_separator] using ih

theorem forall₂_isDigit_filterMap (h : List.Forall₂ (IsDigit base) t ds) :
    t.filterMap hexDigit? = ds := by
  induction h with
  | nil => rfl
  | cons hc _ ih => simp [hc.hexDigit?_eq, ih]

theorem exists_forall₂_isDigit (h : ∀ c ∈ t, isDigitIn base c = true) :
    ∃ ds, List.Forall₂ (IsDigit base) t ds := by
  induction t with
  | nil => exact ⟨[], .nil⟩
  | cons c t ih =>
    obtain ⟨hc, ht⟩ := List.forall_mem_cons.mp h
    obtain ⟨d, hd⟩ := isDigitIn_iff.mp hc
    obtain ⟨ds, hds⟩ := ih ht
    exact ⟨d :: ds, .cons hd hds⟩

/-! ### Runs of digits -/

end TaintReach.Script.Literal

namespace TaintReach.Script.Numeral
open Script.Literal
open Text (hexDigit? isDigitIn valueIn)

variable {base n : Nat} {c : Char} {t cs rest : List Char}

theorem digitRun_append (base : Nat) (cs : List Char) :
    digitRun base cs ++ cs.drop (digitRun base cs).length = cs :=
  (List.prefix_append_drop (List.takeWhile_prefix _)).symm

theorem mem_digitRun (h : c ∈ digitRun base cs) : isDigitIn base c = true ∨ c = '_' := by
  simpa using List.mem_takeWhile_imp h

theorem separatorsFit_tail {e : Char} (h : separatorsFit (c :: e :: t) = true) (he : e ≠ '_') :
    separatorsFit (e :: t) = true := by
  simp only [separatorsFit, List.drop_succ_cons, List.drop_zero, List.zip_cons_cons, List.all_cons,
    List.getLast?_cons_cons, Bool.and_eq_true] at h ⊢
  exact ⟨⟨by simpa using he, h.1.2⟩, h.2.2⟩

theorem separatorsFit_behind (h : separatorsFit (c :: '_' :: t) = true) :
    t ≠ [] ∧ separatorsFit t = true := by
  cases t with
  | nil => simp [separatorsFit] at h
  | cons e t =>
    simp only [separatorsFit, List.drop_succ_cons, List.drop_zero, List.zip_cons_cons,
      List.all_cons, List.getLast?_cons_cons, Bool.and_eq_true] at h ⊢
    refine ⟨List.cons_ne_nil _ _, ⟨?_, h.1.2⟩, h.2.2.2⟩
    simpa using h.2.2.1

/-- A run whose separators fit is made of digits. -/
theorem digits_of_fits (hall : ∀ c ∈ t, isDigitIn base c = true ∨ c = '_')
    (hfits : separatorsFit t = true) (hne : t ≠ []) : ∃ ds, Digits base t ds := by
  induction hn : t.length using Nat.strong_induction_on generalizing t with
  | h n ih =>
    subst hn
    cases t with
    | nil => exact absurd rfl hne
    | cons c t =>
      obtain ⟨hc, ht⟩ := List.forall_mem_cons.mp hall
      have hdigit : isDigitIn base c = true := by
        refine hc.resolve_right ?_
        rintro rfl
        simp [separatorsFit] at hfits
      obtain ⟨d, hd⟩ := isDigitIn_iff.mp hdigit
      cases t with
      | nil => exact ⟨[d], .single hd⟩
      | cons e t =>
        by_cases he : e = '_'
        · subst he
          obtain ⟨hne', hfits'⟩ := separatorsFit_behind hfits
          obtain ⟨ds, hds⟩ := ih t.length (by simp) (fun c hc => ht c (List.mem_cons_of_mem _ hc))
            hfits' hne' rfl
          exact ⟨d :: ds, .separated hd hds⟩
        · obtain ⟨ds, hds⟩ := ih (e :: t).length (by simp) ht (separatorsFit_tail hfits he)
            (List.cons_ne_nil _ _) rfl
          exact ⟨d :: ds, .next hd hds⟩

/-- The run of digits at the start of a text. -/
theorem digits_of_digitRun (hfits : separatorsFit (digitRun base cs) = true)
    (hne : digitRun base cs ≠ []) :
    ∃ ds, Digits base (digitRun base cs) ds ∧ valueIn base (digitRun base cs) = number base ds := by
  obtain ⟨ds, hds⟩ := digits_of_fits (fun c hc => mem_digitRun hc) hfits hne
  exact ⟨ds, hds, by rw [valueIn_eq, hds.filterMap_eq]⟩

/-! ### The parts of a number -/

variable {m : Nat} {v : Numeral}

theorem finish_eq {value : Option Numeral} (h : finish n value rest = ⟨m, some v⟩) :
    m = n ∧ value = some v := by
  unfold finish at h
  split at h
  · split at h
    · cases h
    · cases h
      exact ⟨rfl, rfl⟩
  · cases h
    exact ⟨rfl, rfl⟩

theorem finishInteger_eq {value big : Option Numeral}
    (h : finishInteger n value big rest = ⟨m, some v⟩) :
    (m = n ∧ value = some v) ∨ ∃ behind, rest = 'n' :: behind ∧ m = n + 1 ∧ big = some v := by
  unfold finishInteger at h
  split at h
  · cases h
    exact .inr ⟨_, rfl, rfl, rfl⟩
  · exact .inl (finish_eq h)

theorem take_digitRun (base : Nat) (cs : List Char) :
    cs.take (digitRun base cs).length = digitRun base cs :=
  (List.prefix_iff_eq_take.mp (List.takeWhile_prefix _)).symm

theorem length_digitRun_le (base : Nat) (cs : List Char) : (digitRun base cs).length ≤ cs.length :=
  (List.takeWhile_prefix _).length_le

/-- The exponent part that a text starts with, behind its letter. -/
theorem exponentPart_sound {e : Char} {k : ℤ} (he : e = 'e' ∨ e = 'E')
    (h : exponentPart cs = some (n, k)) : n ≤ cs.length ∧ Exponent (e :: cs.take n) k := by
  unfold exponentPart at h
  split at h
  rename_i signLength negative digits hsign
  simp only at h
  split at h
  · cases h
  · rename_i hfits
    obtain ⟨rfl, rfl⟩ := Prod.mk.inj (Option.some.inj h)
    simp only [Bool.or_eq_true, decide_eq_true_eq, Bool.not_eq_true', not_or,
      Bool.not_eq_false] at hfits
    obtain ⟨ds, hds, hvalue⟩ := digits_of_digitRun hfits.2 hfits.1
    have hle := length_digitRun_le 10 digits
    rw [hvalue]
    split at hsign
    · cases hsign
      rw [Nat.add_comm, List.take_succ_cons, take_digitRun]
      exact ⟨Nat.succ_le_succ hle, .minus he hds⟩
    · cases hsign
      rw [Nat.add_comm, List.take_succ_cons, take_digitRun]
      exact ⟨Nat.succ_le_succ hle, .plus he hds⟩
    · cases hsign
      rw [Nat.zero_add, take_digitRun]
      exact ⟨hle, .plain he hds⟩

/-- A number up to its exponent, and the exponent. -/
theorem scaled_sound {digits : Nat} {scale : ℤ} {ok : Bool}
    (h : scaled n digits scale ok rest = ⟨m, some v⟩) : ok = true ∧ ∃ len k, m = n + len ∧
      len ≤ rest.length ∧ Exponent (rest.take len) k ∧ v = .float digits (scale + k) := by
  have hok : ∀ {w : Numeral},
      (if ok = true then some w else none) = some v → ok = true ∧ v = w := by
    intro w hw
    cases ok with
    | false => cases hw
    | true => exact ⟨rfl, (Option.some.inj hw).symm⟩
  unfold scaled at h
  split at h
  · rename_i e after
    split at h
    · rename_i he
      split at h
      · cases h
      · rename_i len k hpart
        obtain ⟨rfl, hvalue⟩ := finish_eq h
        obtain ⟨hfine, rfl⟩ := hok hvalue
        obtain ⟨hle, hexponent⟩ := exponentPart_sound (by simpa using he) hpart
        refine ⟨hfine, len + 1, k, by omega, by simpa using hle, ?_, rfl⟩
        rwa [List.take_succ_cons]
    · obtain ⟨rfl, hvalue⟩ := finish_eq h
      obtain ⟨hfine, rfl⟩ := hok hvalue
      exact ⟨hfine, 0, 0, rfl, Nat.zero_le _, .absent, by rw [add_zero]⟩
  · obtain ⟨rfl, hvalue⟩ := Found.mk.inj h
    obtain ⟨hfine, rfl⟩ := hok hvalue
    exact ⟨hfine, 0, 0, rfl, Nat.zero_le _, .absent, by rw [add_zero]⟩

/-- What a number that was read stands for. -/
def worth : Numeral → Meaning
  | .float digits exponent => .number (digits * 10 ^ exponent)
  | .big n => .big n

/-- What may stand behind the whole part of a number: a point and digits, which add `y`. -/
def Behind (rest f : List Char) (y : ℚ) : Prop :=
  (f = [] ∧ y = 0 ∧ rest.head? ≠ some '.') ∨
    ∃ after, rest = '.' :: after ∧ f = '.' :: digitRun 10 after ∧
      Places (digitRun 10 after) y

/-- Digits behind a point count as many places less. -/
theorem places_of_run {run : List Char} (whole : List Char)
    (hall : ∀ c ∈ run, isDigitIn 10 c = true ∨ c = '_')
    (h : run = [] ∨ separatorsFit run = true) : ∃ y, Places run y ∧ ∀ k : ℤ,
      (valueIn 10 (whole ++ run) : ℚ) * 10 ^ (-((run.filter (· ≠ '_')).length : ℤ) + k) =
        (valueIn 10 whole + y) * 10 ^ k := by
  by_cases hne : run = []
  · subst hne
    exact ⟨0, .nil, fun k => by simp⟩
  · obtain ⟨ds, hds⟩ := digits_of_fits hall (h.resolve_left hne) hne
    refine ⟨_, .digits hds, fun k => ?_⟩
    have hten : (10 : ℚ) ^ ds.length ≠ 0 := by positivity
    rw [hds.length_filter, valueIn_eq, valueIn_eq, List.filterMap_append, number_append,
      hds.filterMap_eq, zpow_add₀ (by norm_num), zpow_neg, zpow_natCast]
    push_cast
    field_simp

theorem fractional_sound {whole : List Char} {ok : Bool}
    (h : fractional n whole ok rest = ⟨m, some v⟩) : ok = true ∧ ∃ f y e k, f ++ e <+: rest ∧
      m = n + (f ++ e).length ∧ Behind rest f y ∧ Exponent e k ∧
      v.worth = .number ((valueIn 10 whole + y) * 10 ^ k) := by
  unfold fractional at h
  split at h
  · rename_i after
    obtain ⟨hfine, len, k, rfl, hle, hexponent, rfl⟩ := scaled_sound h
    obtain ⟨hok, hrun⟩ := Bool.and_eq_true_iff.mp hfine
    obtain ⟨y, hplaces, hvalue⟩ := places_of_run whole
      (fun c (hc : c ∈ digitRun 10 after) => mem_digitRun hc)
      (by simpa using hrun)
    refine ⟨hok, '.' :: digitRun 10 after, y, _, k, ?_, ?_, .inr ⟨after, rfl, rfl, hplaces⟩,
      hexponent, ?_⟩
    · conv_rhs => rw [← digitRun_append 10 after]
      refine List.cons_prefix_cons.mpr ⟨rfl, ?_⟩
      exact (List.prefix_append_right_inj _).mpr (List.take_prefix _ _)
    · rw [List.length_append, List.length_take, Nat.min_eq_left hle, List.length_cons]
      omega
    · rw [worth, hvalue]
  · rename_i hpoint
    obtain ⟨hok, len, k, rfl, hle, hexponent, rfl⟩ := scaled_sound h
    refine ⟨hok, [], 0, rest.take len, k, List.take_prefix _ _, ?_, .inl ⟨rfl, rfl, ?_⟩,
      hexponent, ?_⟩
    · simp [hle]
    · intro hhead
      obtain ⟨after, hafter⟩ := List.head?_eq_some_iff.mp hhead
      exact hpoint after hafter
    · simp [worth]

/-! ### Numbers -/

theorem prefix_append_of_drop {run t cs : List Char} (hrun : run <+: cs)
    (ht : t <+: cs.drop run.length) : run ++ t <+: cs := by
  conv_rhs => rw [List.prefix_append_drop hrun]
  exact (List.prefix_append_right_inj _).mpr ht

theorem singleton_prefix_of_eq {c : Char} {rest behind : List Char} (h : rest = c :: behind) :
    [c] <+: rest := by
  subst h
  exact List.cons_prefix_cons.mpr ⟨rfl, List.nil_prefix⟩

/-- A text starts with a number of the grammar that takes `m` characters and is worth `x`. -/
def Shown (cs : List Char) (m : Nat) (x : Meaning) : Prop :=
  ∃ t, t <+: cs ∧ t.length = m ∧ Numeric t x

/-- An integer in a base behind a prefix. -/
theorem prefixed_sound {p : Char} (hp : radix? p = some base)
    (h : prefixed base cs = ⟨m, some v⟩) : Shown ('0' :: p :: cs) m v.worth := by
  have hrun : digitRun base cs <+: cs := List.takeWhile_prefix _
  have hdigits : separatorsFit (digitRun base cs) && digitRun base cs ≠ [] →
      Prefixed ('0' :: p :: digitRun base cs) (valueIn base (digitRun base cs)) := by
    intro hok
    obtain ⟨hfits, hne⟩ := Bool.and_eq_true_iff.mp hok
    obtain ⟨ds, hds, hvalue⟩ := digits_of_digitRun hfits (of_decide_eq_true hne)
    rw [hvalue]
    exact .mk hp hds
  unfold prefixed at h
  rcases finishInteger_eq h with ⟨rfl, hvalue⟩ | ⟨behind, hrest, rfl, hvalue⟩
  · split at hvalue
    · rename_i hok
      cases hvalue
      refine ⟨'0' :: p :: digitRun base cs, ?_, rfl, ?_⟩
      · simpa using hrun
      · simpa [worth] using Numeric.prefixed (hdigits (Bool.and_eq_true_iff.mp hok).1)
    · cases hvalue
  · split at hvalue
    · rename_i hok
      cases hvalue
      refine ⟨('0' :: p :: digitRun base cs) ++ ['n'], ?_, by simp, .big (.inr (hdigits hok))⟩
      simpa using prefix_append_of_drop hrun (singleton_prefix_of_eq hrest)
    · cases hvalue

/-- The text starts with a digit, or with a point and a digit. -/
def Starts (cs : List Char) : Prop :=
  ∃ c rest, c.isDigit = true ∧ (cs = c :: rest ∨ cs = '.' :: c :: rest)

theorem zero_shown {rest : List Char} : Shown ('0' :: rest) 1 (worth (.float 0 0)) := by
  refine ⟨['0'], by simp, rfl, ?_⟩
  simpa [worth] using Numeric.decimal (.whole .zero) .absent

/-- A zero, and octal digits if any follow. -/
theorem octal_sound (h : finishInteger ((cs.takeWhile (isDigitIn 8)).length + 1)
    (some (.float (valueIn 8 (cs.takeWhile (isDigitIn 8))) 0))
    (if (cs.takeWhile (isDigitIn 8)).isEmpty then some (.big 0) else none)
    (cs.drop (cs.takeWhile (isDigitIn 8)).length) = ⟨m, some v⟩) : Shown ('0' :: cs) m v.worth := by
  have hrun : cs.takeWhile (isDigitIn 8) <+: cs := List.takeWhile_prefix _
  have hall : ∀ c ∈ cs.takeWhile (isDigitIn 8), isDigitIn 8 c = true :=
    fun c hc => List.mem_takeWhile_imp hc
  generalize cs.takeWhile (isDigitIn 8) = run at h hrun hall
  rcases finishInteger_eq h with ⟨rfl, hvalue⟩ | ⟨behind, hrest, rfl, hvalue⟩
  · cases hvalue
    by_cases hne : run = []
    · subst hne
      exact zero_shown
    · obtain ⟨ds, hds⟩ := exists_forall₂_isDigit hall
      refine ⟨'0' :: run, by simpa using hrun, rfl, ?_⟩
      rw [valueIn_eq, forall₂_isDigit_filterMap hds]
      simpa [worth] using Numeric.octal hne hds
  · split at hvalue
    · rename_i hempty
      cases hvalue
      obtain rfl := List.isEmpty_iff.mp hempty
      refine ⟨['0'] ++ ['n'], ?_, rfl, .big (.inl .zero)⟩
      simpa using singleton_prefix_of_eq hrest
    · cases hvalue

theorem isDigitIn_of_isDigit (hc : c.isDigit = true) : isDigitIn 10 c = true := by
  obtain ⟨hlow, hhigh⟩ := Bool.and_eq_true_iff.mp hc
  have hrange : '0' ≤ c ∧ c ≤ '9' := ⟨of_decide_eq_true hlow, of_decide_eq_true hhigh⟩
  have hle : c.toNat ≤ 57 := hrange.2
  simp only [isDigitIn, hexDigit?, if_pos hrange, Option.any_some, decide_eq_true_eq]
  show c.toNat - 48 < 10
  omega

theorem digitRun_ne_nil (hc : c.isDigit = true) : digitRun 10 (c :: rest) ≠ [] := by
  simp [digitRun, isDigitIn_of_isDigit hc]

/-- A decimal number from its whole part on. -/
theorem decimal_shown {w : List Char} {ok : Bool} (hw : ok = true → Whole w (valueIn 10 w))
    (h : fractional w.length w ok rest = ⟨m, some v⟩) : Shown (w ++ rest) m v.worth := by
  obtain ⟨hok, f, y, e, k, hprefix, rfl, hbehind, hexponent, hworth⟩ := fractional_sound h
  refine ⟨w ++ (f ++ e), (List.prefix_append_right_inj _).mpr hprefix, by simp, ?_⟩
  rw [hworth]
  rcases hbehind with ⟨rfl, rfl, _⟩ | ⟨after, rfl, rfl, hplaces⟩
  · simpa using Numeric.decimal (.whole (hw hok)) hexponent
  · simpa using Numeric.decimal (.fraction (hw hok) hplaces) hexponent

/-- A decimal number that starts with its point. -/
theorem point_shown (hc : c.isDigit = true)
    (h : fractional 0 [] true ('.' :: c :: rest) = ⟨m, some v⟩) :
    Shown ('.' :: c :: rest) m v.worth := by
  obtain ⟨_, f, y, e, k, hprefix, rfl, hbehind, hexponent, hworth⟩ := fractional_sound h
  refine ⟨f ++ e, hprefix, by simp, ?_⟩
  rw [hworth]
  rcases hbehind with ⟨_, _, hhead⟩ | ⟨after, hafter, rfl, hplaces⟩
  · exact absurd rfl hhead
  · obtain rfl := (List.cons.inj hafter).2
    simpa [valueIn] using Numeric.decimal (.point hplaces (digitRun_ne_nil hc)) hexponent

/-- The digits that a text starts with, unless it starts with a zero and goes on. -/
theorem whole_of_digitRun (hc : c.isDigit = true) (hzero : c = '0' → rest = [])
    (hfits : separatorsFit (digitRun 10 (c :: rest)) = true) :
    Whole (digitRun 10 (c :: rest)) (valueIn 10 (digitRun 10 (c :: rest))) := by
  obtain ⟨ds, hds, hvalue⟩ := digits_of_digitRun hfits (digitRun_ne_nil hc)
  by_cases h0 : c = '0'
  · subst h0
    rw [hzero rfl]
    exact .zero
  · rw [hvalue]
    refine .digits hds ?_
    simpa [digitRun, isDigitIn_of_isDigit hc] using h0

/-- **What is found is a number of the grammar, with its value.** -/
theorem find_sound (hstart : Starts cs) (h : find cs = ⟨m, some v⟩) : Shown cs m v.worth := by
  obtain ⟨c, rest, hc, hcs⟩ := hstart
  unfold find at h
  split at h
  · rcases hcs with hcs | hcs
    · obtain ⟨rfl, rfl⟩ := List.cons.inj hcs
      cases hc
    · obtain rfl := (List.cons.inj hcs).2
      exact point_shown hc h
  · rename_i p rest
    simp only [Bool.or_eq_true, decide_eq_true_eq] at h
    split at h
    · rename_i hx
      exact prefixed_sound (by rw [radix?, if_pos hx]) h
    rename_i hx
    split at h
    · rename_i ho
      exact prefixed_sound (by rw [radix?, if_neg hx, if_pos ho]) h
    rename_i ho
    split at h
    · rename_i hb
      exact prefixed_sound (by rw [radix?, if_neg hx, if_neg ho, if_pos hb]) h
    split at h
    · exact decimal_shown (w := ['0']) (fun _ => .zero) h
    · exact octal_sound h
  · rename_i hdot hzero
    obtain rfl : cs = c :: rest := hcs.resolve_right (hdot _)
    have hlone : c = '0' → rest = [] := by
      rintro rfl
      cases rest with
      | nil => rfl
      | cons d rest => exact absurd rfl (hzero d rest)
    have hwhole := whole_of_digitRun hc hlone
    simp only at h
    split at h
    · rename_i behind hbehind
      obtain ⟨rfl, hvalue⟩ := Found.mk.inj h
      split at hvalue
      · rename_i hfits
        cases hvalue
        refine ⟨digitRun 10 (c :: rest) ++ ['n'], ?_, by simp, .big (.inl (hwhole hfits))⟩
        exact prefix_append_of_drop (List.takeWhile_prefix _) (singleton_prefix_of_eq hbehind)
      · cases hvalue
    · have hshown := decimal_shown hwhole h
      rwa [digitRun_append] at hshown

/-! ### What counts as zero -/

/-- A number is between the powers of ten that the length of its spelling tells. -/
theorem bounds_of_length {n : Nat} (hn : n ≠ 0) :
    (10 : ℚ) ^ ((toString n).length - 1 : ℤ) ≤ n ∧ (n : ℚ) < 10 ^ ((toString n).length : ℤ) := by
  have hlength : (toString n).length = (Nat.toDigits 10 n).length := by simp [toString, Nat.repr]
  have hpos : 0 < (Nat.toDigits 10 n).length := Nat.length_toDigits_pos
  have hhigh : n < 10 ^ (Nat.toDigits 10 n).length :=
    (Nat.length_toDigits_le_iff (by decide) hpos).mp (Nat.le_refl _)
  have hlow : 10 ^ ((Nat.toDigits 10 n).length - 1) ≤ n := by
    by_cases hone : (Nat.toDigits 10 n).length = 1
    · rw [hone]
      exact Nat.one_le_iff_ne_zero.mpr hn
    · have hless : 0 < (Nat.toDigits 10 n).length - 1 := by omega
      by_contra hlt
      have hle := (Nat.length_toDigits_le_iff (by decide) hless).mpr (Nat.lt_of_not_le hlt)
      omega
  rw [hlength]
  generalize (Nat.toDigits 10 n).length = length at hpos hhigh hlow
  have hcast : (length : ℤ) - 1 = ((length - 1 : ℕ) : ℤ) := by omega
  rw [hcast, zpow_natCast, zpow_natCast]
  exact ⟨by exact_mod_cast hlow, by exact_mod_cast hhigh⟩

theorem ten_pow_le_half : (10 : ℚ) ^ (-331 : ℤ) ≤ 2 ^ (-1075 : ℤ) := by
  have hpow : (2 : ℕ) ^ 1075 ≤ 10 ^ 331 := by decide +kernel
  rw [zpow_neg, zpow_neg]
  refine inv_anti₀ (by positivity) ?_
  exact_mod_cast hpow

theorem half_lt_ten_pow : (2 : ℚ) ^ (-1075 : ℤ) < 10 ^ (-300 : ℤ) := by
  have hpow : (10 : ℕ) ^ 300 < 2 ^ 1075 := by decide +kernel
  rw [zpow_neg, zpow_neg]
  refine inv_strictAnti₀ (by positivity) ?_
  exact_mod_cast hpow

/-- Digits scaled by a power of ten round to zero exactly if this says so. -/
theorem roundsToZero_iff (digits : Nat) (exponent : ℤ) :
    roundsToZero digits exponent = true ↔ RoundsTo (digits * 10 ^ exponent) 0 := by
  rw [roundsTo_zero_iff (by positivity)]
  unfold roundsToZero
  split
  · rename_i hzero
    simp [hzero]
  rename_i hzero
  obtain ⟨hlow, hhigh⟩ := bounds_of_length hzero
  generalize ((toString digits).length : ℤ) = length at hlow hhigh
  have hpos : (0 : ℚ) < 10 ^ exponent := by positivity
  -- the length alone tells, unless the value is close to the bound
  have hbelow : (digits : ℚ) * 10 ^ exponent < 10 ^ (length + exponent) := by
    rw [zpow_add₀ (by norm_num)]
    exact mul_lt_mul_of_pos_right hhigh hpos
  have habove : (10 : ℚ) ^ (length - 1 + exponent) ≤ digits * 10 ^ exponent := by
    rw [zpow_add₀ (by norm_num)]
    exact mul_le_mul_of_nonneg_right hlow hpos.le
  have hfalse : -300 ≤ length - 1 + exponent →
      ¬ (digits : ℚ) * 10 ^ exponent ≤ 2 ^ (-1075 : ℤ) := by
    intro hlarge hle
    have hten : (10 : ℚ) ^ (-300 : ℤ) ≤ 10 ^ (length - 1 + exponent) :=
      zpow_le_zpow_right₀ (by norm_num) hlarge
    exact absurd half_lt_ten_pow (not_lt.mpr (hten.trans (habove.trans hle)))
  simp only
  split
  · rename_i hexponent
    have hone : (1 : ℚ) ≤ digits := by exact_mod_cast Nat.one_le_iff_ne_zero.mpr hzero
    have hlength : 0 < length := (one_lt_zpow_iff_right₀ (by norm_num)).mp (hone.trans_lt hhigh)
    exact iff_of_false Bool.false_ne_true (hfalse (by omega))
  rename_i hexponent
  split
  · rename_i hsmall
    refine iff_of_true rfl (hbelow.le.trans (le_trans ?_ ten_pow_le_half))
    exact zpow_le_zpow_right₀ (by norm_num) (by omega)
  split
  · exact iff_of_false Bool.false_ne_true (hfalse (by omega))
  · obtain ⟨e, rfl⟩ := Int.exists_eq_neg_ofNat (le_of_not_ge hexponent)
    have hscaled : (digits : ℚ) * 10 ^ (-(e : ℤ)) ≤ 2 ^ (-1075 : ℤ) ↔
        (digits : ℚ) * 2 ^ (1075 : ℕ) ≤ 10 ^ e := by
      rw [zpow_neg, zpow_neg, zpow_natCast, zpow_ofNat, ← div_eq_mul_inv,
        div_le_iff₀ (by positivity), inv_mul_eq_div, le_div_iff₀ (by positivity)]
    have hcast : ∀ k : Nat, (digits : ℚ) * 2 ^ k ≤ 10 ^ e ↔ digits * Nat.pow 2 k ≤ Nat.pow 10 e :=
      fun k => by exact_mod_cast Iff.rfl
    rw [hscaled, hcast, Int.natAbs_neg, Int.natAbs_natCast]
    exact decide_eq_true_iff

/-- **A number counts as true if its value does**, and so does an integer of any size that
is zero. -/
theorem truthy_iff (v : Numeral) : v.truthy = true ↔ v.worth.Truthy ∨ v.worth = .big 0 := by
  cases v with
  | float digits exponent =>
    simp only [truthy, worth, Meaning.Truthy, Bool.not_eq_true', ← roundsToZero_iff]
    simp
  | big n =>
    simp only [truthy, worth, Meaning.Truthy, Meaning.big.injEq, true_iff]
    exact (em (n = 0)).symm

end TaintReach.Script.Numeral
