import TaintReach.Proofs.Script.Literal.Meaning

/-! A text has one value at most.

The run of decimal digits that a number starts with and the character behind it tell
which form it has; only integers of any size have an `n`. An escape is told by its first
character, quoted text by its quote, and the first characters of numbers, quotes, words and
regular expressions differ (`Denotes.unique`). -/
namespace TaintReach.Script.Literal
open Text (unitsOf)

variable {base d d' n n' : Nat} {c : Char} {t t' : List Char} {ds ds' : List Nat} {x x' : ℚ}

namespace IsDigit

/-- What holds of the characters of all digits. -/
theorem of_all {P : Char → Prop} (h : IsDigit base c d)
    (hall : ∀ d < 16, d < base → P (Nat.digitChar d) ∧ P (Nat.digitChar d).toUpper) : P c := by
  obtain ⟨hbase, hd, rfl | rfl⟩ := h
  · exact (hall d hd hbase).1
  · exact (hall d hd hbase).2

theorem unique (h : IsDigit base c d) (h' : IsDigit base c d') : d = d' := by
  have hinj : ∀ a < 16, ∀ b < 16,
      (Nat.digitChar a = Nat.digitChar b ∨ Nat.digitChar a = (Nat.digitChar b).toUpper ∨
        (Nat.digitChar a).toUpper = Nat.digitChar b ∨
        (Nat.digitChar a).toUpper = (Nat.digitChar b).toUpper) → a = b := by decide
  obtain ⟨_, hd, rfl | rfl⟩ := h <;> obtain ⟨_, hd', hc | hc⟩ := h' <;>
    exact hinj d hd d' hd' (by simp [hc])

theorem isDigit (h : IsDigit 10 c d) : c.isDigit = true :=
  h.of_all (P := fun c => c.isDigit = true) (by decide)

theorem ne_of (h : IsDigit base c d) {c' : Char}
    (hall : ∀ d < 16, Nat.digitChar d ≠ c' ∧ (Nat.digitChar d).toUpper ≠ c') : c ≠ c' :=
  h.of_all (P := (· ≠ c')) fun d hd _ => hall d hd

theorem ne_separator (h : IsDigit base c d) : c ≠ '_' := h.ne_of (by decide)

theorem ne_n (h : IsDigit base c d) : c ≠ 'n' := h.ne_of (by decide)

end IsDigit

theorem forall₂_isDigit_unique (h : List.Forall₂ (IsDigit base) t ds)
    (h' : List.Forall₂ (IsDigit base) t ds') : ds = ds' :=
  Relator.RightUnique.forall₂ (fun _ _ _ h h' => h.unique h') h h'

theorem forall₂_isDigit_all {P : Char → Prop} (h : List.Forall₂ (IsDigit base) t ds)
    (hdigit : ∀ c d, IsDigit base c d → P c) : ∀ c ∈ t, P c := by
  induction h with
  | nil => exact List.forall_mem_nil _
  | cons hc _ ih => exact List.forall_mem_cons.mpr ⟨hdigit _ _ hc, ih⟩

namespace Digits

theorem ne_nil (h : Digits base t ds) : t ≠ [] := by
  cases h <;> exact List.cons_ne_nil _ _

theorem head_ne_separator (h : Digits base t ds) : t.head? ≠ some '_' := by
  cases h with
  | single hc => exact fun h => hc.ne_separator (Option.some.inj h)
  | next hc => exact fun h => hc.ne_separator (Option.some.inj h)
  | separated hc => exact fun h => hc.ne_separator (Option.some.inj h)

theorem unique (h : Digits base t ds) (h' : Digits base t ds') : ds = ds' := by
  induction h generalizing ds' with
  | single hc =>
    cases h' with
    | single hc' => rw [hc.unique hc']
    | next _ ht' => cases ht'
  | next hc ht ih =>
    cases h' with
    | single => cases ht
    | next hc' ht' => rw [hc.unique hc', ih ht']
    | separated => exact absurd rfl ht.head_ne_separator
  | separated hc ht ih =>
    cases h' with
    | next _ ht' => exact absurd rfl ht'.head_ne_separator
    | separated hc' ht' => rw [hc.unique hc', ih ht']

/-- What holds of the characters of digits and of the separator. -/
theorem all {P : Char → Prop} (h : Digits base t ds) (hdigit : ∀ c d, IsDigit base c d → P c)
    (hseparator : P '_') : ∀ c ∈ t, P c := by
  induction h with
  | single hc => exact List.forall_mem_singleton.mpr (hdigit _ _ hc)
  | next hc _ ih => exact List.forall_mem_cons.mpr ⟨hdigit _ _ hc, ih⟩
  | separated hc _ ih =>
    exact List.forall_mem_cons.mpr ⟨hdigit _ _ hc, List.forall_mem_cons.mpr ⟨hseparator, ih⟩⟩

theorem ne_n (h : Digits base t ds) : ∀ c ∈ t, c ≠ 'n' :=
  h.all (fun _ _ hc => hc.ne_n) (by decide)

end Digits

/-- A text splits in one way into characters with `p` and the rest. -/
theorem append_split {p : Char → Bool} {a b u v : List Char} (ha : ∀ c ∈ a, p c = true)
    (hb : ∀ c ∈ b.head?, p c = false) (hu : ∀ c ∈ u, p c = true)
    (hv : ∀ c ∈ v.head?, p c = false) (h : a ++ b = u ++ v) : a = u ∧ b = v := by
  have hstop : ∀ {l : List Char}, (∀ c ∈ l.head?, p c = false) → l.takeWhile p = [] := by
    intro l hl
    cases l with
    | nil => rfl
    | cons c l => simp [hl c rfl]
  have hsame : a = u := by
    have htaken := congrArg (List.takeWhile p) h
    rwa [List.takeWhile_append_of_pos ha, List.takeWhile_append_of_pos hu, hstop hb, hstop hv,
      List.append_nil, List.append_nil] at htaken
  subst hsame
  exact ⟨rfl, List.append_cancel_left h⟩

/-- Characters of whole numbers. -/
def isRun (c : Char) : Bool := c.isDigit || c = '_'

/-- Characters of decimal numbers up to the exponent. -/
def isMantissa (c : Char) : Bool := isRun c || c = '.'

theorem isMantissa_of_isRun (h : ∀ c ∈ t, isRun c = true) : ∀ c ∈ t, isMantissa c = true :=
  fun c hc => Bool.or_eq_true_iff.mpr (.inl (h c hc))

theorem Digits.isRun (h : Digits 10 t ds) : ∀ c ∈ t, isRun c = true :=
  h.all (fun _ _ hc => Bool.or_eq_true_iff.mpr (.inl hc.isDigit)) rfl

namespace Whole

theorem isRun (h : Whole t n) : ∀ c ∈ t, isRun c = true := by
  cases h with
  | zero => exact List.forall_mem_singleton.mpr rfl
  | digits ht => exact ht.isRun

theorem ne_nil (h : Whole t n) : t ≠ [] := by
  cases h with
  | zero => exact List.cons_ne_nil _ _
  | digits ht => exact ht.ne_nil

theorem not_mem_point (h : Whole t n) : '.' ∉ t := fun hc => absurd (h.isRun _ hc) (by decide)

theorem unique (h : Whole t n) (h' : Whole t n') : n = n' := by
  cases h with
  | zero =>
    cases h' with
    | zero => rfl
    | digits _ hfirst => exact absurd rfl hfirst
  | digits ht hfirst =>
    cases h' with
    | zero => exact absurd rfl hfirst
    | digits ht' => rw [ht.unique ht']

end Whole

namespace Places

theorem isRun (h : Places t x) : ∀ c ∈ t, isRun c = true := by
  cases h with
  | nil => exact List.forall_mem_nil _
  | digits ht => exact ht.isRun

theorem unique (h : Places t x) (h' : Places t x') : x = x' := by
  cases h with
  | nil =>
    cases h' with
    | nil => rfl
    | digits ht => exact absurd rfl ht.ne_nil
  | digits ht =>
    cases h' with
    | nil => exact absurd rfl ht.ne_nil
    | digits ht' => rw [ht.unique ht']

end Places

namespace Mantissa

theorem isMantissa (h : Mantissa t x) : ∀ c ∈ t, isMantissa c = true := by
  cases h with
  | whole hw => exact isMantissa_of_isRun hw.isRun
  | fraction hw hf =>
    exact List.forall_mem_append.mpr ⟨isMantissa_of_isRun hw.isRun,
      List.forall_mem_cons.mpr ⟨rfl, isMantissa_of_isRun hf.isRun⟩⟩
  | point hf => exact List.forall_mem_cons.mpr ⟨rfl, isMantissa_of_isRun hf.isRun⟩

theorem unique (h : Mantissa t x) (h' : Mantissa t x') : x = x' := by
  cases h with
  | whole hw =>
    cases h' with
    | whole hw' => rw [hw.unique hw']
    | fraction => exact absurd (List.mem_append_right _ List.mem_cons_self) hw.not_mem_point
    | point => exact absurd List.mem_cons_self hw.not_mem_point
  | @fraction w f _ _ hw hf =>
    generalize hs : w ++ '.' :: f = s at h'
    cases h' with
    | whole hw' =>
      subst hs
      exact absurd (List.mem_append_right _ List.mem_cons_self) hw'.not_mem_point
    | fraction hw' hf' =>
      obtain ⟨rfl, htail⟩ := append_split hw.isRun (by simp [Literal.isRun]) hw'.isRun
        (by simp [Literal.isRun]) hs
      cases htail
      rw [hw.unique hw', hf.unique hf']
    | point => exact absurd hs (point_ne hw)
  | @point f _ hf hne =>
    generalize hs : '.' :: f = s at h'
    cases h' with
    | whole hw' => exact absurd (hs ▸ List.mem_cons_self) hw'.not_mem_point
    | fraction hw' => exact absurd hs.symm (point_ne hw')
    | point hf' =>
      cases hs
      rw [hf.unique hf']
where
  point_ne {w f f' : List Char} {n : Nat} (hw : Whole w n) : w ++ '.' :: f ≠ '.' :: f' := by
    intro hs
    cases w with
    | nil => exact hw.ne_nil rfl
    | cons c w =>
      obtain ⟨rfl, _⟩ := List.cons.inj hs
      exact hw.not_mem_point List.mem_cons_self

end Mantissa

namespace Exponent

variable {k k' : ℤ}

theorem head (h : Exponent t k) : ∀ c ∈ t.head?, c = 'e' ∨ c = 'E' := by
  cases h with
  | absent => simp
  | plain he => simpa using he
  | plus he => simpa using he
  | minus he => simpa using he

theorem unique (h : Exponent t k) (h' : Exponent t k') : k = k' := by
  have hsign : ∀ {c : Char} {t : List Char} {ds : List Nat},
      Digits 10 (c :: t) ds → isRun c = true :=
    fun ht => ht.isRun _ List.mem_cons_self
  cases h with
  | absent => cases h'; rfl
  | plain _ ht =>
    cases h' with
    | plain _ ht' => rw [ht.unique ht']
    | plus => exact absurd (hsign ht) (by decide)
    | minus => exact absurd (hsign ht) (by decide)
  | plus _ ht =>
    cases h' with
    | plain _ ht' => exact absurd (hsign ht') (by decide)
    | plus _ ht' => rw [ht.unique ht']
  | minus _ ht =>
    cases h' with
    | plain _ ht' => exact absurd (hsign ht') (by decide)
    | minus _ ht' => rw [ht.unique ht']

end Exponent

namespace Prefixed

theorem ne_n (h : Prefixed t n) : ∀ c ∈ t, c ≠ 'n' := by
  obtain ⟨hp, ht⟩ := h
  refine List.forall_mem_cons.mpr ⟨by decide, List.forall_mem_cons.mpr ⟨?_, ht.ne_n⟩⟩
  rintro rfl
  cases hp

/-- The letter behind the zero is none of a decimal number. -/
theorem split (h : Prefixed t n) :
    ∃ p u, t = '0' :: p :: u ∧ isMantissa p = false ∧ p ≠ 'e' ∧ p ≠ 'E' := by
  obtain ⟨hp, ht⟩ := h
  refine ⟨_, _, rfl, ?_⟩
  unfold radix? at hp
  split_ifs at hp with hx ho hb
  · obtain rfl | rfl := hx <;> decide
  · obtain rfl | rfl := ho <;> decide
  · obtain rfl | rfl := hb <;> decide

theorem unique (h : Prefixed t n) (h' : Prefixed t n') : n = n' := by
  obtain ⟨hp, ht⟩ := h
  obtain ⟨hp', ht'⟩ := h'
  obtain rfl := Option.some.inj (hp.symm.trans hp')
  rw [ht.unique ht']

theorem not_isRun (h : Prefixed t n) : ¬ ∀ c ∈ t, isRun c = true := by
  obtain ⟨p, u, rfl, hp, _⟩ := h.split
  intro hrun
  rw [isMantissa, hrun p (by simp)] at hp
  cases hp

end Prefixed

theorem Exponent.head_not_mantissa {k : ℤ} (h : Exponent t k) :
    ∀ c ∈ t.head?, isMantissa c = false := by
  intro c hc
  obtain rfl | rfl := h.head c hc <;> decide

namespace Numeric

variable {v v' : Meaning} {e : List Char} {k : ℤ}

/-- Only integers of any size have an `n`. -/
theorem ne_n (h : Numeric t v) (hv : ∀ n, v ≠ .big n) : ∀ c ∈ t, c ≠ 'n' := by
  cases h with
  | decimal hm he =>
    have hletter : ∀ {e : Char}, e = 'e' ∨ e = 'E' → e ≠ 'n' := by
      rintro e (rfl | rfl) <;> decide
    refine List.forall_mem_append.mpr ⟨?_, ?_⟩
    · rintro c hc rfl
      exact absurd (hm.isMantissa _ hc) (by decide)
    · cases he with
      | absent => exact List.forall_mem_nil _
      | plain he ht => exact List.forall_mem_cons.mpr ⟨hletter he, ht.ne_n⟩
      | plus he ht | minus he ht =>
        exact List.forall_mem_cons.mpr ⟨hletter he, List.forall_mem_cons.mpr ⟨by decide, ht.ne_n⟩⟩
  | prefixed ht => exact ht.ne_n
  | octal _ ht =>
    exact List.forall_mem_cons.mpr ⟨by decide, forall₂_isDigit_all ht fun _ _ hc => hc.ne_n⟩
  | big => exact absurd rfl (hv _)

theorem decimal_ne_prefixed (hm : Mantissa t x) (he : Exponent e k) (hp : Prefixed t' n) :
    t ++ e ≠ t' := by
  rintro rfl
  obtain ⟨p, u, hs, hp, hne⟩ := hp.split
  obtain ⟨rfl, rfl⟩ := append_split (u := ['0']) (v := p :: u) hm.isMantissa he.head_not_mantissa
    (List.forall_mem_singleton.mpr rfl) (by simpa using hp) hs
  exact not_or.mpr hne (he.head p rfl)

theorem isRun_of_octal (h : List.Forall₂ (IsDigit 8) t ds) : ∀ c ∈ t, isRun c = true :=
  forall₂_isDigit_all h fun _ _ hc =>
    hc.of_all (P := fun c => isRun c = true) (by decide)

theorem decimal_ne_octal (hm : Mantissa t x) (he : Exponent e k) (hne : t' ≠ [])
    (ht : List.Forall₂ (IsDigit 8) t' ds) : t ++ e ≠ '0' :: t' := by
  intro hs
  have hrun : ∀ c ∈ '0' :: t', isRun c = true := List.forall_mem_cons.mpr ⟨rfl, isRun_of_octal ht⟩
  obtain ⟨rfl, rfl⟩ := append_split (u := '0' :: t') (v := []) hm.isMantissa he.head_not_mantissa
    (isMantissa_of_isRun hrun) (by simp) (by simpa using hs)
  generalize hw : '0' :: t' = w at hm hrun
  cases hm with
  | whole hwhole =>
    cases hwhole with
    | zero => exact hne (List.cons.inj hw).2
    | digits _ hfirst => exact hfirst (hw ▸ rfl)
  | fraction => exact absurd (hrun '.' (by simp)) (by decide)
  | point => exact absurd (hrun '.' (by simp)) (by decide)

theorem prefixed_ne_octal (hp : Prefixed t n) (ht : List.Forall₂ (IsDigit 8) t' ds) :
    t ≠ '0' :: t' := by
  rintro rfl
  exact hp.not_isRun (List.forall_mem_cons.mpr ⟨rfl, isRun_of_octal ht⟩)

theorem unique (h : Numeric t v) (h' : Numeric t v') : v = v' := by
  have hbig : ∀ {s s' : List Char} {v : Meaning},
      Numeric s v → (∀ n, v ≠ .big n) → s' ++ ['n'] ≠ s :=
    fun hs hv heq => hs.ne_n hv 'n' (heq ▸ List.mem_append_right _ List.mem_cons_self) rfl
  cases h with
  | @decimal m e _ _ hm he =>
    generalize hs : m ++ e = s at h'
    cases h' with
    | decimal hm' he' =>
      obtain ⟨rfl, rfl⟩ := append_split hm.isMantissa he.head_not_mantissa hm'.isMantissa
        he'.head_not_mantissa hs
      rw [hm.unique hm', he.unique he']
    | prefixed ht' => exact absurd hs (decimal_ne_prefixed hm he ht')
    | octal hne' ht' => exact absurd hs (decimal_ne_octal hm he hne' ht')
    | big => exact absurd hs.symm (hbig (.decimal hm he) (by simp))
  | prefixed ht =>
    generalize hs : t = s at h'
    cases h' with
    | decimal hm' he' => exact absurd hs.symm (decimal_ne_prefixed hm' he' ht)
    | prefixed ht' => rw [ht.unique (hs ▸ ht')]
    | octal _ ht' => exact absurd hs (prefixed_ne_octal ht ht')
    | big => exact absurd hs.symm (hbig (.prefixed ht) (by simp))
  | @octal u _ hne ht =>
    generalize hs : '0' :: u = s at h'
    cases h' with
    | decimal hm' he' => exact absurd hs.symm (decimal_ne_octal hm' he' hne ht)
    | prefixed ht' => exact absurd hs.symm (prefixed_ne_octal ht' ht)
    | octal _ ht' =>
      cases hs
      rw [forall₂_isDigit_unique ht ht']
    | big => exact absurd hs.symm (hbig (.octal hne ht) (by simp))
  | @big u _ ht =>
    generalize hs : u ++ ['n'] = s at h'
    cases h' with
    | decimal hm' he' => exact absurd hs (hbig (.decimal hm' he') (by simp))
    | prefixed ht' => exact absurd hs (hbig (.prefixed ht') (by simp))
    | octal hne' ht' => exact absurd hs (hbig (.octal hne' ht') (by simp))
    | big ht' =>
      obtain rfl := List.append_cancel_right hs
      rcases ht, ht' with ⟨hw | hp, hw' | hp'⟩
      · rw [hw.unique hw']
      · exact absurd hw.isRun hp'.not_isRun
      · exact absurd hw'.isRun hp.not_isRun
      · rw [hp.unique hp']

/-- A number starts with a digit or a point. -/
theorem head (h : Numeric t v) : ∃ c u, t = c :: u ∧ isMantissa c = true := by
  have hrun : ∀ {t e : List Char}, t ≠ [] → (∀ c ∈ t, isMantissa c = true) →
      ∃ c u, t ++ e = c :: u ∧ isMantissa c = true := by
    intro t e hne hall
    cases t with
    | nil => exact absurd rfl hne
    | cons c t => exact ⟨c, t ++ e, rfl, hall c List.mem_cons_self⟩
  cases h with
  | decimal hm =>
    refine hrun ?_ hm.isMantissa
    cases hm with
    | whole hw => exact hw.ne_nil
    | fraction => simp
    | point => simp
  | prefixed ht =>
    obtain ⟨p, u, rfl, _⟩ := ht.split
    exact ⟨'0', _, rfl, rfl⟩
  | octal => exact ⟨'0', _, rfl, rfl⟩
  | big ht =>
    rcases ht with hw | hp
    · exact hrun hw.ne_nil (isMantissa_of_isRun hw.isRun)
    · obtain ⟨p, u, rfl, _⟩ := hp.split
      exact ⟨'0', _, rfl, rfl⟩

end Numeric

section
variable {q : Quote} {us us' : List Nat} {r r' : List Char}

theorem isLineBreak_of_isOctal (h : isOctal c = true) : isLineBreak c = false := by
  simp only [isOctal, Bool.and_eq_true, decide_eq_true_eq, Char.le_def, UInt32.le_iff_toNat_le] at h
  have hlow : 48 ≤ c.toNat := h.1
  have hhigh : c.toNat ≤ 55 := h.2
  by_contra hbreak
  simp only [isLineBreak, Bool.not_eq_false, Bool.or_eq_true, decide_eq_true_eq] at hbreak
  obtain ((rfl | rfl) | hc) | hc := hbreak
  · exact absurd hlow (by decide)
  · exact absurd hlow (by decide)
  · omega
  · omega

/-- A character that stands for itself or a control character starts no other escape. -/
theorem character?_ne (h : character? q c = some n) :
    isLineBreak c = false ∧ isOctal c = false := by
  unfold character? at h
  split at h
  · rename_i m hcontrol
    have hall : ∀ p ∈ controls, isLineBreak p.1 = false ∧ isOctal p.1 = false := by decide
    obtain ⟨front, back, hsplit, _⟩ := List.lookup_eq_some_iff.mp hcontrol
    have hmem : (c, m) ∈ controls := by simp [hsplit]
    exact hall _ hmem
  · split at h
    · cases h
    · rename_i hnot
      simp only [Bool.or_eq_true, not_or, Bool.not_eq_true] at hnot
      exact hnot.1.1.1

theorem isOctal_of_octalPart (h : octalPart (c :: t) ≠ []) : isOctal c = true := by
  by_contra hc
  refine h ?_
  unfold octalPart
  split <;> simp [hc]

theorem forall₂_isDigit_not_brace {rest : List Char} (h : List.Forall₂ (IsDigit 16) t ds)
    (hne : t ≠ []) : t ++ r ≠ '\x7b' :: rest := by
  cases h with
  | nil => exact absurd rfl hne
  | cons hc =>
    intro hs
    exact hc.ne_of (by decide) (List.cons.inj hs).1

theorem Escaped.unique (h : Escaped q t us r) (h' : Escaped q t us' r') : us = us' ∧ r = r' := by
  cases h with
  | character hc =>
    cases h' with
    | character hc' =>
      obtain rfl := Option.some.inj (hc.symm.trans hc')
      exact ⟨rfl, rfl⟩
    | hex | unit | codePoint | doubleBreak => cases hc
    | octal _ hne => exact absurd (isOctal_of_octalPart hne) (by simp [(character?_ne hc).2])
    | lineBreak hb => exact absurd hb (by simp [(character?_ne hc).1])
  | @hex u _ _ ht hlength =>
    generalize hs : u ++ r = s at h'
    cases h' with
    | character hc' => cases hc'
    | hex ht' hlength' =>
      obtain ⟨rfl, rfl⟩ := List.append_inj hs (hlength.trans hlength'.symm)
      exact ⟨by rw [forall₂_isDigit_unique ht ht'], rfl⟩
    | octal _ hne => exact absurd (isOctal_of_octalPart hne) (by decide)
    | lineBreak hb => cases hb
  | @unit u _ _ ht hlength =>
    have hne : u ≠ [] := by
      rintro rfl
      cases hlength
    generalize hs : u ++ r = s at h'
    cases h' with
    | character hc' => cases hc'
    | unit ht' hlength' =>
      obtain ⟨rfl, rfl⟩ := List.append_inj hs (hlength.trans hlength'.symm)
      exact ⟨by rw [forall₂_isDigit_unique ht ht'], rfl⟩
    | codePoint => exact absurd hs (forall₂_isDigit_not_brace ht hne)
    | octal _ hne => exact absurd (isOctal_of_octalPart hne) (by decide)
    | lineBreak hb => cases hb
  | @codePoint u _ _ ht =>
    generalize hs : '\x7b' :: (u ++ '\x7d' :: r) = s at h'
    cases h' with
    | character hc' => cases hc'
    | unit ht' hlength' =>
      refine absurd hs.symm (forall₂_isDigit_not_brace ht' ?_)
      rintro rfl
      cases hlength'
    | codePoint ht' =>
      have hclose : ∀ {u : List Char} {ds : List Nat}, List.Forall₂ (IsDigit 16) u ds →
          ∀ c ∈ u, (c != '\x7d') = true :=
        fun hu => forall₂_isDigit_all hu fun _ _ hc => bne_iff_ne.mpr (hc.ne_of (by decide))
      obtain ⟨rfl, htail⟩ := append_split (hclose ht) (by simp) (hclose ht') (by simp)
        (List.cons.inj hs).2
      cases htail
      exact ⟨by rw [forall₂_isDigit_unique ht ht'], rfl⟩
    | octal _ hne => exact absurd (isOctal_of_octalPart hne) (by decide)
    | lineBreak hb => cases hb
  | octal ht hne =>
    cases h' with
    | character hc' => exact absurd (isOctal_of_octalPart hne) (by simp [(character?_ne hc').2])
    | hex | unit | codePoint | doubleBreak => exact absurd (isOctal_of_octalPart hne) (by decide)
    | octal ht' => exact ⟨by rw [forall₂_isDigit_unique ht ht'], rfl⟩
    | lineBreak hb =>
      exact absurd hb (by simp [isLineBreak_of_isOctal (isOctal_of_octalPart hne)])
  | lineBreak hb hlone =>
    cases h' with
    | character hc' => exact absurd hb (by simp [(character?_ne hc').1])
    | hex | unit | codePoint => cases hb
    | octal _ hne => exact absurd hb (by simp [isLineBreak_of_isOctal (isOctal_of_octalPart hne)])
    | lineBreak => exact ⟨rfl, rfl⟩
    | doubleBreak => exact absurd rfl (hlone rfl)
  | doubleBreak =>
    cases h' with
    | character hc' => cases hc'
    | octal _ hne => exact absurd (isOctal_of_octalPart hne) (by decide)
    | lineBreak _ hlone => exact absurd rfl (hlone rfl)
    | doubleBreak => exact ⟨rfl, rfl⟩

theorem Quotation.unique (h : Quotation q t us) (h' : Quotation q t us') : us = us' := by
  induction h generalizing us' with
  | nil => cases h'; rfl
  | plain hc hcr _ _ ih =>
    cases h' with
    | plain _ _ _ ht' => rw [ih ht']
    | escape => exact absurd rfl hc
    | lineBreak | doubleBreak => exact absurd rfl hcr
  | escape ht _ ih =>
    cases h' with
    | plain hc' => exact absurd rfl hc'
    | escape ht' hrest' =>
      obtain ⟨rfl, rfl⟩ := ht.unique ht'
      rw [ih hrest']
  | lineBreak _ hlone _ ih =>
    cases h' with
    | plain _ hcr' => exact absurd rfl hcr'
    | lineBreak _ _ ht' => rw [ih ht']
    | doubleBreak => exact absurd rfl hlone
  | doubleBreak _ _ ih =>
    cases h' with
    | plain _ hcr' => exact absurd rfl hcr'
    | lineBreak _ hlone' => exact absurd rfl hlone'
    | doubleBreak _ ht' => rw [ih ht']

end

/-- **A text has one value at most.** -/
theorem Denotes.unique {v v' : Meaning} (h : Denotes t v) (h' : Denotes t v') : v = v' := by
  have hnumber : ∀ {c : Char} {u : List Char} {v : Meaning},
      Numeric (c :: u) v → isMantissa c = true := by
    intro c u v hn
    obtain ⟨c', u', hs, hc'⟩ := hn.head
    rwa [(List.cons.inj hs).1]
  generalize hs : t = s at h'
  cases h with
  | null | yes | no =>
    cases h' with
    | null | yes | no => first | rfl | cases hs
    | numeric ht' => exact absurd (hnumber (hs ▸ ht')) (by decide)
    | @quoted q => exact absurd (List.cons.inj hs).1 (by cases q <;> decide)
    | regexp => cases hs
  | numeric ht =>
    cases h' with
    | null | yes | no =>
      subst hs
      exact absurd (hnumber ht) (by decide)
    | numeric ht' => exact ht.unique (hs ▸ ht')
    | @quoted q =>
      subst hs
      exact absurd (hnumber ht) (by cases q <;> decide)
    | regexp =>
      subst hs
      exact absurd (hnumber ht) (by decide)
  | @quoted q u us ht =>
    cases h' with
    | null | yes | no | regexp => exact absurd (List.cons.inj hs).1 (by cases q <;> decide)
    | numeric ht' =>
      subst hs
      exact absurd (hnumber ht') (by cases q <;> decide)
    | @quoted q' u' us' ht' =>
      obtain ⟨hchar, htail⟩ := List.cons.inj hs
      have hq : q = q' := by revert hchar; cases q <;> cases q' <;> decide
      subst hq
      obtain rfl := List.append_cancel_right htail
      rw [ht.unique ht']
  | regexp u =>
    cases h' with
    | null | yes | no => cases hs
    | numeric ht' =>
      subst hs
      exact absurd (hnumber ht') (by decide)
    | @quoted q => exact absurd (List.cons.inj hs).1 (by cases q <;> decide)
    | regexp => rfl

end TaintReach.Script.Literal
