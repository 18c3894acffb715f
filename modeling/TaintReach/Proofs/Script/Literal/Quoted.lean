import TaintReach.Proofs.Script.Literal.Numeral
import TaintReach.Script.Quoted

/-! Quoted text is empty if its value is.

How far quoted text reaches is found by stepping past every backslash together with the
character behind it (`Bounded`); escapes are read apart from that. Neither gets ahead of
the other: what is left behind an escape is bounded again, so the text between the quotes
has a value in the grammar (`cook_sound`). That value is empty exactly if the units that
were read are: only lines that are continued give nothing. An octal escape may take one
digit more than it has in the grammar, where that digit then stands for itself. -/
namespace TaintReach.Script.Literal
open Text (isDigitIn valueIn unitsOf)
open Script.Quoted

variable {q : Quote} {c : Char} {t u rest cs : List Char}

/-! ### Bounded text -/

/-- Text in which the quotes do not end, stepping past every backslash together with the
character behind it. -/
inductive Bounded (q : Quote) : List Char → Prop
  | nil : Bounded q []
  | plain {c : Char} {t : List Char} (hc : c ≠ '\\') (hends : ¬ q.Ends c t) (ht : Bounded q t) :
    Bounded q (c :: t)
  | pair {c : Char} {t : List Char} (hc : q = .back → c ≠ '8' ∧ c ≠ '9')
    (hlone : c = '\r' → t.head? ≠ some '\n') (ht : Bounded q t) : Bounded q ('\\' :: c :: t)
  | doubleBreak {t : List Char} (ht : Bounded q t) : Bounded q ('\\' :: '\r' :: '\n' :: t)

namespace Bounded

theorem tail (h : Bounded q (c :: t)) (hc : c ≠ '\\') : Bounded q t := by
  cases h with
  | plain _ _ ht => exact ht
  | pair | doubleBreak => exact absurd rfl hc

theorem drop (h : Bounded q (u ++ t)) (hu : ∀ c ∈ u, c ≠ '\\') : Bounded q t := by
  induction u with
  | nil => exact h
  | cons c u ih =>
    obtain ⟨hc, hu⟩ := List.forall_mem_cons.mp hu
    exact ih (h.tail hc) hu

theorem behind (h : Bounded q ('\\' :: c :: t)) (hc : c ≠ '\r') : Bounded q t := by
  cases h with
  | plain hslash => exact absurd rfl hslash
  | pair _ _ ht => exact ht
  | doubleBreak => exact absurd rfl hc

theorem not_digit (h : Bounded .back ('\\' :: c :: t)) : c ≠ '8' ∧ c ≠ '9' := by
  cases h with
  | plain hslash => exact absurd rfl hslash
  | pair hc => exact hc rfl
  | doubleBreak => decide

end Bounded

theorem exists_append_eq_cons (t : List Char) (c : Char) (behind : List Char) :
    ∃ d rest, t ++ c :: behind = d :: rest := by
  cases t with
  | nil => exact ⟨c, behind, rfl⟩
  | cons d t => exact ⟨d, t ++ c :: behind, rfl⟩

theorem stringBody_sound {n : Nat} (hq : q ≠ .back) (h : stringBody q.char cs = some n) :
    ∃ t behind, cs = t ++ q.char :: behind ∧ t.length = n ∧ Bounded q t := by
  fun_induction stringBody q.char cs generalizing n with
  | case1 => cases h
  | case2 rest ih =>
    obtain ⟨m, hm, rfl⟩ := Option.map_eq_some_iff.mp h
    obtain ⟨t, behind, rfl, rfl, ht⟩ := ih hm
    exact ⟨'\\' :: '\r' :: '\n' :: t, behind, rfl, rfl, .doubleBreak ht⟩
  | case3 c rest hlone ih =>
    obtain ⟨m, hm, rfl⟩ := Option.map_eq_some_iff.mp h
    obtain ⟨t, behind, rfl, rfl, ht⟩ := ih hm
    refine ⟨'\\' :: c :: t, behind, rfl, rfl, .pair (fun hback => absurd hback hq) ?_ ht⟩
    intro hc hhead
    obtain ⟨t, rfl⟩ := List.head?_eq_some_iff.mp hhead
    exact hlone _ hc rfl
  | case4 rest =>
    cases h
    exact ⟨[], rest, rfl, rfl, .nil⟩
  | case5 => cases h
  | case6 c rest hnot hpair hne hbreak ih =>
    obtain ⟨m, hm, rfl⟩ := Option.map_eq_some_iff.mp h
    obtain ⟨t, behind, rfl, rfl, ht⟩ := ih hm
    refine ⟨c :: t, behind, rfl, rfl, .plain ?_ ?_ ht⟩
    · intro hc
      obtain ⟨d, rest, hrest⟩ := exists_append_eq_cons t q.char behind
      exact hpair d rest hc hrest
    · simp only [Bool.or_eq_true, decide_eq_true_eq] at hbreak
      cases q with
      | back => exact absurd rfl hq
      | single | double => exact not_or.mpr ⟨hne, hbreak⟩

theorem plainDigitEscape_cons (hc : c ≠ '\\') :
    plainDigitEscape (c :: t) = plainDigitEscape t := by
  rw [plainDigitEscape]
  intro d rest hcd
  exact absurd hcd hc

theorem templateBody_sound {n : Nat} (h : templateBody cs = some (n, .backtick)) :
    ∃ t behind, cs = t ++ '\x60' :: behind ∧ t.length = n ∧
      (plainDigitEscape t = false → Bounded .back t) := by
  fun_induction templateBody cs generalizing n with
  | case1 => cases h
  | case2 c rest ih =>
    obtain ⟨⟨m, e⟩, hm, heq⟩ := Option.map_eq_some_iff.mp h
    obtain ⟨rfl, rfl⟩ := Prod.mk.inj heq
    obtain ⟨t, behind, rfl, rfl, ht⟩ := ih hm
    refine ⟨'\\' :: c :: t, behind, rfl, rfl, fun hdigits => ?_⟩
    simp only [plainDigitEscape, Bool.or_eq_false_iff, decide_eq_false_iff_not] at hdigits
    by_cases hdouble : c = '\r' ∧ t.head? = some '\n'
    · obtain ⟨rfl, hhead⟩ := hdouble
      obtain ⟨t, rfl⟩ := List.head?_eq_some_iff.mp hhead
      exact .doubleBreak ((ht hdigits.2).tail (by decide))
    · exact .pair (fun _ => hdigits.1) (fun hc hhead => hdouble ⟨hc, hhead⟩) (ht hdigits.2)
  | case3 => cases h
  | case4 rest =>
    cases h
    exact ⟨[], rest, rfl, rfl, fun _ => .nil⟩
  | case5 c rest hpair hhole hne ih =>
    obtain ⟨⟨m, e⟩, hm, heq⟩ := Option.map_eq_some_iff.mp h
    obtain ⟨rfl, rfl⟩ := Prod.mk.inj heq
    obtain ⟨t, behind, rfl, rfl, ht⟩ := ih hm
    have hc : c ≠ '\\' := by
      intro hc
      obtain ⟨d, rest, hrest⟩ := exists_append_eq_cons t '\x60' behind
      exact hpair d rest hc hrest
    refine ⟨c :: t, behind, rfl, rfl, fun hdigits => .plain hc ?_ (ht ?_)⟩
    · rintro (hquote | ⟨hdollar, hhead⟩)
      · exact hne hquote
      · obtain ⟨t, rfl⟩ := List.head?_eq_some_iff.mp hhead
        exact hhole _ hdollar rfl
    · rwa [plainDigitEscape_cons hc] at hdigits

/-! ### Escapes -/

theorem unitsOf_ne_nil (code : Nat) : unitsOf code ≠ [] := by
  unfold unitsOf
  split <;> exact List.cons_ne_nil _ _

/-- What an escape leads to: what is left is bounded, and with a value for that the whole has
one, which is empty only if the escape gives nothing. -/
structure Leads (q : Quote) (cs : List Char) (e : Escape) : Prop where
  bounded : Bounded q (cs.drop e.length)
  quotation : ∀ vs, Quotation q (cs.drop e.length) vs →
    ∃ us, Quotation q ('\\' :: cs) us ∧ (us = [] ↔ e.code = none ∧ vs = [])

/-- An escape that is read as far as in the grammar, and gives something. -/
theorem Leads.of_escaped {us : List Nat} {n code : Nat} (hbounded : Bounded q (cs.drop n))
    (h : Escaped q cs us (cs.drop n)) (hus : us ≠ []) : Leads q cs ⟨some code, n⟩ where
  bounded := hbounded
  quotation vs hvs := ⟨us ++ vs, .escape h hvs, by simp [hus]⟩

theorem IsDigit.ne_backslash {base d : Nat} (h : IsDigit base c d) : c ≠ '\\' := h.ne_of (by decide)

/-- Hexadecimal digits at the start of a text. -/
theorem hexExactly_sound {n value : Nat} (h : hexExactly n cs = some value) :
    ∃ ds, List.Forall₂ (IsDigit 16) (cs.take n) ds ∧ (cs.take n).length = n := by
  simp only [hexExactly] at h
  split at h
  · rename_i hrun
    simp only [Bool.and_eq_true, decide_eq_true_eq] at hrun
    obtain ⟨ds, hds⟩ := exists_forall₂_isDigit (List.all_eq_true.mp hrun.2)
    exact ⟨ds, hds, hrun.1⟩
  · cases h

theorem Bounded.drop_digits {n : Nat} {ds : List Nat} (h : Bounded q cs)
    (hds : List.Forall₂ (IsDigit 16) (cs.take n) ds) : Bounded q (cs.drop n) := by
  rw [← List.take_append_drop n cs] at h
  exact h.drop (forall₂_isDigit_all hds fun _ _ hc => hc.ne_backslash)

theorem hex_leads {value : Nat} (hb : Bounded q ('\\' :: 'x' :: rest))
    (h : hexExactly 2 rest = some value) : Leads q ('x' :: rest) ⟨some value, 3⟩ := by
  obtain ⟨ds, hds, hlength⟩ := hexExactly_sound h
  have hescaped : Escaped q ('x' :: (rest.take 2 ++ rest.drop 2)) [number 16 ds] (rest.drop 2) :=
    .hex hds hlength
  rw [List.take_append_drop] at hescaped
  exact .of_escaped ((hb.behind (by decide)).drop_digits hds) hescaped (List.cons_ne_nil _ _)

/-- A code point in braces at the start of a text. -/
theorem bracedCode_sound {n value : Nat} (h : bracedCode cs = some (value, n)) :
    ∃ t ds rest, cs = t ++ '\x7d' :: rest ∧ n = t.length + 1 ∧ List.Forall₂ (IsDigit 16) t ds ∧
      t ≠ [] ∧ number 16 ds ≤ 0x10FFFF := by
  simp only [bracedCode] at h
  split at h
  · rename_i hrun
    simp only [Bool.and_eq_true, decide_eq_true_eq] at hrun
    obtain ⟨⟨hne, hclose⟩, hmax⟩ := hrun
    obtain ⟨rfl, rfl⟩ := Prod.mk.inj (Option.some.inj h)
    obtain ⟨rest, hrest⟩ := List.head?_eq_some_iff.mp hclose
    have hall : ∀ c ∈ cs.takeWhile (isDigitIn 16), isDigitIn 16 c = true :=
      fun _ => List.mem_takeWhile_imp
    obtain ⟨ds, hds⟩ := exists_forall₂_isDigit hall
    refine ⟨_, ds, rest, ?_, rfl, hds, hne, ?_⟩
    · rw [← hrest]
      exact List.prefix_append_drop (List.takeWhile_prefix _)
    · rwa [valueIn_eq, forall₂_isDigit_filterMap hds] at hmax
  · cases h

theorem unicode_leads {n value : Nat} (hb : Bounded q ('\\' :: 'u' :: rest))
    (h : unicodeEscape rest = some (value, n)) : Leads q ('u' :: rest) ⟨some value, n + 1⟩ := by
  have hrest : Bounded q rest := hb.behind (by decide)
  unfold unicodeEscape at h
  split at h
  · rename_i braced
    obtain ⟨⟨value, m⟩, hcode, heq⟩ := Option.map_eq_some_iff.mp h
    obtain ⟨rfl, rfl⟩ := Prod.mk.inj heq
    obtain ⟨t, ds, behind, rfl, rfl, hds, hne, hmax⟩ := bracedCode_sound hcode
    have hdrop : ('u' :: '\x7b' :: (t ++ '\x7d' :: behind)).drop (t.length + 1 + 1 + 1) =
        behind := by
      simp [List.drop_append]
    have hbehind : Bounded q behind :=
      ((hrest.tail (by decide)).drop (forall₂_isDigit_all hds fun _ _ hc => hc.ne_backslash)).tail
        (by decide)
    refine .of_escaped (hdrop.symm ▸ hbehind) ?_ (unitsOf_ne_nil (number 16 ds))
    rw [hdrop]
    exact .codePoint hds hne hmax
  · obtain ⟨value, hcode, heq⟩ := Option.map_eq_some_iff.mp h
    obtain ⟨rfl, rfl⟩ := Prod.mk.inj heq
    obtain ⟨ds, hds, hlength⟩ := hexExactly_sound hcode
    have hescaped : Escaped q ('u' :: (rest.take 4 ++ rest.drop 4)) [number 16 ds] (rest.drop 4) :=
      .unit hds hlength
    rw [List.take_append_drop] at hescaped
    exact .of_escaped (hrest.drop_digits hds) hescaped (List.cons_ne_nil _ _)

/-! ### Octal escapes -/

theorem isOctal_iff : isOctal c = true ↔ ∃ d, IsDigit 8 c d := by
  constructor
  · intro h
    have hc : c = Char.ofNat c.toNat := (Char.ofNat_toNat c).symm
    simp only [isOctal, Bool.and_eq_true, decide_eq_true_eq, Char.le_def,
      UInt32.le_iff_toNat_le] at h
    obtain ⟨hlow, hhigh⟩ : 48 ≤ c.toNat ∧ c.toNat ≤ 55 := h
    refine ⟨c.toNat - 48, ?_⟩
    generalize c.toNat = n at hc hlow hhigh ⊢
    subst hc
    unfold IsDigit
    interval_cases n <;> decide
  · rintro ⟨d, h⟩
    exact h.of_all (P := fun c => isOctal c = true) (by decide)

theorem isDigitIn_eight : isDigitIn 8 = isOctal := by
  funext c
  rw [Bool.eq_iff_iff, isDigitIn_iff, isOctal_iff]

theorem isOctal_ne (h : isOctal c = true) {d : Char} (hd : isOctal d = false) : c ≠ d := by
  rintro rfl
  exact absurd h (by simp [hd])

theorem not_ends_of_isOctal (h : isOctal c = true) : ¬ q.Ends c t := by
  cases q with
  | single | double =>
    rintro (hc | hc | hc) <;> exact isOctal_ne h (by decide) hc
  | back =>
    rintro (hc | ⟨hc, _⟩) <;> exact isOctal_ne h (by decide) hc

/-- Digits stand for themselves. -/
theorem Quotation.digits {us : List Nat} (hu : ∀ c ∈ u, isOctal c = true) (h : Quotation q t us) :
    ∃ vs, Quotation q (u ++ t) vs := by
  induction u with
  | nil => exact ⟨us, h⟩
  | cons c u ih =>
    obtain ⟨hc, hu⟩ := List.forall_mem_cons.mp hu
    obtain ⟨vs, hvs⟩ := ih hu
    exact ⟨_, .plain (isOctal_ne hc (by decide)) (isOctal_ne hc (by decide))
      (not_ends_of_isOctal hc) hvs⟩

theorem octalPart_prefix (t : List Char) : octalPart t <+: octalRun t := by
  rw [octalPart, octalRun, isDigitIn_eight, ← List.take_takeWhile, ← List.take_takeWhile]
  refine List.take_prefix_take_left ?_
  split <;> decide

theorem octalRun_prefix (t : List Char) : octalRun t <+: t :=
  (List.takeWhile_prefix _).trans (List.take_prefix _ _)

theorem isOctal_of_mem_octalRun (h : c ∈ octalRun t) : isOctal c = true := by
  rw [octalRun, isDigitIn_eight] at h
  exact List.mem_takeWhile_imp h

/-- An octal escape in the grammar, and digits behind it that were read along. -/
theorem Leads.of_octal (code : Nat) {part extra behind : List Char}
    (hpart : octalPart (part ++ extra ++ behind) = part) (hne : part ≠ [])
    (hq : q = .back → part ++ extra = ['0']) (hall : ∀ c ∈ part ++ extra, isOctal c = true)
    (hb : Bounded q (part ++ extra ++ behind)) :
    Leads q (part ++ extra ++ behind) ⟨some code, (part ++ extra).length⟩ where
  bounded := by
    rw [List.drop_left]
    exact hb.drop fun c hc => isOctal_ne (hall c hc) (by decide)
  quotation vs hvs := by
    obtain ⟨hpartOctal, hextraOctal⟩ := List.forall_mem_append.mp hall
    rw [List.drop_left] at hvs
    obtain ⟨ws, hws⟩ := hvs.digits hextraOctal
    rw [← isDigitIn_eight] at hpartOctal
    obtain ⟨ds, hds⟩ := exists_forall₂_isDigit hpartOctal
    have hzero : q = .back → part = ['0'] := by
      intro hback
      rcases List.append_eq_singleton_iff.mp (hq hback) with ⟨hnil, _⟩ | ⟨hone, _⟩
      · exact absurd hnil hne
      · exact hone
    have hescaped : Escaped q (part ++ extra ++ behind) [number 8 ds] (extra ++ behind) := by
      have hoctal : Escaped q (part ++ extra ++ behind) [number 8 ds]
          ((part ++ extra ++ behind).drop (octalPart (part ++ extra ++ behind)).length) :=
        .octal (by rwa [hpart]) (by rwa [hpart]) (by rwa [hpart])
      rwa [hpart, List.append_assoc, List.drop_left, ← List.append_assoc] at hoctal
    exact ⟨_, .escape hescaped hws, by simp⟩

theorem octal_leads (code : Nat) (hb : Bounded q ('\\' :: c :: rest)) (hc : isOctal c = true)
    (hq : q = .back → octalRun (c :: rest) = ['0']) :
    Leads q (c :: rest) ⟨some code, (octalRun (c :: rest)).length⟩ := by
  have hne : octalPart (c :: rest) ≠ [] := by
    unfold octalPart
    split <;> simp [hc]
  have hall : ∀ d ∈ octalRun (c :: rest), isOctal d = true := fun _ => isOctal_of_mem_octalRun
  have hbounded : Bounded q (c :: rest) :=
    .plain (isOctal_ne hc (by decide)) (not_ends_of_isOctal hc)
      (hb.behind (isOctal_ne hc (by decide)))
  obtain ⟨extra, hextra⟩ := octalPart_prefix (c :: rest)
  obtain ⟨behind, hbehind⟩ := octalRun_prefix (c :: rest)
  have hsplit : octalPart (c :: rest) ++ extra ++ behind = c :: rest := by rw [hextra, hbehind]
  have hleads := Leads.of_octal code (by rw [hsplit]) hne (by rwa [hextra]) (by rwa [hextra])
    (hsplit.symm ▸ hbounded)
  rwa [hsplit, hextra] at hleads

/-! ### All escapes -/

theorem Leads.continued {n : Nat} (hb : Bounded q (cs.drop n)) (h : Escaped q cs [] (cs.drop n)) :
    Leads q cs ⟨none, n⟩ where
  bounded := hb
  quotation vs hvs := ⟨[] ++ vs, .escape h hvs, by simp⟩

/-- A character that stands for another or for itself. -/
theorem Leads.character {n code : Nat} (hb : Bounded q ('\\' :: c :: rest)) (hc : c ≠ '\r')
    (h : character? q c = some n) : Leads q (c :: rest) ⟨some code, 1⟩ :=
  .of_escaped (hb.behind hc) (.character h) (unitsOf_ne_nil n)

theorem lineBreak_leads (hb : Bounded q ('\\' :: c :: rest)) (hc : isLineBreak c = true)
    (hcr : c ≠ '\r') : Leads q (c :: rest) ⟨none, 1⟩ :=
  .continued (hb.behind hcr) (.lineBreak hc fun h => absurd h hcr)

theorem return_leads (hb : Bounded q ('\\' :: '\r' :: rest)) :
    Leads q ('\r' :: rest) ⟨none, if rest.head? = some '\n' then 2 else 1⟩ := by
  split
  · rename_i hhead
    obtain ⟨behind, rfl⟩ := List.head?_eq_some_iff.mp hhead
    refine .continued ?_ .doubleBreak
    cases hb with
    | plain hslash => exact absurd rfl hslash
    | pair _ hlone => exact absurd rfl (hlone rfl)
    | doubleBreak ht => exact ht
  · rename_i hhead
    refine .continued ?_ (.lineBreak rfl fun _ => hhead)
    cases hb with
    | plain hslash => exact absurd rfl hslash
    | pair _ _ ht => exact ht
    | doubleBreak => exact absurd rfl hhead

theorem escape_control (q : Quote) (strict : Bool) (rest : List Char) {n : Nat}
    (h : (c, n) ∈ controls) :
    escape strict (c :: rest) = some ⟨some n, 1⟩ ∧ character? q c = some n ∧ c ≠ '\r' := by
  simp only [controls, List.mem_cons, Prod.mk.injEq, List.not_mem_nil, or_false] at h
  rcases h with ⟨rfl, rfl⟩ | ⟨rfl, rfl⟩ | ⟨rfl, rfl⟩ | ⟨rfl, rfl⟩ | ⟨rfl, rfl⟩ | ⟨rfl, rfl⟩ <;>
    exact ⟨rfl, rfl, by decide⟩

/-- An escape that stands for no control character. -/
theorem escape_other (strict : Bool) (rest : List Char) (h : ∀ n, (c, n) ∉ controls) :
    controls.lookup c = none ∧ escape strict (c :: rest) =
      if c = 'x' then (hexExactly 2 rest).map fun value => ⟨some value, 3⟩
      else if c = 'u' then (unicodeEscape rest).map fun (value, n) => ⟨some value, n + 1⟩
      else if isDigitIn 8 c then
        if octalRun (c :: rest) = ['0'] then some ⟨some 0, 1⟩
        else if strict then none
        else some ⟨some (valueIn 8 (octalRun (c :: rest))), (octalRun (c :: rest)).length⟩
      else if c = '\r' then some ⟨none, if rest.head? = some '\n' then 2 else 1⟩
      else if isLineBreak c then some ⟨none, 1⟩
      else some ⟨some c.toNat, 1⟩ := by
  have hne : ∀ p ∈ controls, c ≠ p.1 := by
    rintro ⟨d, n⟩ hmem rfl
    exact h n hmem
  refine ⟨List.lookup_eq_none_iff.mpr fun p hp => by simp [hne p hp], ?_⟩
  rw [escape, if_neg (hne ('b', 8) (by decide)), if_neg (hne ('f', 12) (by decide)),
    if_neg (hne ('n', 10) (by decide)), if_neg (hne ('r', 13) (by decide)),
    if_neg (hne ('t', 9) (by decide)), if_neg (hne ('v', 11) (by decide))]

theorem escape_leads {e : Escape} (hb : Bounded q ('\\' :: cs))
    (h : escape (decide (q = .back)) cs = some e) : Leads q cs e := by
  cases cs with
  | nil => cases h
  | cons c rest =>
    by_cases hcontrol : ∃ n, (c, n) ∈ controls
    · obtain ⟨n, hn⟩ := hcontrol
      obtain ⟨hescape, hcharacter, hcr⟩ := escape_control q (decide (q = .back)) rest hn
      cases hescape.symm.trans h
      exact .character hb hcr hcharacter
    obtain ⟨hlookup, hescape⟩ := escape_other (decide (q = .back)) rest (not_exists.mp hcontrol)
    rw [hescape] at h
    by_cases hx : c = 'x'
    · rw [if_pos hx] at h
      subst hx
      obtain ⟨value, hvalue, rfl⟩ := Option.map_eq_some_iff.mp h
      exact hex_leads hb hvalue
    rw [if_neg hx] at h
    by_cases hu : c = 'u'
    · rw [if_pos hu] at h
      subst hu
      obtain ⟨⟨value, n⟩, hvalue, rfl⟩ := Option.map_eq_some_iff.mp h
      exact unicode_leads hb hvalue
    rw [if_neg hu, isDigitIn_eight] at h
    by_cases hoctal : isOctal c = true
    · rw [if_pos hoctal] at h
      split at h
      · rename_i hzero
        cases h
        have hleads := octal_leads 0 hb hoctal fun _ => hzero
        rwa [hzero] at hleads
      · split at h
        · cases h
        · rename_i hstrict
          cases h
          exact octal_leads _ hb hoctal fun hback => absurd (decide_eq_true hback) hstrict
    rw [if_neg hoctal] at h
    by_cases hcr : c = '\r'
    · rw [if_pos hcr] at h
      subst hcr
      cases h
      exact return_leads hb
    rw [if_neg hcr] at h
    by_cases hbreak : isLineBreak c = true
    · rw [if_pos hbreak] at h
      cases h
      exact lineBreak_leads hb hbreak hcr
    rw [if_neg hbreak] at h
    cases h
    have hdigit : ¬ (q = .back ∧ (c = '8' ∨ c = '9')) := by
      rintro ⟨rfl, h8 | h9⟩
      · exact hb.not_digit.1 h8
      · exact hb.not_digit.2 h9
    have hcharacter : character? q c = some c.toNat := by
      unfold character?
      rw [hlookup]
      simp [hx, hu, hoctal, hbreak, hdigit]
    exact .character hb hcr hcharacter

/-! ### Whole texts -/

theorem Quotation.unescaped {us : List Nat} (h : Quotation q (c :: t) us) (hc : c ≠ '\\')
    (hcr : c ≠ '\r') : ∃ vs, Quotation q t vs := by
  cases h with
  | plain _ _ _ ht => exact ⟨_, ht⟩
  | escape => exact absurd rfl hc
  | lineBreak | doubleBreak => exact absurd rfl hcr

/-- A character that is no backslash gives some unit. -/
theorem Quotation.bounded {us : List Nat} (hc : c ≠ '\\') (hends : ¬ q.Ends c t)
    (h : Quotation q t us) : ∃ vs, Quotation q (c :: t) vs ∧ vs ≠ [] := by
  by_cases hcr : c = '\r'
  · subst hcr
    have hq : q = .back := by
      cases q with
      | back => rfl
      | single | double => exact absurd (.inr (.inr rfl)) hends
    by_cases hhead : t.head? = some '\n'
    · obtain ⟨rest, rfl⟩ := List.head?_eq_some_iff.mp hhead
      obtain ⟨vs, hvs⟩ := h.unescaped (by decide) (by decide)
      exact ⟨_, .doubleBreak hq hvs, List.cons_ne_nil _ _⟩
    · exact ⟨_, .lineBreak hq hhead h, List.cons_ne_nil _ _⟩
  · exact ⟨_, .plain hc hcr hends h, List.append_ne_nil_of_left_ne_nil (unitsOf_ne_nil _) _⟩

/-- Text that is read as quoted has a value, which is empty if no units are read. -/
theorem cook_sound {units : List Nat} (hb : Bounded q t)
    (h : cook (decide (q = .back)) t = some units) :
    ∃ us, Quotation q t us ∧ (us = [] ↔ units = []) := by
  fun_induction cook (decide (q = .back)) t generalizing units with
  | case1 =>
    cases h
    exact ⟨[], .nil, by simp⟩
  | case2 => cases h
  | case3 rest e hescape ih =>
    obtain ⟨more, hmore, rfl⟩ := Option.map_eq_some_iff.mp h
    obtain ⟨hbounded, hquotation⟩ := escape_leads hb hescape
    obtain ⟨vs, hvs, hempty⟩ := ih hbounded hmore
    obtain ⟨us, hus, hnil⟩ := hquotation vs hvs
    refine ⟨us, hus, hnil.trans ?_⟩
    rw [List.append_eq_nil_iff, hempty]
    cases e.code with
    | none => simp
    | some code => simp [unitsOf_ne_nil]
  | case4 c rest hc ih =>
    obtain ⟨more, hmore, rfl⟩ := Option.map_eq_some_iff.mp h
    cases hb with
    | plain hslash hends hrest =>
      obtain ⟨us, hus, -⟩ := ih hrest hmore
      obtain ⟨vs, hvs, hne⟩ := hus.bounded hslash hends
      exact ⟨vs, hvs, by simp [hne, unitsOf_ne_nil]⟩
    | pair | doubleBreak => exact absurd rfl hc

end TaintReach.Script.Literal
