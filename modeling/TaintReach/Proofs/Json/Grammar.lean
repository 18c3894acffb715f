import Mathlib.Data.List.TakeWhile
import TaintReach.Proofs.Json.Spelling

/-! What the reader reads, by a grammar.

The grammar says of two texts that the first is the second with a value before it. It
knows all ways to write a value: blanks around every mark, strings with any escapes,
numbers with fraction and exponent. The reader finds what the grammar allows and nothing
else (`valueWithin_sound`, `value_complete`). A number ends where no digit, point or
exponent follows, so behind a value that stands in the open such a sign must not come
(`Stops`); inside of brackets none can. -/
namespace TaintReach

namespace Json

open Reader (isBlank skip)

/-! ### The grammar -/

/-- Behind some blanks the text goes on with `rest`. -/
def Gap (t rest : List Char) : Prop := ∃ b, Blanks b ∧ t = b ++ rest

/-- The rest of a string, its closing quote included, stands for some units. -/
inductive Chars : List Char → List Nat → List Char → Prop
  | close (rest : List Char) : Chars ('"' :: rest) [] rest
  | plain {c : Char} {t rest : List Char} {us : List Nat} (hquote : c ≠ '"') (hslash : c ≠ '\\')
    (hcode : 0x20 ≤ c.toNat) (h : Chars t us rest) :
    Chars (c :: t) (Text.unitsOf c.toNat ++ us) rest
  | short {c e : Char} {t rest : List Char} {us : List Nat} (hc : Reader.shortEscape? c = some e)
    (h : Chars t us rest) : Chars ('\\' :: c :: t) (e.toNat :: us) rest
  | unit {a b c d : Char} {t rest : List Char} {u : Nat} {us : List Nat}
    (hu : Reader.unit? a b c d = some u) (h : Chars t us rest) :
    Chars ('\\' :: 'u' :: a :: b :: c :: d :: t) (u :: us) rest

/-- At least one digit. -/
def Digits (t : List Char) : Prop := t ≠ [] ∧ ∀ c ∈ t, c.isDigit = true

/-- A whole number has no zero in front. -/
def Whole (t : List Char) : Prop := t = ['0'] ∨ Digits t ∧ t.head? ≠ some '0'

def Fraction (t : List Char) : Prop := t = [] ∨ ∃ ds, Digits ds ∧ t = '.' :: ds

def Exponent (t : List Char) : Prop :=
  t = [] ∨ ∃ e s ds, (e = 'e' ∨ e = 'E') ∧ (s = [] ∨ s = ['+'] ∨ s = ['-']) ∧ Digits ds ∧
    t = e :: (s ++ ds)

def Numeral (t : List Char) : Prop :=
  ∃ sign whole fraction exponent, (sign = [] ∨ sign = ['-']) ∧ Whole whole ∧ Fraction fraction ∧
    Exponent exponent ∧ t = sign ++ whole ++ fraction ++ exponent

mutual

/-- The text is a value below `depth` containers, and then `rest`. -/
inductive Value : Nat → List Char → Json → List Char → Prop
  | null (depth : Nat) (rest : List Char) : Value depth (word "null" ++ rest) .null rest
  | bool (depth : Nat) (b : Bool) (rest : List Char) :
    Value depth (word (if b then "true" else "false") ++ rest) (.bool b) rest
  | number (depth : Nat) {n : List Char} (hn : Numeral n) (rest : List Char) :
    Value depth (n ++ rest) (.number (String.ofList n)) rest
  | string (depth : Nat) {t rest : List Char} {us : List Nat} (h : Chars t us rest) :
    Value depth ('"' :: t) (.string (String.ofList (Text.ofUnits us))) rest
  | emptyArray {depth : Nat} {t rest : List Char} (hdepth : depth < Reader.maxDepth)
    (h : Gap t (']' :: rest)) : Value depth ('[' :: t) (.array []) rest
  | array {depth : Nat} {t rest : List Char} {vs : List Json} (hdepth : depth < Reader.maxDepth)
    (h : Items (depth + 1) t vs rest) : Value depth ('[' :: t) (.array vs) rest
  | emptyObject {depth : Nat} {t rest : List Char} (hdepth : depth < Reader.maxDepth)
    (h : Gap t ('\x7d' :: rest)) : Value depth ('\x7b' :: t) (.object []) rest
  | object {depth : Nat} {t rest : List Char} {ms : List (String × Json)}
    (hdepth : depth < Reader.maxDepth) (h : Members (depth + 1) t ms rest) :
    Value depth ('\x7b' :: t) (.object ms) rest

/-- At least one value, and the bracket that closes the array. -/
inductive Items : Nat → List Char → List Json → List Char → Prop
  | last {depth : Nat} {t t₁ t₂ rest : List Char} {v : Json} (hgap : Gap t t₁)
    (hv : Value depth t₁ v t₂) (hend : Gap t₂ (']' :: rest)) : Items depth t [v] rest
  | more {depth : Nat} {t t₁ t₂ t₃ rest : List Char} {v : Json} {vs : List Json} (hgap : Gap t t₁)
    (hv : Value depth t₁ v t₂) (hcomma : Gap t₂ (',' :: t₃)) (hvs : Items depth t₃ vs rest) :
    Items depth t (v :: vs) rest

/-- At least one member, and the brace that closes the object. -/
inductive Members : Nat → List Char → List (String × Json) → List Char → Prop
  | last {depth : Nat} {t t₁ t₂ t₃ t₄ t₅ rest : List Char} {us : List Nat} {v : Json}
    (hname : Gap t ('"' :: t₁)) (hus : Chars t₁ us t₂) (hcolon : Gap t₂ (':' :: t₃))
    (hgap : Gap t₃ t₄) (hv : Value depth t₄ v t₅) (hend : Gap t₅ ('\x7d' :: rest)) :
    Members depth t [(String.ofList (Text.ofUnits us), v)] rest
  | more {depth : Nat} {t t₁ t₂ t₃ t₄ t₅ t₆ rest : List Char} {us : List Nat} {v : Json}
    {ms : List (String × Json)} (hname : Gap t ('"' :: t₁)) (hus : Chars t₁ us t₂)
    (hcolon : Gap t₂ (':' :: t₃)) (hgap : Gap t₃ t₄) (hv : Value depth t₄ v t₅)
    (hcomma : Gap t₅ (',' :: t₆)) (hms : Members depth t₆ ms rest) :
    Members depth t ((String.ofList (Text.ofUnits us), v) :: ms) rest

end

/-! ### Blanks -/

theorem gap_skip (cs : List Char) : Gap cs (skip cs) :=
  ⟨cs.takeWhile isBlank, fun _ hc => List.mem_takeWhile_imp hc,
    List.takeWhile_append_dropWhile.symm⟩

/-- Blanks lead to the sign that is not one. -/
theorem Gap.skip_eq {t rest : List Char} {c : Char} (h : Gap t (c :: rest))
    (hc : isBlank c = false) : skip t = c :: rest := by
  obtain ⟨b, hb, rfl⟩ := h
  rw [Reader.skip_blanks hb, Reader.skip_mark hc]

/-- Where blanks end, a gap ends. -/
theorem gap_of_skip {t rest : List Char} {c : Char} (h : skip t = c :: rest) : Gap t (c :: rest) :=
  h ▸ gap_skip t

theorem Gap.trans {t u v : List Char} (h : Gap t u) (k : Gap u v) : Gap t v := by
  obtain ⟨a, ha, rfl⟩ := h
  obtain ⟨b, hb, rfl⟩ := k
  refine ⟨a ++ b, fun c hc => ?_, (List.append_assoc ..).symm⟩
  rcases List.mem_append.mp hc with hc | hc
  · exact ha c hc
  · exact hb c hc

theorem Gap.length_le {t rest : List Char} (h : Gap t rest) : rest.length ≤ t.length := by
  obtain ⟨b, _, rfl⟩ := h
  rw [List.length_append]
  omega

/-- Blanks in front of the first value are part of no value. -/
theorem Items.of_gap {depth : Nat} {t t' rest : List Char} {vs : List Json} (hgap : Gap t t')
    (h : Items depth t' vs rest) : Items depth t vs rest := by
  cases h with
  | last hgap' hv hend => exact .last (hgap.trans hgap') hv hend
  | more hgap' hv hcomma hvs => exact .more (hgap.trans hgap') hv hcomma hvs

theorem Members.of_gap {depth : Nat} {t t' rest : List Char} {ms : List (String × Json)}
    (hgap : Gap t t') (h : Members depth t' ms rest) : Members depth t ms rest := by
  cases h with
  | last hname hus hcolon hgap' hv hend => exact .last (hgap.trans hname) hus hcolon hgap' hv hend
  | more hname hus hcolon hgap' hv hcomma hms =>
    exact .more (hgap.trans hname) hus hcolon hgap' hv hcomma hms

namespace Reader

theorem map_eq_ok {α β : Type} {x : Except Problem α} {f : α → β} {b : β} (h : x.map f = .ok b) :
    ∃ a, x = .ok a ∧ f a = b := by
  cases x with
  | error e => cases h
  | ok a => exact ⟨a, rfl, Except.ok.inj h⟩

theorem bind_eq_ok {α β : Type} {x : Except Problem α} {f : α → Except Problem β} {b : β}
    (h : x >>= f = .ok b) : ∃ a, x = .ok a ∧ f a = .ok b := by
  cases x with
  | error e => cases h
  | ok a => exact ⟨a, rfl, h⟩

/-! ### Strings -/

/-- The recursion of the reader has a case for each way to spell a unit, and the grammar has
the same. -/
theorem stringUnits_sound {cs rest : List Char} {us : List Nat}
    (h : stringUnits cs = .ok (us, rest)) : Chars cs us rest := by
  fun_induction stringUnits cs generalizing us with
  | case2 tail =>
    cases h
    exact .close rest
  | case3 a b c d tail u hu ih =>
    obtain ⟨⟨us', _⟩, htail, heq⟩ := map_eq_ok h
    cases heq
    exact .unit hu (ih htail)
  | case6 c tail _ _ e he ih =>
    obtain ⟨⟨us', _⟩, htail, heq⟩ := map_eq_ok h
    cases heq
    exact .short he (ih htail)
  | case10 c tail hquote _ _ _ hslash hcode ih =>
    obtain ⟨⟨us', _⟩, htail, heq⟩ := map_eq_ok h
    cases heq
    exact .plain hquote hslash (Nat.le_of_not_lt hcode) (ih htail)
  | _ => cases h

theorem stringUnits_short {c e : Char} (hc : shortEscape? c = some e) (rest : List Char) :
    stringUnits ('\\' :: c :: rest) =
      (stringUnits rest).map fun (us, rest) => (e.toNat :: us, rest) := by
  have hu : c ≠ 'u' := by
    rintro rfl
    cases hc
  rw [stringUnits.eq_def]
  split
  · contradiction
  · rename_i heq
    cases heq
  · rename_i heq
    exact absurd (List.cons.inj (List.cons.inj heq).2).1 hu
  · rename_i heq
    exact absurd (List.cons.inj (List.cons.inj heq).2).1 hu
  · rename_i heq
    cases heq
    rw [hc]
  · rename_i hother heq
    cases heq
    exact (hother c rest rfl rfl).elim

/-- The way a unit is spelled determines how it is read, so each case can be read off. -/
theorem stringUnits_complete {t rest : List Char} {us : List Nat} (h : Chars t us rest) :
    stringUnits t = .ok (us, rest) ∧ rest.length < t.length := by
  induction h with
  | close rest => exact ⟨rfl, Nat.lt_succ_self _⟩
  | plain hquote hslash hcode _ ih =>
    rw [stringUnits_plain hquote hslash (Nat.not_lt.mpr hcode), ih.1]
    exact ⟨rfl, Nat.lt_succ_of_lt ih.2⟩
  | short hc _ ih =>
    rw [stringUnits_short hc, ih.1]
    refine ⟨rfl, ?_⟩
    simp only [List.length_cons]
    omega
  | unit hu _ ih =>
    simp only [stringUnits, hu, ih.1, List.length_cons]
    exact ⟨rfl, by omega⟩

theorem string_sound {cs rest : List Char} {s : String} (h : string cs = .ok (s, rest)) :
    ∃ us, Chars cs us rest ∧ s = String.ofList (Text.ofUnits us) := by
  obtain ⟨⟨us, _⟩, hus, heq⟩ := map_eq_ok h
  cases heq
  exact ⟨us, stringUnits_sound hus, rfl⟩

theorem string_complete {t rest : List Char} {us : List Nat} (h : Chars t us rest) :
    string t = .ok (String.ofList (Text.ofUnits us), rest) := by
  unfold string
  rw [(stringUnits_complete h).1]
  rfl

/-! ### Numbers -/

/-- No digit follows. -/
def EndsDigits (t : List Char) : Prop := ∀ c, t.head? = some c → c.isDigit = false

/-- Nothing follows that would go on with a number. -/
def Stops (t : List Char) : Prop :=
  ∀ c, t.head? = some c → c.isDigit = false ∧ c ≠ '.' ∧ c ≠ 'e' ∧ c ≠ 'E'

theorem digits1_sound {place : Place} {cs ds rest : List Char}
    (h : digits1 place cs = .ok (ds, rest)) : Digits ds ∧ cs = ds ++ rest := by
  unfold digits1 at h
  simp only at h
  split at h
  · cases h
  · rename_i hne
    cases h
    refine ⟨⟨fun hnil => hne (by simp [hnil]), fun c hc => List.mem_takeWhile_imp hc⟩, ?_⟩
    exact (List.prefix_iff_eq_append.mp (List.takeWhile_prefix _)).symm

/-- Digits are taken as long as there are any, so none may follow. -/
theorem digits1_complete {ds rest : List Char} (place : Place) (h : Digits ds)
    (hrest : EndsDigits rest) : digits1 place (ds ++ rest) = .ok (ds, rest) := by
  have hrun : (ds ++ rest).takeWhile Char.isDigit = ds := by
    rw [List.takeWhile_append_of_pos h.2]
    cases rest with
    | nil => simp
    | cons c rest => simp [hrest c rfl]
  unfold digits1
  simp only [hrun, List.isEmpty_iff, h.1, if_false, List.drop_left']

theorem wholePart_sound {place : Place} {cs w rest : List Char}
    (h : wholePart place cs = .ok (w, rest)) : Whole w ∧ cs = w ++ rest := by
  unfold wholePart at h
  split at h
  · cases h
    exact ⟨Or.inl rfl, rfl⟩
  · rename_i hzero
    obtain ⟨hdigits, rfl⟩ := digits1_sound h
    refine ⟨Or.inr ⟨hdigits, fun hhead => ?_⟩, rfl⟩
    cases w with
    | nil => cases hhead
    | cons c w =>
      cases hhead
      exact hzero (w ++ rest) rfl

/-- After a zero the whole part ends, whatever follows. -/
theorem wholePart_complete {w rest : List Char} (place : Place) (h : Whole w)
    (hrest : EndsDigits rest) : wholePart place (w ++ rest) = .ok (w, rest) := by
  rcases h with rfl | ⟨hdigits, hhead⟩
  · rfl
  · unfold wholePart
    split
    · rename_i heq
      cases w with
      | nil => exact absurd rfl hdigits.1
      | cons c w =>
        cases heq
        exact absurd rfl hhead
    · exact digits1_complete place hdigits hrest

theorem fractionPart_sound {cs f rest : List Char} (h : fractionPart cs = .ok (f, rest)) :
    Fraction f ∧ cs = f ++ rest := by
  unfold fractionPart at h
  split at h
  · obtain ⟨⟨ds, _⟩, hds, heq⟩ := map_eq_ok h
    cases heq
    obtain ⟨hdigits, rfl⟩ := digits1_sound hds
    exact ⟨Or.inr ⟨ds, hdigits, rfl⟩, rfl⟩
  · cases h
    exact ⟨Or.inl rfl, rfl⟩

theorem fractionPart_complete {f rest : List Char} (h : Fraction f) (hrest : EndsDigits rest)
    (hpoint : rest.head? ≠ some '.') : fractionPart (f ++ rest) = .ok (f, rest) := by
  rcases h with rfl | ⟨ds, hds, rfl⟩
  · rw [List.nil_append]
    unfold fractionPart
    split
    · exact absurd rfl hpoint
    · rfl
  · simp only [List.cons_append, fractionPart, digits1_complete .fraction hds hrest]
    rfl

theorem exponentPart_sound {cs e rest : List Char} (h : exponentPart cs = .ok (e, rest)) :
    Exponent e ∧ cs = e ++ rest := by
  unfold exponentPart at h
  split at h
  · rename_i m tail
    split at h
    · rename_i hmark
      have hmark : m = 'e' ∨ m = 'E' := by simpa using hmark
      split at h
      · rename_i s after
        split at h
        · rename_i hsign
          have hsign : s = '+' ∨ s = '-' := by simpa using hsign
          obtain ⟨⟨ds, _⟩, hds, heq⟩ := map_eq_ok h
          cases heq
          obtain ⟨hdigits, rfl⟩ := digits1_sound hds
          refine ⟨Or.inr ⟨m, [s], ds, hmark, Or.inr ?_, hdigits, rfl⟩, rfl⟩
          rcases hsign with rfl | rfl
          · exact Or.inl rfl
          · exact Or.inr rfl
        · obtain ⟨⟨ds, _⟩, hds, heq⟩ := map_eq_ok h
          cases heq
          obtain ⟨hdigits, heq⟩ := digits1_sound hds
          rw [heq]
          exact ⟨Or.inr ⟨m, [], ds, hmark, Or.inl rfl, hdigits, rfl⟩, rfl⟩
      · cases h
    · cases h
      exact ⟨Or.inl rfl, rfl⟩
  · cases h
    exact ⟨Or.inl rfl, rfl⟩

/-- Without an exponent, what follows must not look like the beginning of one. -/
theorem exponentPart_complete {e rest : List Char} (h : Exponent e) (hrest : Stops rest) :
    exponentPart (e ++ rest) = .ok (e, rest) := by
  have hends : EndsDigits rest := fun c hc => (hrest c hc).1
  rcases h with rfl | ⟨m, s, ds, hmark, hsign, hds, rfl⟩
  · cases rest with
    | nil => rfl
    | cons c rest =>
      obtain ⟨_, _, he, hE⟩ := hrest c rfl
      simp [exponentPart, he, hE]
  · have hmark' : (m = 'e' || m = 'E') = true := by simpa using hmark
    have hread := digits1_complete .exponent hds hends
    rcases hsign with rfl | hsign
    · -- the first digit is not a sign
      obtain ⟨d, ds, rfl⟩ := List.exists_cons_of_ne_nil hds.1
      have hdigit := hds.2 d List.mem_cons_self
      have hplain : ¬ (d = '+' ∨ d = '-') := by
        rintro (rfl | rfl) <;> cases hdigit
      simp only [List.nil_append, List.cons_append] at hread ⊢
      simp [exponentPart, hmark', hplain, hread, Except.map]
    · have hsigned : ∃ c, s = [c] ∧ (c = '+' || c = '-') = true := by
        rcases hsign with rfl | rfl
        · exact ⟨'+', rfl, rfl⟩
        · exact ⟨'-', rfl, rfl⟩
      obtain ⟨c, rfl, hc⟩ := hsigned
      simp only [List.cons_append, List.nil_append, exponentPart, hmark', hc, if_true, hread]
      rfl

theorem number_sound {cs rest : List Char} {n : String} (h : number cs = .ok (n, rest)) :
    ∃ t, Numeral t ∧ n = String.ofList t ∧ cs = t ++ rest := by
  unfold number at h
  split at h
  rename_i sign place after hsign
  have hsigned : (sign = [] ∨ sign = ['-']) ∧ cs = sign ++ after := by
    split at hsign
    · cases hsign
      exact ⟨Or.inr rfl, rfl⟩
    · cases hsign
      exact ⟨Or.inl rfl, rfl⟩
  obtain ⟨hminus, rfl⟩ := hsigned
  obtain ⟨⟨w, _⟩, hw, h⟩ := bind_eq_ok h
  obtain ⟨⟨f, _⟩, hf, h⟩ := bind_eq_ok h
  obtain ⟨⟨e, _⟩, he, h⟩ := bind_eq_ok h
  cases h
  obtain ⟨hwhole, rfl⟩ := wholePart_sound hw
  obtain ⟨hfraction, rfl⟩ := fractionPart_sound hf
  obtain ⟨hexponent, rfl⟩ := exponentPart_sound he
  exact ⟨_, ⟨sign, w, f, e, hminus, hwhole, hfraction, hexponent, rfl⟩, rfl, by simp⟩

/-- What follows a whole number or a fraction. -/
theorem Stops.exponent {e rest : List Char} (h : Exponent e) (hrest : Stops rest) :
    EndsDigits (e ++ rest) ∧ (e ++ rest).head? ≠ some '.' := by
  rcases h with rfl | ⟨m, s, ds, hmark, _, _, rfl⟩
  · exact ⟨fun c hc => (hrest c hc).1, fun hpoint => (hrest _ hpoint).2.1 rfl⟩
  · rcases hmark with rfl | rfl
    · exact ⟨fun c hc => by cases hc; rfl, by simp⟩
    · exact ⟨fun c hc => by cases hc; rfl, by simp⟩

theorem EndsDigits.fraction {f rest : List Char} (h : Fraction f) (hrest : EndsDigits rest) :
    EndsDigits (f ++ rest) := by
  rcases h with rfl | ⟨ds, _, rfl⟩
  · exact hrest
  · exact fun c hc => by cases hc; rfl

theorem Whole.head {w : List Char} (h : Whole w) : ∃ d ds, w = d :: ds ∧ d.isDigit = true := by
  rcases h with rfl | ⟨⟨hne, hdigits⟩, _⟩
  · exact ⟨'0', [], rfl, rfl⟩
  · obtain ⟨d, ds, rfl⟩ := List.exists_cons_of_ne_nil hne
    exact ⟨d, ds, rfl, hdigits d List.mem_cons_self⟩

/-- Each part ends where the next begins, and the last where the text stops being a number. -/
theorem number_complete {t rest : List Char} (h : Numeral t) (hrest : Stops rest) :
    number (t ++ rest) = .ok (String.ofList t, rest) := by
  obtain ⟨sign, w, f, e, hsign, hw, hf, he, rfl⟩ := h
  obtain ⟨hends, hpoint⟩ := hrest.exponent he
  have hread : ∀ place, wholePart place (w ++ (f ++ (e ++ rest))) = .ok (w, f ++ (e ++ rest)) :=
    fun place => wholePart_complete place hw (hends.fraction hf)
  have hfraction := fractionPart_complete hf hends hpoint
  have hexponent := exponentPart_complete he hrest
  rw [List.append_assoc, List.append_assoc, List.append_assoc]
  unfold number
  split
  rename_i sign' place after heq
  -- the sign that is found is the one that was written
  have hsame : sign' = sign ∧ after = w ++ (f ++ (e ++ rest)) := by
    rcases hsign with rfl | rfl
    · split at heq
      · rename_i hminus
        obtain ⟨d, ds, rfl, hd⟩ := Whole.head hw
        cases hminus
        cases hd
      · cases heq
        exact ⟨rfl, rfl⟩
    · cases heq
      exact ⟨rfl, rfl⟩
  obtain ⟨rfl, rfl⟩ := hsame
  rw [hread]
  simp only [bind, Except.bind, hfraction, hexponent, pure, Except.pure]

/-! ### Values -/

theorem behindWord_sound {word : String} {ws cs rest : List Char}
    (h : behindWord word ws cs = .ok rest) : cs = ws ++ rest := by
  induction ws generalizing cs with
  | nil =>
    cases h
    rfl
  | cons w ws ih =>
    unfold behindWord at h
    split at h
    · rename_i hhead
      cases cs with
      | nil => cases hhead
      | cons c cs =>
        cases hhead
        exact congrArg (w :: ·) (ih h)
    · cases h

/-- Blanks in front of a value are skipped. -/
theorem valueWithin_gap {steps depth : Nat} {t t' : List Char} (h : Gap t t') :
    valueWithin steps depth t = valueWithin steps depth t' := by
  obtain ⟨b, hb, rfl⟩ := h
  exact valueWithin_blanks hb steps depth t'

/-- What so many steps read is by the grammar. -/
structure SoundWithin (steps : Nat) : Prop where
  value : ∀ {depth : Nat} {cs rest : List Char} {v : Json},
    valueWithin steps depth cs = .ok (v, rest) → ∃ t, Gap cs t ∧ Value depth t v rest
  items : ∀ {depth : Nat} {cs rest : List Char} {vs : List Json},
    itemsWithin steps depth cs = .ok (vs, rest) → Items depth cs vs rest
  members : ∀ {depth : Nat} {cs rest : List Char} {ms : List (String × Json)},
    membersWithin steps depth cs = .ok (ms, rest) → Members depth cs ms rest

section
variable {n depth : Nat} {cs rest : List Char} {v : Json}

theorem string_value_sound (h : valueWithin (n + 1) depth ('"' :: cs) = .ok (v, rest)) :
    Value depth ('"' :: cs) v rest := by
  unfold valueWithin at h
  rw [skip_mark (by decide)] at h
  obtain ⟨⟨s, _⟩, hs, heq⟩ := map_eq_ok h
  cases heq
  obtain ⟨us, hus, rfl⟩ := string_sound hs
  exact .string depth hus

theorem word_value_sound {word : String} {ws : List Char} {u : Json}
    (h : (behindWord word ws cs).map (u, ·) = .ok (v, rest)) : v = u ∧ cs = ws ++ rest := by
  obtain ⟨_, hword, heq⟩ := map_eq_ok h
  cases heq
  exact ⟨rfl, behindWord_sound hword⟩

/-- The items of an array are read one container further down. -/
theorem array_value_sound (ih : SoundWithin n)
    (h : valueWithin (n + 1) depth ('[' :: cs) = .ok (v, rest)) :
    Value depth ('[' :: cs) v rest := by
  unfold valueWithin at h
  rw [skip_mark (by decide)] at h
  simp only at h
  split at h
  · rename_i hdepth
    split at h
    · rename_i hclose
      cases h
      exact .emptyArray hdepth (gap_of_skip hclose)
    · obtain ⟨⟨vs, _⟩, hvs, heq⟩ := map_eq_ok h
      cases heq
      exact .array hdepth ((ih.items hvs).of_gap (gap_skip _))
  · cases h

/-- So are the members of an object. -/
theorem object_value_sound (ih : SoundWithin n)
    (h : valueWithin (n + 1) depth ('\x7b' :: cs) = .ok (v, rest)) :
    Value depth ('\x7b' :: cs) v rest := by
  unfold valueWithin at h
  rw [skip_mark (by decide)] at h
  simp only at h
  split at h
  · rename_i hdepth
    split at h
    · rename_i hclose
      cases h
      exact .emptyObject hdepth (gap_of_skip hclose)
    · obtain ⟨⟨ms, _⟩, hms, heq⟩ := map_eq_ok h
      cases heq
      exact .object hdepth ((ih.members hms).of_gap (gap_skip _))
  · cases h

theorem number_value_sound
    (h : (number cs).map (fun (n, rest) => (Json.number n, rest)) = .ok (v, rest)) :
    Value depth cs v rest := by
  obtain ⟨⟨n, _⟩, hn, heq⟩ := map_eq_ok h
  cases heq
  obtain ⟨t, ht, rfl, rfl⟩ := number_sound hn
  exact .number depth ht rest

/-- The first sign behind the blanks tells the form of a value. -/
theorem value_sound_step (ih : SoundWithin n)
    (h : valueWithin (n + 1) depth cs = .ok (v, rest)) : ∃ t, Gap cs t ∧ Value depth t v rest := by
  refine ⟨skip cs, gap_skip cs, ?_⟩
  rw [← valueWithin_skip] at h
  have hform := h
  unfold valueWithin at hform
  rw [skip_skip] at hform
  split at hform
  · rename_i tail heq
    rw [heq] at h ⊢
    exact string_value_sound h
  · rename_i tail heq
    obtain ⟨rfl, rfl⟩ := word_value_sound hform
    rw [heq]
    exact .bool depth true rest
  · rename_i tail heq
    obtain ⟨rfl, rfl⟩ := word_value_sound hform
    rw [heq]
    exact .bool depth false rest
  · rename_i tail heq
    obtain ⟨rfl, rfl⟩ := word_value_sound hform
    rw [heq]
    exact .null depth rest
  · rename_i tail heq
    rw [heq] at h ⊢
    exact array_value_sound ih h
  · rename_i tail heq
    rw [heq] at h ⊢
    exact object_value_sound ih h
  · exact number_value_sound hform

theorem items_sound_step (ih : SoundWithin n) {vs : List Json}
    (h : itemsWithin (n + 1) depth cs = .ok (vs, rest)) : Items depth cs vs rest := by
  unfold itemsWithin at h
  split at h
  · cases h
  · rename_i v after hv
    obtain ⟨t, hgap, hv⟩ := ih.value hv
    split at h
    · rename_i hclose
      cases h
      exact .last hgap hv (gap_of_skip hclose)
    · rename_i hcomma
      obtain ⟨⟨vs, _⟩, hvs, heq⟩ := map_eq_ok h
      cases heq
      exact .more hgap hv (gap_of_skip hcomma) (ih.items hvs)
    · cases h

theorem members_sound_step (ih : SoundWithin n) {ms : List (String × Json)}
    (h : membersWithin (n + 1) depth cs = .ok (ms, rest)) : Members depth cs ms rest := by
  unfold membersWithin at h
  split at h
  · rename_i hname
    split at h
    · cases h
    · rename_i k after hk
      obtain ⟨us, hus, rfl⟩ := string_sound hk
      split at h
      · rename_i hcolon
        split at h
        · cases h
        · rename_i v behind hv
          obtain ⟨t, hgap, hv⟩ := ih.value hv
          split at h
          · rename_i hclose
            cases h
            exact .last (gap_of_skip hname) hus (gap_of_skip hcolon) hgap hv (gap_of_skip hclose)
          · rename_i hcomma
            obtain ⟨⟨ms, _⟩, hms, heq⟩ := map_eq_ok h
            cases heq
            exact .more (gap_of_skip hname) hus (gap_of_skip hcolon) hgap hv
              (gap_of_skip hcomma) (ih.members hms)
          · cases h
      · cases h
  · cases h

end

theorem within_sound (steps : Nat) : SoundWithin steps := by
  induction steps with
  | zero =>
    refine ⟨fun h => ?_, fun h => ?_, fun h => ?_⟩
    · simp [valueWithin] at h
    · simp [itemsWithin] at h
    · simp [membersWithin] at h
  | succ n ih => exact ⟨value_sound_step ih, items_sound_step ih, members_sound_step ih⟩

/-- **What is read is a value by the grammar.** -/
theorem valueWithin_sound {steps depth : Nat} {cs rest : List Char} {v : Json}
    (h : valueWithin steps depth cs = .ok (v, rest)) : ∃ t, Gap cs t ∧ Value depth t v rest :=
  (within_sound steps).value h

theorem Numeral.head {t : List Char} (h : Numeral t) :
    ∃ c cs, t = c :: cs ∧ (c = '-' ∨ c.isDigit = true) := by
  obtain ⟨sign, w, f, e, rfl | rfl, hw, _, _, rfl⟩ := h
  · obtain ⟨d, ds, rfl, hd⟩ := Whole.head hw
    exact ⟨d, _, rfl, Or.inr hd⟩
  · exact ⟨'-', _, rfl, Or.inl rfl⟩

theorem not_blank_of_number {c : Char} (h : c = '-' ∨ c.isDigit = true) : isBlank c = false := by
  rcases h with rfl | hdigit
  · rfl
  · by_contra hblank
    simp only [isBlank, Bool.not_eq_false, Bool.or_eq_true, decide_eq_true_eq] at hblank
    rcases hblank with ((rfl | rfl) | rfl) | rfl <;> cases hdigit

/-- A value starts with a sign that is no blank and closes nothing. -/
theorem Value.head {depth : Nat} {t rest : List Char} {v : Json} (h : Value depth t v rest) :
    ∃ c cs, t = c :: cs ∧ isBlank c = false ∧ c ≠ ']' ∧ c ≠ '\x7d' := by
  cases h with
  | null => exact ⟨'n', _, rfl, rfl, by decide, by decide⟩
  | bool _ b =>
    cases b with
    | false => exact ⟨'f', _, rfl, rfl, by decide, by decide⟩
    | true => exact ⟨'t', _, rfl, rfl, by decide, by decide⟩
  | number _ hn =>
    obtain ⟨c, cs, rfl, hc⟩ := Numeral.head hn
    refine ⟨c, _, rfl, not_blank_of_number hc, ?_, ?_⟩
    · rintro rfl
      rcases hc with hc | hc <;> cases hc
    · rintro rfl
      rcases hc with hc | hc <;> cases hc
  | string => exact ⟨'"', _, rfl, rfl, by decide, by decide⟩
  | emptyArray => exact ⟨'[', _, rfl, rfl, by decide, by decide⟩
  | array => exact ⟨'[', _, rfl, rfl, by decide, by decide⟩
  | emptyObject => exact ⟨'\x7b', _, rfl, rfl, by decide, by decide⟩
  | object => exact ⟨'\x7b', _, rfl, rfl, by decide, by decide⟩

/-- A sign or digit matches none of the other forms. -/
theorem valueWithin_number {n depth : Nat} {c : Char} {cs : List Char}
    (hc : c = '-' ∨ c.isDigit = true) :
    valueWithin (n + 1) depth (c :: cs) =
      (number (c :: cs)).map fun (n, rest) => (.number n, rest) := by
  have hne : ∀ m : Char, m ≠ '-' → m.isDigit = false → c ≠ m := by
    rintro m hminus hdigit rfl
    rcases hc with hc | hc
    · exact hminus hc
    · rw [hdigit] at hc
      cases hc
  unfold valueWithin
  rw [skip_mark (not_blank_of_number hc)]
  split
  · rename_i heq
    exact absurd (List.cons.inj heq).1 (hne _ (by decide) rfl)
  · rename_i heq
    exact absurd (List.cons.inj heq).1 (hne _ (by decide) rfl)
  · rename_i heq
    exact absurd (List.cons.inj heq).1 (hne _ (by decide) rfl)
  · rename_i heq
    exact absurd (List.cons.inj heq).1 (hne _ (by decide) rfl)
  · rename_i heq
    exact absurd (List.cons.inj heq).1 (hne _ (by decide) rfl)
  · rename_i heq
    exact absurd (List.cons.inj heq).1 (hne _ (by decide) rfl)
  · rfl

/-- A mark between values ends a number. -/
theorem Gap.stops {t rest : List Char} {c : Char} (h : Gap t (c :: rest))
    (hc : c = ',' ∨ c = ']' ∨ c = '\x7d') : Stops t := by
  obtain ⟨b, hb, rfl⟩ := h
  have hmark : ∀ m : Char, (m = ',' ∨ m = ']' ∨ m = '\x7d') ∨ isBlank m = true →
      m.isDigit = false ∧ m ≠ '.' ∧ m ≠ 'e' ∧ m ≠ 'E' := by
    rintro m ((rfl | rfl | rfl) | hm)
    · decide
    · decide
    · decide
    · simp only [isBlank, Bool.or_eq_true, decide_eq_true_eq] at hm
      rcases hm with ((rfl | rfl) | rfl) | rfl <;> decide
  intro m hm
  cases b with
  | nil =>
    cases hm
    exact hmark c (Or.inl hc)
  | cons d b =>
    obtain rfl : d = m := Option.some.inj hm
    exact hmark d (Or.inr (hb d List.mem_cons_self))

theorem length_lt_append {t rest : List Char} (h : t ≠ []) : rest.length < (t ++ rest).length := by
  rw [List.length_append]
  exact Nat.lt_add_of_pos_left (List.length_pos_iff.mpr h)

/-- Values do not start with the bracket that closes them. -/
theorem Items.skip_ne {depth : Nat} {t rest : List Char} {vs : List Json}
    (h : Items depth t vs rest) (tail : List Char) : skip t ≠ ']' :: tail := by
  obtain ⟨t₁, v, t₂, hgap, hv⟩ : ∃ t₁ v t₂, Gap t t₁ ∧ Value depth t₁ v t₂ := by
    cases h with
    | last hgap hv _ => exact ⟨_, _, _, hgap, hv⟩
    | more hgap hv _ _ => exact ⟨_, _, _, hgap, hv⟩
  obtain ⟨c, cs, rfl, hblank, hclose, _⟩ := Value.head hv
  rw [hgap.skip_eq hblank]
  exact fun heq => hclose (List.cons.inj heq).1

/-- Members start with a name. -/
theorem Members.skip_eq {depth : Nat} {t rest : List Char} {ms : List (String × Json)}
    (h : Members depth t ms rest) : ∃ tail, skip t = '"' :: tail := by
  cases h with
  | last hname => exact ⟨_, hname.skip_eq rfl⟩
  | more hname => exact ⟨_, hname.skip_eq rfl⟩

/-- What the grammar allows is read in so many steps, if the text is short enough. -/
structure CompleteWithin (steps : Nat) : Prop where
  value : ∀ {depth : Nat} {t rest : List Char} {v : Json}, Value depth t v rest → Stops rest →
    2 * t.length + 1 ≤ steps → valueWithin steps depth t = .ok (v, rest) ∧ rest.length < t.length
  items : ∀ {depth : Nat} {t rest : List Char} {vs : List Json}, Items depth t vs rest →
    2 * t.length + 2 ≤ steps → itemsWithin steps depth t = .ok (vs, rest) ∧ rest.length < t.length
  members : ∀ {depth : Nat} {t rest : List Char} {ms : List (String × Json)},
    Members depth t ms rest → 2 * t.length + 2 ≤ steps →
      membersWithin steps depth t = .ok (ms, rest) ∧ rest.length < t.length

section
variable {n depth : Nat} {t rest : List Char}

theorem number_value_complete (h : Numeral t) (hrest : Stops rest) :
    valueWithin (n + 1) depth (t ++ rest) = .ok (.number (String.ofList t), rest) ∧
      rest.length < (t ++ rest).length := by
  obtain ⟨c, cs, rfl, hc⟩ := Numeral.head h
  have hread := number_complete h hrest
  rw [List.cons_append] at hread ⊢
  rw [valueWithin_number hc, hread]
  exact ⟨rfl, length_lt_append (t := c :: cs) (by simp)⟩

theorem string_value_complete {us : List Nat} (h : Chars t us rest) :
    valueWithin (n + 1) depth ('"' :: t) = .ok (.string (String.ofList (Text.ofUnits us)), rest) ∧
      rest.length < ('"' :: t).length := by
  have hless := (stringUnits_complete h).2
  unfold valueWithin
  rw [skip_mark (by decide)]
  simp only [string_complete h, Except.map]
  exact ⟨trivial, Nat.lt_succ_of_lt hless⟩

theorem emptyArray_value_complete (hdepth : depth < maxDepth) (h : Gap t (']' :: rest)) :
    valueWithin (n + 1) depth ('[' :: t) = .ok (.array [], rest) ∧
      rest.length < ('[' :: t).length := by
  have hlength := h.length_le
  obtain ⟨b, hb, rfl⟩ := h
  refine ⟨valueWithin_emptyArray hdepth hb rest, ?_⟩
  simp only [List.length_cons] at hlength ⊢
  omega

/-- The bracket pays for the step to the items. -/
theorem array_value_complete (ih : CompleteWithin n) (hdepth : depth < maxDepth) {vs : List Json}
    (h : Items (depth + 1) t vs rest) (hsteps : 2 * ('[' :: t).length + 1 ≤ n + 1) :
    valueWithin (n + 1) depth ('[' :: t) = .ok (.array vs, rest) ∧
      rest.length < ('[' :: t).length := by
  simp only [List.length_cons] at hsteps ⊢
  obtain ⟨hread, hless⟩ := ih.items h (by omega)
  exact ⟨valueWithin_array hdepth (Items.skip_ne h) hread, by omega⟩

theorem emptyObject_value_complete (hdepth : depth < maxDepth) (h : Gap t ('\x7d' :: rest)) :
    valueWithin (n + 1) depth ('\x7b' :: t) = .ok (.object [], rest) ∧
      rest.length < ('\x7b' :: t).length := by
  have hlength := h.length_le
  obtain ⟨b, hb, rfl⟩ := h
  refine ⟨valueWithin_emptyObject hdepth hb rest, ?_⟩
  simp only [List.length_cons] at hlength ⊢
  omega

theorem object_value_complete (ih : CompleteWithin n) (hdepth : depth < maxDepth)
    {ms : List (String × Json)} (h : Members (depth + 1) t ms rest)
    (hsteps : 2 * ('\x7b' :: t).length + 1 ≤ n + 1) :
    valueWithin (n + 1) depth ('\x7b' :: t) = .ok (.object ms, rest) ∧
      rest.length < ('\x7b' :: t).length := by
  simp only [List.length_cons] at hsteps ⊢
  obtain ⟨hread, hless⟩ := ih.members h (by omega)
  obtain ⟨tail, htail⟩ := Members.skip_eq h
  have hopen : ∀ tail', skip t ≠ '\x7d' :: tail' := by
    intro tail' heq
    rw [htail] at heq
    cases heq
  exact ⟨valueWithin_object hdepth hopen hread, by omega⟩

theorem value_complete_step (ih : CompleteWithin n) {v : Json} (h : Value depth t v rest)
    (hrest : Stops rest) (hsteps : 2 * t.length + 1 ≤ n + 1) :
    valueWithin (n + 1) depth t = .ok (v, rest) ∧ rest.length < t.length := by
  cases h with
  | null => exact ⟨rfl, length_lt_append (by decide)⟩
  | bool _ b =>
    cases b with
    | false => exact ⟨rfl, length_lt_append (by decide)⟩
    | true => exact ⟨rfl, length_lt_append (by decide)⟩
  | number _ hn => exact number_value_complete hn hrest
  | string _ hus => exact string_value_complete hus
  | emptyArray hdepth hgap => exact emptyArray_value_complete hdepth hgap
  | array hdepth hitems => exact array_value_complete ih hdepth hitems hsteps
  | emptyObject hdepth hgap => exact emptyObject_value_complete hdepth hgap
  | object hdepth hmembers => exact object_value_complete ih hdepth hmembers hsteps

/-- A comma or the closing bracket stops a number, and what a value takes up leaves steps for
the values behind it. -/
theorem items_complete_step (ih : CompleteWithin n) {vs : List Json} (h : Items depth t vs rest)
    (hsteps : 2 * t.length + 2 ≤ n + 1) :
    itemsWithin (n + 1) depth t = .ok (vs, rest) ∧ rest.length < t.length := by
  cases h with
  | last hgap hv hend =>
    have hbefore := hgap.length_le
    have hbehind := hend.length_le
    obtain ⟨hread, hless⟩ := ih.value hv (Gap.stops hend (by simp)) (by omega)
    unfold itemsWithin
    rw [valueWithin_gap hgap, hread]
    simp only [hend.skip_eq (by decide : isBlank ']' = false)]
    simp only [List.length_cons] at hbehind
    exact ⟨trivial, by omega⟩
  | more hgap hv hcomma hvs =>
    have hbefore := hgap.length_le
    have hbehind := hcomma.length_le
    obtain ⟨hread, hless⟩ := ih.value hv (Gap.stops hcomma (by simp)) (by omega)
    simp only [List.length_cons] at hbehind
    obtain ⟨hmore, hless'⟩ := ih.items hvs (by omega)
    unfold itemsWithin
    rw [valueWithin_gap hgap, hread]
    simp only [hcomma.skip_eq (by decide : isBlank ',' = false), hmore, Except.map]
    exact ⟨trivial, by omega⟩

theorem members_complete_step (ih : CompleteWithin n) {ms : List (String × Json)}
    (h : Members depth t ms rest) (hsteps : 2 * t.length + 2 ≤ n + 1) :
    membersWithin (n + 1) depth t = .ok (ms, rest) ∧ rest.length < t.length := by
  cases h with
  | last hname hus hcolon hgap hv hend =>
    have hlengths := And.intro hname.length_le (And.intro hcolon.length_le
      (And.intro hgap.length_le hend.length_le))
    have hstring := (stringUnits_complete hus).2
    simp only [List.length_cons] at hlengths
    obtain ⟨hread, hless⟩ := ih.value hv (Gap.stops hend (by simp)) (by omega)
    unfold membersWithin
    simp only [hname.skip_eq (by decide : isBlank '"' = false), string_complete hus,
      hcolon.skip_eq (by decide : isBlank ':' = false), valueWithin_gap hgap, hread,
      hend.skip_eq (by decide : isBlank '\x7d' = false)]
    exact ⟨trivial, by omega⟩
  | more hname hus hcolon hgap hv hcomma hms =>
    have hlengths := And.intro hname.length_le (And.intro hcolon.length_le
      (And.intro hgap.length_le hcomma.length_le))
    have hstring := (stringUnits_complete hus).2
    simp only [List.length_cons] at hlengths
    obtain ⟨hread, hless⟩ := ih.value hv (Gap.stops hcomma (by simp)) (by omega)
    obtain ⟨hmore, hless'⟩ := ih.members hms (by omega)
    unfold membersWithin
    simp only [hname.skip_eq (by decide : isBlank '"' = false), string_complete hus,
      hcolon.skip_eq (by decide : isBlank ':' = false), valueWithin_gap hgap, hread,
      hcomma.skip_eq (by decide : isBlank ',' = false), hmore, Except.map]
    exact ⟨trivial, by omega⟩

end

theorem within_complete (steps : Nat) : CompleteWithin steps := by
  induction steps with
  | zero => exact ⟨fun _ _ h => by omega, fun _ h => by omega, fun _ h => by omega⟩
  | succ n ih => exact ⟨value_complete_step ih, items_complete_step ih, members_complete_step ih⟩

/-- **What is a value by the grammar is read.** -/
theorem value_complete {cs t rest : List Char} {v : Json} (hgap : Gap cs t) (h : Value 0 t v rest)
    (hrest : Stops rest) : value cs = .ok (v, rest) ∧ rest.length < cs.length := by
  have hlength := hgap.length_le
  obtain ⟨hread, hless⟩ := (within_complete (2 * cs.length + 2)).value h hrest (by omega)
  exact ⟨(valueWithin_gap hgap).trans hread, by omega⟩

end Reader

end Json

end TaintReach
