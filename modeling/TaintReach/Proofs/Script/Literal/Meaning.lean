import Mathlib
import TaintReach.Script.Cursor
import TaintReach.Text.Units

/-! What literals are worth.

The grammar of literals, from the text of one alone, with the value that each form has
(`Denotes`), and what values count as true (`Meaning.Truthy`). Digits and escapes come
first; numbers have exact values, and it is the nearest double that counts. -/
namespace TaintReach.Script.Literal
open Text (unitsOf)

/-! ### Doubles -/

/-- A double that is finite and not negative: a significand of 53 bits, scaled. Its bits
are all in use, or the exponent is the least. -/
structure IsDouble (d : ℚ) (significand : Nat) (exponent : ℤ) : Prop where
  value : d = significand * 2 ^ exponent
  lt : significand < 2 ^ 53
  least : -1074 ≤ exponent
  greatest : exponent ≤ 971
  full : 2 ^ 52 ≤ significand ∨ exponent = -1074

/-- `d` is the double next to `x`, and the even one of two that are. -/
structure RoundsTo (x d : ℚ) : Prop where
  nearest : ∀ d' m e, IsDouble d' m e → |x - d| ≤ |x - d'|
  even : ∃ m e, IsDouble d m e ∧
    ∀ d' m' e', IsDouble d' m' e' → d' ≠ d → |x - d'| = |x - d| → Even m

/-- The least positive double. -/
theorem isDouble_least : IsDouble (2 ^ (-1074 : ℤ)) 1 (-1074) where
  value := by rw [Nat.cast_one, one_mul]
  lt := by norm_num
  least := le_refl _
  greatest := by norm_num
  full := .inr rfl

theorem IsDouble.zero : IsDouble 0 0 (-1074) where
  value := by rw [Nat.cast_zero, zero_mul]
  lt := by norm_num
  least := le_refl _
  greatest := by norm_num
  full := .inr rfl

theorem IsDouble.le {d : ℚ} {m : Nat} {e : ℤ} (h : IsDouble d m e) (hd : d ≠ 0) :
    2 ^ (-1074 : ℤ) ≤ d := by
  have hm : 1 ≤ m := by
    refine Nat.one_le_iff_ne_zero.mpr fun hm => hd ?_
    rw [h.value, hm, Nat.cast_zero, zero_mul]
  have hscale : (2 : ℚ) ^ (-1074 : ℤ) ≤ 2 ^ e := zpow_le_zpow_right₀ (by norm_num) h.least
  have hpos : (0 : ℚ) < 2 ^ e := by positivity
  have hm' : (1 : ℚ) ≤ m := by exact_mod_cast hm
  rw [h.value]
  nlinarith

/-- **What rounds to zero**: half of the least positive double, and what is below. -/
theorem roundsTo_zero_iff {x : ℚ} (hx : 0 ≤ x) : RoundsTo x 0 ↔ x ≤ 2 ^ (-1075 : ℤ) := by
  have hhalf : (2 : ℚ) ^ (-1074 : ℤ) = 2 * 2 ^ (-1075 : ℤ) := by
    rw [← zpow_one_add₀ (by norm_num : (2 : ℚ) ≠ 0)]
    norm_num
  constructor
  · intro h
    have hnear := h.nearest _ _ _ isDouble_least
    rw [sub_zero, abs_of_nonneg hx] at hnear
    by_contra hlt
    rcases abs_cases (x - 2 ^ (-1074 : ℤ)) with ⟨habs, _⟩ | ⟨habs, _⟩ <;> rw [habs] at hnear
    · have : (0 : ℚ) < 2 ^ (-1074 : ℤ) := by positivity
      linarith
    · linarith
  · intro h
    refine ⟨fun d' m e hd' => ?_, 0, -1074, .zero, fun _ _ _ _ _ _ => ⟨0, rfl⟩⟩
    rw [sub_zero, abs_of_nonneg hx]
    by_cases hzero : d' = 0
    · rw [hzero, sub_zero]
      exact le_abs_self x
    · have hle := hd'.le hzero
      refine le_trans ?_ (neg_le_abs _)
      linarith

/-! ### Meanings -/

/-- What a literal stands for. -/
inductive Meaning where
  | null
  | boolean (b : Bool)
  /-- A number, before it is rounded to a double. -/
  | number (x : ℚ)
  /-- An integer of any size. -/
  | big (n : Nat)
  | string (units : List Nat)
  | object

/-- What counts as true. -/
def Meaning.Truthy : Meaning → Prop
  | .null => False
  | .boolean b => b = true
  | .number x => ¬ RoundsTo x 0
  | .big n => n ≠ 0
  | .string units => units ≠ []
  | .object => True

/-! ### Digits -/

/-- A digit of a base up to sixteen, and its value. -/
def IsDigit (base : Nat) (c : Char) (d : Nat) : Prop :=
  d < base ∧ d < 16 ∧ (c = Nat.digitChar d ∨ c = (Nat.digitChar d).toUpper)

/-- Digits, with single separators between them. -/
inductive Digits (base : Nat) : List Char → List Nat → Prop
  | single {c : Char} {d : Nat} (hc : IsDigit base c d) : Digits base [c] [d]
  | next {c : Char} {d : Nat} {t : List Char} {ds : List Nat} (hc : IsDigit base c d)
    (ht : Digits base t ds) : Digits base (c :: t) (d :: ds)
  | separated {c : Char} {d : Nat} {t : List Char} {ds : List Nat} (hc : IsDigit base c d)
    (ht : Digits base t ds) : Digits base (c :: '_' :: t) (d :: ds)

/-- The number that digits stand for, the most significant first. -/
def number (base : Nat) (ds : List Nat) : Nat := Nat.ofDigits base ds.reverse

/-! ### Numbers -/

/-- Zero, or digits of which the first is not zero. -/
inductive Whole : List Char → Nat → Prop
  | zero : Whole ['0'] 0
  | digits {t : List Char} {ds : List Nat} (ht : Digits 10 t ds) (hfirst : t.head? ≠ some '0') :
    Whole t (number 10 ds)

/-- Digits behind a point, and what they add. -/
inductive Places : List Char → ℚ → Prop
  | nil : Places [] 0
  | digits {t : List Char} {ds : List Nat} (ht : Digits 10 t ds) :
    Places t (number 10 ds / 10 ^ ds.length)

/-- A decimal number without its exponent. -/
inductive Mantissa : List Char → ℚ → Prop
  | whole {w : List Char} {n : Nat} (hw : Whole w n) : Mantissa w n
  | fraction {w f : List Char} {n : Nat} {x : ℚ} (hw : Whole w n) (hf : Places f x) :
    Mantissa (w ++ '.' :: f) (n + x)
  | point {f : List Char} {x : ℚ} (hf : Places f x) (hne : f ≠ []) : Mantissa ('.' :: f) x

/-- A power of ten, which may be missing. -/
inductive Exponent : List Char → ℤ → Prop
  | absent : Exponent [] 0
  | plain {e : Char} {t : List Char} {ds : List Nat} (he : e = 'e' ∨ e = 'E')
    (ht : Digits 10 t ds) :
    Exponent (e :: t) (number 10 ds)
  | plus {e : Char} {t : List Char} {ds : List Nat} (he : e = 'e' ∨ e = 'E')
    (ht : Digits 10 t ds) :
    Exponent (e :: '+' :: t) (number 10 ds)
  | minus {e : Char} {t : List Char} {ds : List Nat} (he : e = 'e' ∨ e = 'E')
    (ht : Digits 10 t ds) :
    Exponent (e :: '-' :: t) (-number 10 ds)

/-- The base that a letter behind a zero tells. -/
def radix? (p : Char) : Option Nat :=
  if p = 'x' ∨ p = 'X' then some 16
  else if p = 'o' ∨ p = 'O' then some 8
  else if p = 'b' ∨ p = 'B' then some 2
  else none

/-- An integer in the base that its second letter tells. -/
inductive Prefixed : List Char → Nat → Prop
  | mk {p : Char} {base : Nat} {t : List Char} {ds : List Nat} (hp : radix? p = some base)
    (ht : Digits base t ds) : Prefixed ('0' :: p :: t) (number base ds)

/-- Number literals and their exact values. -/
inductive Numeric : List Char → Meaning → Prop
  | decimal {m e : List Char} {x : ℚ} {n : ℤ} (hm : Mantissa m x) (he : Exponent e n) :
    Numeric (m ++ e) (.number (x * 10 ^ n))
  | prefixed {t : List Char} {n : Nat} (ht : Prefixed t n) : Numeric t (.number n)
  /-- Octal digits behind a bare zero. -/
  | octal {t : List Char} {ds : List Nat} (hne : t ≠ []) (ht : List.Forall₂ (IsDigit 8) t ds) :
    Numeric ('0' :: t) (.number (number 8 ds))
  | big {t : List Char} {n : Nat} (ht : Whole t n ∨ Prefixed t n) : Numeric (t ++ ['n']) (.big n)

/-! ### Quoted text -/

inductive Quote where
  | single
  | double
  | back
deriving DecidableEq

namespace Quote

def char : Quote → Char
  | single => '\''
  | double => '"'
  | back => '\x60'

/-- Whether a character before `t` cannot stand for itself in the quotes: it ends them, or
it breaks a line of a string, or a substitution starts there. -/
def Ends : Quote → Char → List Char → Prop
  | back, c, t => c = '\x60' ∨ c = '$' ∧ t.head? = some '\x7b'
  | q, c, _ => c = q.char ∨ c = '\n' ∨ c = '\r'

end Quote

/-- Letters that stand for a control character behind a backslash. -/
def controls : List (Char × Nat) :=
  [('b', 8), ('t', 9), ('n', 10), ('v', 11), ('f', 12), ('r', 13)]

def isOctal (c : Char) : Bool := '0' ≤ c && c ≤ '7'

/-- What one character behind a backslash stands for: itself, unless it starts another
escape. A template does not take eight and nine. -/
def character? (q : Quote) (c : Char) : Option Nat :=
  match controls.lookup c with
  | some n => some n
  | none =>
    if isLineBreak c || isOctal c || c = 'x' || c = 'u' || (q = .back && (c = '8' || c = '9')) then
      none
    else some c.toNat

/-- The octal digits of an escape: up to three, or two if the first is above three. -/
def octalPart (t : List Char) : List Char :=
  (t.take (if t.head?.any (· ≤ '3') then 3 else 2)).takeWhile isOctal

/-- What stands behind a backslash, the units that it gives, and the text behind it. -/
inductive Escaped (q : Quote) : List Char → List Nat → List Char → Prop
  | character {c : Char} {n : Nat} {rest : List Char} (hc : character? q c = some n) :
    Escaped q (c :: rest) (unitsOf n) rest
  | hex {t rest : List Char} {ds : List Nat} (ht : List.Forall₂ (IsDigit 16) t ds)
    (hlength : t.length = 2) : Escaped q ('x' :: (t ++ rest)) [number 16 ds] rest
  | unit {t rest : List Char} {ds : List Nat} (ht : List.Forall₂ (IsDigit 16) t ds)
    (hlength : t.length = 4) : Escaped q ('u' :: (t ++ rest)) [number 16 ds] rest
  | codePoint {t rest : List Char} {ds : List Nat} (ht : List.Forall₂ (IsDigit 16) t ds)
    (hne : t ≠ []) (hmax : number 16 ds ≤ 0x10FFFF) :
    Escaped q ('u' :: '\x7b' :: (t ++ '\x7d' :: rest)) (unitsOf (number 16 ds)) rest
  /-- A template takes a lone zero only. -/
  | octal {t : List Char} {ds : List Nat} (ht : List.Forall₂ (IsDigit 8) (octalPart t) ds)
    (hne : octalPart t ≠ []) (hq : q = .back → octalPart t = ['0']) :
    Escaped q t [number 8 ds] (t.drop (octalPart t).length)
  /-- A line that goes on gives nothing. -/
  | lineBreak {c : Char} {rest : List Char} (hc : isLineBreak c = true)
    (hlone : c = '\r' → rest.head? ≠ some '\n') : Escaped q (c :: rest) [] rest
  | doubleBreak {rest : List Char} : Escaped q ('\r' :: '\n' :: rest) [] rest

/-- What stands between quotes, and the units that it gives. -/
inductive Quotation (q : Quote) : List Char → List Nat → Prop
  | nil : Quotation q [] []
  | plain {c : Char} {t : List Char} {us : List Nat} (hc : c ≠ '\\') (hcr : c ≠ '\r')
    (hends : ¬ q.Ends c t) (ht : Quotation q t us) : Quotation q (c :: t) (unitsOf c.toNat ++ us)
  | escape {t rest : List Char} {us vs : List Nat} (ht : Escaped q t us rest)
    (hrest : Quotation q rest vs) : Quotation q ('\\' :: t) (us ++ vs)
  /-- However a line of a template is broken, it counts as a line feed. -/
  | lineBreak {t : List Char} {us : List Nat} (hq : q = .back) (hlone : t.head? ≠ some '\n')
    (ht : Quotation q t us) : Quotation q ('\r' :: t) (10 :: us)
  | doubleBreak {t : List Char} {us : List Nat} (hq : q = .back) (ht : Quotation q t us) :
    Quotation q ('\r' :: '\n' :: t) (10 :: us)

/-! ### Literals -/

/-- The text is a literal with this value. -/
inductive Denotes : List Char → Meaning → Prop
  | null : Denotes "null".toList .null
  | yes : Denotes "true".toList (.boolean true)
  | no : Denotes "false".toList (.boolean false)
  | numeric {t : List Char} {v : Meaning} (ht : Numeric t v) : Denotes t v
  | quoted {q : Quote} {t : List Char} {us : List Nat} (ht : Quotation q t us) :
    Denotes (q.char :: (t ++ [q.char])) (.string us)
  /-- A regular expression makes an object, whatever it says. -/
  | regexp (t : List Char) : Denotes ('/' :: t) .object

end TaintReach.Script.Literal
