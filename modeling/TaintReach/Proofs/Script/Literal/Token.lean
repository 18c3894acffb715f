import TaintReach.Proofs.Script.Literal.Quoted
import TaintReach.Script.Lexer

/-! Literals among the tokens.

A cursor that has moved through the code knows how many bytes it has passed, so a token
that is scanned there stands in the code at the place it tells (`scan_stands`). A number or
string is a literal of the grammar as it is spelled, and a keyword, a mark or a back quote
is what stands there. -/
namespace TaintReach.Script

variable {code text t : List Char} {k : Cursor} {n : Nat}

/-! ### Places in the code -/

namespace Literal

/-- The text stands in the code behind `n` bytes. -/
def StandsAt (code : List Char) (n : Nat) (text : List Char) : Prop :=
  ∃ front behind, code = front ++ (text ++ behind) ∧ (front.map Char.utf8Size).sum = n

theorem StandsAt.of_prefix (h : StandsAt code n text) (ht : t <+: text) : StandsAt code n t := by
  obtain ⟨front, behind, rfl, hn⟩ := h
  obtain ⟨rest, rfl⟩ := ht
  exact ⟨front, rest ++ behind, by rw [List.append_assoc], hn⟩

end Literal

open Script.Literal

namespace Cursor

/-- The cursor is somewhere in the code. -/
def At (code : List Char) (k : Cursor) : Prop :=
  ∃ front, code = front ++ k.rest ∧ (front.map Char.utf8Size).sum = k.pos.offset

theorem rest_forward (k : Cursor) (n : Nat) : (k.forward n).rest = k.rest.drop n := by
  induction n generalizing k with
  | zero => rfl
  | succ n ih =>
    rw [forward, ih]
    unfold advance
    split
    · rename_i hrest
      simp [hrest]
    · rename_i hrest
      simp [hrest]

namespace At

theorem advance (h : k.At code) : k.advance.At code := by
  obtain ⟨front, hcode, hoffset⟩ := h
  unfold Cursor.advance
  split
  · exact ⟨front, hcode, hoffset⟩
  · rename_i c tail hrest
    refine ⟨front ++ [c], ?_, ?_⟩
    · rw [hcode, hrest, List.append_cons]
    · simp [hoffset]

/-- A cursor counts the bytes of what it passes, so it knows where it is. -/
theorem forward (h : k.At code) (n : Nat) : (k.forward n).At code := by
  induction n generalizing k with
  | zero => exact h
  | succ n ih => exact ih h.advance

theorem stands (h : k.At code) (ht : t <+: k.rest) : StandsAt code k.pos.offset t := by
  obtain ⟨front, hcode, hoffset⟩ := h
  obtain ⟨behind, hrest⟩ := ht
  exact ⟨front, behind, by rw [hrest, hcode], hoffset⟩

end At

end Cursor

/-! ### Tokens -/

/-- A token that stands in the code, with `after` behind it. -/
def Lexeme.Stands (code : List Char) (l : Lexeme) (after : Cursor) : Prop :=
  match l.token with
  | .number value =>
    StandsAt code l.pos.offset l.raw.toList ∧ Numeric l.raw.toList value.worth
  | .string units => StandsAt code l.pos.offset l.raw.toList ∧ ∃ q t us, q ≠ Quote.back ∧
    l.raw.toList = q.char :: (t ++ [q.char]) ∧ Quotation q t us ∧ (us = [] ↔ units = [])
  | .keyword word => StandsAt code l.pos.offset word.toList
  | .punct m => StandsAt code l.pos.offset (m.toList ++ after.rest)
  | .backtick => StandsAt code l.pos.offset ('\x60' :: after.rest)
  | _ => True

/-- What was scanned stands in the code. -/
structure Scanned.Stands (code : List Char) (r : Scanned) : Prop where
  lexeme : r.lexeme.Stands code r.after
  after : r.after.At code

/-- A name without escapes is spelled as it is. -/
theorem name?_unescaped {first : Bool} {cs : List Char} {m : Name} (h : name? first cs = some m)
    (hm : m.escaped = false) : m.text <+: cs := by
  fun_induction name? first cs generalizing m with
  | case1 | case7 =>
    cases h
    exact List.nil_prefix
  | case2 | case4 | case5 => cases h
  | case3 =>
    obtain ⟨m, -, rfl⟩ := Option.map_eq_some_iff.mp h
    cases hm
  | case6 _ c rest _ _ ih =>
    obtain ⟨m, hrest, rfl⟩ := Option.map_eq_some_iff.mp h
    exact List.cons_prefix_cons.mpr ⟨rfl, ih hrest hm⟩

/-- Of the words only keywords are part of a literal, and only if they are not escaped. -/
theorem word_stands {awaitReserved yieldReserved before escaped : Bool} {word : String}
    {rest : List Char} {l : Lexeme} {after : Cursor}
    (hl : l.token = (Word.of awaitReserved yieldReserved before word escaped rest).token)
    (hword : escaped = false → StandsAt code l.pos.offset word.toList) : l.Stands code after := by
  simp only [Word.of] at hl
  unfold Lexeme.Stands
  split at hl
  · split at hl <;> (rw [hl]; trivial)
  rename_i hescaped
  split at hl
  · split at hl <;> (rw [hl]; trivial)
  split at hl
  · rw [hl]
    trivial
  split at hl
  · rw [hl]
    exact hword (Bool.eq_false_of_not_eq_true hescaped)
  · split at hl <;> (rw [hl]; trivial)

theorem mark?_prefix {cs : List Char} {m : String} (h : mark? cs = some m) : m.toList <+: cs := by
  unfold mark? at h
  split at h
  · split at h <;> cases h
    · exact ⟨_, rfl⟩
    · exact ⟨_, rfl⟩
  · have hprefix := List.find?_some (p := fun m : String => m.toList.isPrefixOf cs) h
    exact List.isPrefixOf_iff_prefix.mp hprefix

/-- What is taken for a numeral is one by the grammar, with the value that was read. -/
theorem find_stands {value : Numeral} {cs : List Char} (h : Numeral.find cs = ⟨n, some value⟩)
    (hstarts : Numeral.Starts cs) : Numeric (cs.take n) value.worth := by
  obtain ⟨t, ht, rfl, hnumeric⟩ := Numeral.find_sound hstarts h
  rwa [← List.prefix_iff_eq_take.mp ht]

theorem starts_of_digit {c : Char} {rest : List Char}
    (h : (c.isDigit || (c = '.' && rest.head?.any Char.isDigit)) = true) :
    Numeral.Starts (c :: rest) := by
  rcases Bool.or_eq_true_iff.mp h with hc | hpoint
  · exact ⟨c, rest, hc, .inl rfl⟩
  · obtain ⟨hc, hd⟩ := Bool.and_eq_true_iff.mp hpoint
    obtain ⟨d, hhead, hdigit⟩ := (Option.any_eq_true _ _).mp hd
    obtain ⟨behind, rfl⟩ := List.head?_eq_some_iff.mp hhead
    exact ⟨d, behind, hdigit, .inr (by rw [of_decide_eq_true hc])⟩

theorem quote_of_char {c : Char} (h : (c = '"' || c = '\'') = true) :
    ∃ q : Quote, q ≠ .back ∧ q.char = c := by
  rcases Bool.or_eq_true_iff.mp h with hc | hc
  · exact ⟨.double, by decide, (of_decide_eq_true hc).symm⟩
  · exact ⟨.single, by decide, (of_decide_eq_true hc).symm⟩

/-- A string without malformed escapes is a literal between its quotes. -/
theorem string_stands {q : Quote} {rest : List Char} {units : List Nat} (hq : q ≠ .back)
    (hbody : Quoted.stringBody q.char rest = some n)
    (hcook : Quoted.cook false (rest.take n) = some units) :
    ∃ t us, (q.char :: rest).take (n + 2) = q.char :: (t ++ [q.char]) ∧ Quotation q t us ∧
      (us = [] ↔ units = []) := by
  obtain ⟨t, behind, rfl, rfl, hbounded⟩ := stringBody_sound hq hbody
  rw [List.take_left] at hcook
  rw [← decide_eq_false hq] at hcook
  obtain ⟨us, hus, hempty⟩ := cook_sound hbounded hcook
  refine ⟨t, us, ?_, hus, hempty⟩
  simp [List.take_append]

/-- **What is scanned stands in the code.** -/
theorem scan_stands (awaitReserved yieldReserved canEnd : Bool) (hk : k.At code) :
    (scan awaitReserved yieldReserved canEnd k).Stands code := by
  simp only [scan]
  have hstart := hk.forward (triviaBefore canEnd k).length
  generalize k.forward (triviaBefore canEnd k).length = start at hstart ⊢
  have htake : ∀ n, StandsAt code start.pos.offset (String.ofList (start.rest.take n)).toList := by
    intro n
    rw [String.toList_ofList]
    exact hstart.stands (List.take_prefix n start.rest)
  split
  · exact ⟨trivial, hstart.forward _⟩
  split
  · exact ⟨trivial, hstart⟩
  rename_i c rest hrest
  split
  · split
    · exact ⟨trivial, hstart.forward _⟩
    · rename_i m hm
      refine ⟨word_stands rfl fun hescaped => ?_, hstart.forward _⟩
      rw [String.toList_ofList]
      exact hstart.stands (name?_unescaped hm hescaped)
  split
  · split
    · rename_i hdigit _ value hvalue
      refine ⟨⟨htake _, ?_⟩, hstart.forward _⟩
      rw [String.toList_ofList]
      refine find_stands (by rw [← hvalue]) ?_
      rw [hrest]
      exact starts_of_digit hdigit
    · exact ⟨trivial, hstart.forward _⟩
  split
  · split
    · exact ⟨trivial, hstart.forward _⟩
    · split
      · exact ⟨trivial, hstart.forward _⟩
      · rename_i hquote _ n hbody _ units hcook
        refine ⟨⟨htake _, ?_⟩, hstart.forward _⟩
        obtain ⟨q, hq, rfl⟩ := quote_of_char hquote
        obtain ⟨t, us, htext, hus, hempty⟩ := string_stands hq hbody hcook
        refine ⟨q, t, us, hq, ?_, hus, hempty⟩
        rw [String.toList_ofList, hrest, htext]
  split
  · rename_i hc
    refine ⟨?_, hstart.forward _⟩
    show StandsAt code start.pos.offset ('\x60' :: (start.forward 1).rest)
    refine hstart.stands ?_
    rw [Cursor.rest_forward, hrest, hc]
    exact List.prefix_refl _
  split
  · split
    · split <;> exact ⟨trivial, hstart.forward _⟩
    · exact ⟨trivial, hstart.forward _⟩
  split
  · exact ⟨trivial, hstart.forward _⟩
  · split
    · exact ⟨trivial, hstart.forward _⟩
    · rename_i m hm _
      refine ⟨?_, hstart.forward _⟩
      show StandsAt code start.pos.offset (m.toList ++ (start.forward m.length).rest)
      refine hstart.stands ?_
      obtain ⟨behind, hbehind⟩ := mark?_prefix hm
      rw [Cursor.rest_forward, ← hbehind, ← String.length_toList, List.drop_left]

end TaintReach.Script
