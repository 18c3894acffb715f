import TaintReach.Script.Parser.Basic

/-! Where tokens stand.

The parser goes through the text in one direction. A token that is scanned starts
where the scan started or behind that, and ends where it starts or behind that;
marks and keywords take up at least one character (`scan_fits`). So a step to the
next token leads to a place that follows the old one (`follows_of_next`). -/
namespace TaintReach.Script

/-! ### Moving through the text -/

namespace Cursor

theorem offset_advance (k : Cursor) : k.pos.offset ≤ k.advance.pos.offset := by
  unfold advance
  split
  · exact Nat.le_refl _
  · exact Nat.le_add_right _ _

theorem offset_forward (k : Cursor) (n : Nat) : k.pos.offset ≤ (k.forward n).pos.offset := by
  induction n generalizing k with
  | zero => exact Nat.le_refl _
  | succ n ih => exact Nat.le_trans k.offset_advance (ih k.advance)

theorem offset_lt_forward {k : Cursor} (hrest : k.rest ≠ []) {n : Nat} (hn : 0 < n) :
    k.pos.offset < (k.forward n).pos.offset := by
  obtain ⟨n, rfl⟩ := Nat.exists_eq_add_one_of_ne_zero (Nat.ne_of_gt hn)
  refine Nat.lt_of_lt_of_le ?_ (k.advance.offset_forward n)
  unfold advance
  split
  · contradiction
  · exact Nat.lt_add_of_pos_right (Char.utf8Size_pos _)

end Cursor

/-! ### Tokens -/

/-- Whether a token is a mark or keyword, which are never empty. -/
def Token.isSolid : Token → Bool
  | .punct _ | .keyword _ => true
  | _ => false

/-- No mark is empty. -/
theorem mark?_length {cs : List Char} {m : String} (h : mark? cs = some m) : 0 < m.length := by
  have hmarks : ∀ m ∈ Token.marks, 0 < m.length := by decide
  unfold mark? at h
  split at h
  · split at h <;> (obtain rfl := Option.some.inj h; decide)
  · exact hmarks m (List.mem_of_find?_eq_some h)

theorem Word.keyword_of_isSolid {awaitReserved yieldReserved before escaped : Bool} {word : String}
    {rest : List Char}
    (h : (Word.of awaitReserved yieldReserved before word escaped rest).token.isSolid = true) :
    word ∈ Token.keywords := by
  simp only [Word.of] at h
  split at h
  · split at h <;> cases h
  split at h
  · split at h <;> cases h
  split at h
  · cases h
  split at h
  · rename_i hword
    exact List.contains_iff_mem.mp hword
  · split at h <;> cases h

/-- A name takes up space if it has any text, escaped or not. -/
theorem name?_length {first : Bool} {cs : List Char} {m : Name} (h : name? first cs = some m)
    (htext : m.text ≠ []) : 0 < m.length := by
  rw [name?.eq_def] at h
  simp only at h
  split at h
  · obtain rfl := Option.some.inj h
    contradiction
  split at h
  · split at h
    · split at h
      · cases h
      · generalize (if first = true then _ else _) = fits at h
        split at h
        · obtain ⟨m', _, rfl⟩ := Option.map_eq_some_iff.mp h
          exact Nat.succ_pos _
        · cases h
    · cases h
  split at h
  · obtain ⟨m', _, rfl⟩ := Option.map_eq_some_iff.mp h
    exact Nat.succ_pos _
  · obtain rfl := Option.some.inj h
    contradiction

/-- What is scanned from `k` on stands behind it. -/
structure Scanned.Fits (r : Scanned) (k : Cursor) : Prop where
  behind : k.pos.offset ≤ r.lexeme.pos.offset
  le : r.lexeme.pos.offset ≤ r.after.pos.offset
  lt : r.lexeme.token.isSolid = true → r.lexeme.pos.offset < r.after.pos.offset

namespace Scanned.Fits

variable {k start : Cursor} {l : Lexeme} {n : Nat} {b : Bool}

theorem soft (hstart : k.pos.offset ≤ start.pos.offset) (hpos : l.pos = start.pos)
    (hsolid : l.token.isSolid = false) : (⟨l, start.forward n, b⟩ : Scanned).Fits k where
  behind := hpos ▸ hstart
  le := hpos ▸ start.offset_forward n
  lt h := absurd (hsolid.symm.trans h) Bool.false_ne_true

theorem solid (hstart : k.pos.offset ≤ start.pos.offset) (hpos : l.pos = start.pos)
    (hrest : start.rest ≠ []) (hn : 0 < n) : (⟨l, start.forward n, b⟩ : Scanned).Fits k where
  behind := hpos ▸ hstart
  le := hpos ▸ start.offset_forward n
  lt _ := hpos ▸ Cursor.offset_lt_forward hrest hn

end Scanned.Fits

/-- What is scanned stands behind the place of the scan. -/
theorem scan_fits (awaitReserved yieldReserved canEnd : Bool) (k : Cursor) :
    (scan awaitReserved yieldReserved canEnd k).Fits k := by
  simp only [scan]
  have hstart := k.offset_forward (triviaBefore canEnd k).length
  generalize k.forward (triviaBefore canEnd k).length = start at hstart ⊢
  -- nothing but a keyword or a mark has to take up space
  split
  · exact .soft hstart rfl rfl
  split
  · exact .soft (n := 0) hstart rfl rfl
  rename_i c rest hrest
  have hne : start.rest ≠ [] := by
    rw [hrest]
    exact List.cons_ne_nil c rest
  split
  · split
    · exact .soft hstart rfl rfl
    · rename_i m hm
      cases hsolid : (Word.of awaitReserved yieldReserved (triviaBefore canEnd k).canEnd
          (String.ofList m.text) m.escaped (start.rest.drop m.length)).token.isSolid with
      | false => exact .soft hstart rfl hsolid
      | true =>
        have hword : String.ofList m.text ≠ "" := by
          have hkeywords : ∀ w ∈ Token.keywords, w ≠ "" := by decide
          exact hkeywords _ (Word.keyword_of_isSolid hsolid)
        have htext : m.text ≠ [] := fun h => hword (h ▸ rfl)
        exact .solid hstart rfl hne (Nat.add_pos_left (name?_length hm htext) _)
  split
  · split <;> exact .soft hstart rfl rfl
  split
  · split
    · exact .soft hstart rfl rfl
    · split <;> exact .soft hstart rfl rfl
  split
  · exact .soft hstart rfl rfl
  split
  · split
    · split <;> exact .soft hstart rfl rfl
    · exact .soft hstart rfl rfl
  split
  · exact .soft hstart rfl rfl
  · split
    · exact .soft hstart rfl rfl
    · rename_i m hm _
      exact .solid hstart rfl hne (mark?_length hm)

/-! ### Places -/

namespace Parser

/-- A token and where it starts and ends, in bytes. -/
structure Place where
  token : Token
  start : Nat
  stop : Nat

namespace Place

structure Ready (a : Place) : Prop where
  le : a.start ≤ a.stop
  lt : a.token.isSolid = true → a.start < a.stop

/-- A token that is ready stands behind another. -/
def Follows (a b : Place) : Prop := b.Ready ∧ a.stop ≤ b.start

end Place

/-- Where the parser stands. -/
def State.place (s : State) : Place := ⟨s.current.token, s.current.pos.offset, s.after.pos.offset⟩

/-- A step scans from the end of the current token on. -/
theorem follows_of_next {s t : State} {a : Unit} (h : next s = .ok (a, t)) :
    s.place.Follows t.place := by
  obtain ⟨hbehind, hle, hlt⟩ := scan_fits s.context.awaitReserved s.context.yieldReserved s.canEnd
    s.after
  cases h
  exact ⟨⟨hle, hlt⟩, hbehind⟩

end Parser

end TaintReach.Script
