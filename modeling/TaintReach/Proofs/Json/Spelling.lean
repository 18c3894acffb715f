import TaintReach.Json.Reader

/-! Reading inverts writing.

A value has many spellings: blanks may stand around every mark. `Spells` says which
texts are spellings of a value when its strings are written by `stringText`, and both
layouts are such texts (`compact_spells`, `indented_spells`). A spelling is read back
as the value it spells, up to where it ends and no further
(`valueWithin_spells`). Numbers are left out: where one ends is not said by its text. -/
namespace TaintReach

namespace Text

/-- The units of a character are read as that character. -/
theorem ofUnits_unitsOf (c : Char) (us : List Nat) :
    ofUnits (unitsOf c.toNat ++ us) = c :: ofUnits us := by
  have hvalid : c.toNat < 0xD800 ∨ 0xDFFF < c.toNat ∧ c.toNat < 0x110000 := c.valid
  unfold unitsOf
  split
  · rename_i hsmall
    have hhigh : ¬ (0xD800 ≤ c.toNat ∧ c.toNat < 0xDC00) := by omega
    have hlow : ¬ (0xDC00 ≤ c.toNat ∧ c.toNat < 0xE000) := by omega
    rw [List.singleton_append, ofUnits.eq_def]
    simp only [Bool.and_eq_true, decide_eq_true_eq, hhigh, hlow, if_false, Char.ofNat_toNat]
  · rename_i hlarge
    have hhigh : 0xD800 + (c.toNat - 0x10000) / 0x400 < 0xDC00 := by omega
    have hlow : 0xDC00 + (c.toNat - 0x10000) % 0x400 < 0xE000 := by omega
    have hsum : 0x10000 + (0xD800 + (c.toNat - 0x10000) / 0x400 - 0xD800) * 0x400 +
        (0xDC00 + (c.toNat - 0x10000) % 0x400 - 0xDC00) = c.toNat := by omega
    rw [List.cons_append, List.singleton_append, ofUnits.eq_def]
    simp only [Nat.le_add_right, hhigh, hlow, hsum, decide_true, Bool.and_true, if_true,
      Char.ofNat_toNat]

theorem ofUnits_flatMap (cs : List Char) :
    ofUnits (cs.flatMap fun c => unitsOf c.toNat) = cs := by
  induction cs with
  | nil => rfl
  | cons c cs ih => rw [List.flatMap_cons, ofUnits_unitsOf, ih]

end Text

namespace Json

/-! ### Strings -/

/-- The codes of the characters that a string gives by number. -/
def numbered : List Nat := List.range 0x20 ++ [0x26, 0x3c, 0x3e, 0x2028, 0x2029]

theorem padded_numbered : ∀ n ∈ numbered, Text.padded 16 4 n =
    [(n / 4096).digitChar, (n / 256 % 16).digitChar, (n / 16 % 16).digitChar,
      (n % 16).digitChar] := by
  decide

namespace Reader

theorem unit?_numbered : ∀ n ∈ numbered, n ≤ 0xFFFF ∧
    unit? (n / 4096).digitChar (n / 256 % 16).digitChar (n / 16 % 16).digitChar
      (n % 16).digitChar = some n := by
  decide

theorem stringUnits_plain {c : Char} (hquote : c ≠ '"') (hslash : c ≠ '\\')
    (hcode : ¬ c.toNat < 0x20) (rest : List Char) :
    stringUnits (c :: rest) =
      (stringUnits rest).map fun (us, rest) => (Text.unitsOf c.toNat ++ us, rest) := by
  rw [stringUnits.eq_def]
  split
  · contradiction
  · rename_i heq
    exact absurd (List.cons.inj heq).1 hquote
  · rename_i heq
    exact absurd (List.cons.inj heq).1 hslash
  · rename_i heq
    exact absurd (List.cons.inj heq).1 hslash
  · rename_i heq
    exact absurd (List.cons.inj heq).1 hslash
  · rename_i heq
    obtain ⟨rfl, rfl⟩ := List.cons.inj heq
    rw [if_neg hslash, if_neg hcode]

/-- A character of a string is read as its units. -/
theorem stringUnits_stringChar (c : Char) (rest : List Char) :
    stringUnits (stringChar c ++ rest) =
      (stringUnits rest).map fun (us, rest) => (Text.unitsOf c.toNat ++ us, rest) := by
  unfold stringChar
  split
  · rfl
  · rfl
  · rfl
  · rfl
  · rfl
  · rfl
  · rfl
  · rename_i hquote hslash _ _ _ _ _
    split
    · rename_i h
      have hcode : c.toNat ∈ numbered := by
        simp only [Bool.or_eq_true, decide_eq_true_eq] at h
        rcases h with ((((h | rfl) | rfl) | rfl) | h) | h
        · exact List.mem_append_left _ (List.mem_range.mpr h)
        · decide
        · decide
        · decide
        · rw [h]
          decide
        · rw [h]
          decide
      obtain ⟨hsmall, hunit⟩ := unit?_numbered _ hcode
      rw [padded_numbered _ hcode, Text.unitsOf, if_pos hsmall]
      simp only [List.cons_append, List.nil_append, stringUnits, hunit]
    · rename_i h
      refine stringUnits_plain hquote hslash (fun hcode => h ?_) rest
      simp [hcode]

theorem stringUnits_flatMap (cs rest : List Char) :
    stringUnits (cs.flatMap stringChar ++ '"' :: rest) =
      .ok (cs.flatMap fun c => Text.unitsOf c.toNat, rest) := by
  induction cs with
  | nil => rfl
  | cons c cs ih =>
    rw [List.flatMap_cons, List.append_assoc, stringUnits_stringChar, ih]
    rfl

/-- A string is read back from behind its opening quote. -/
theorem string_flatMap (s : String) (rest : List Char) :
    string (s.toList.flatMap stringChar ++ '"' :: rest) = .ok (s, rest) := by
  unfold string
  rw [stringUnits_flatMap]
  simp only [Except.map, Text.ofUnits_flatMap, String.ofList_toList]

end Reader

theorem stringText_append (s : String) (rest : List Char) :
    stringText s ++ rest = '"' :: (s.toList.flatMap stringChar ++ '"' :: rest) := by
  simp [stringText]

/-! ### Spellings -/

/-- Nothing but blanks. -/
def Blanks (cs : List Char) : Prop := ∀ c ∈ cs, Reader.isBlank c = true

mutual

/-- The text spells the value. -/
def Spells : Json → List Char → Prop
  | .null, t => t = word "null"
  | .bool b, t => t = word (if b then "true" else "false")
  | .number text, t => t = word text
  | .string s, t => t = stringText s
  | .array items, t => ∃ body, SpellsItems items body ∧ t = '[' :: body ++ [']']
  | .object members, t => ∃ body, SpellsMembers members body ∧ t = '\x7b' :: body ++ ['\x7d']

/-- The text is what stands between the brackets around the items. -/
def SpellsItems : List Json → List Char → Prop
  | [], t => Blanks t
  | [v], t => ∃ a u b, Blanks a ∧ v.Spells u ∧ Blanks b ∧ t = a ++ u ++ b
  | v :: vs, t => ∃ a u b body, Blanks a ∧ v.Spells u ∧ Blanks b ∧ SpellsItems vs body ∧
      t = a ++ u ++ b ++ ',' :: body

/-- The text is what stands between the braces around the members. -/
def SpellsMembers : List (String × Json) → List Char → Prop
  | [], t => Blanks t
  | [(k, v)], t => ∃ a b u c, Blanks a ∧ Blanks b ∧ v.Spells u ∧ Blanks c ∧
      t = a ++ stringText k ++ ':' :: b ++ u ++ c
  | (k, v) :: ms, t => ∃ a b u c body, Blanks a ∧ Blanks b ∧ v.Spells u ∧ Blanks c ∧
      SpellsMembers ms body ∧ t = a ++ stringText k ++ ':' :: b ++ u ++ c ++ ',' :: body

end

mutual

/-- The value can stand below `depth` containers, and there are no numbers in it. -/
def Fits (depth : Nat) : Json → Prop
  | .null | .bool _ | .string _ => True
  | .number _ => False
  | .array items => depth < Reader.maxDepth ∧ FitsItems (depth + 1) items
  | .object members => depth < Reader.maxDepth ∧ FitsMembers (depth + 1) members

def FitsItems (depth : Nat) : List Json → Prop
  | [] => True
  | v :: vs => v.Fits depth ∧ FitsItems depth vs

def FitsMembers (depth : Nat) : List (String × Json) → Prop
  | [] => True
  | (_, v) :: ms => v.Fits depth ∧ FitsMembers depth ms

end
/-! ### Reading a spelling -/

namespace Reader

theorem skip_blanks {b : List Char} (hb : Blanks b) (cs : List Char) : skip (b ++ cs) = skip cs :=
  List.dropWhile_append_of_pos hb

theorem skip_mark {c : Char} (hc : isBlank c = false) (cs : List Char) :
    skip (c :: cs) = c :: cs :=
  List.dropWhile_cons_of_neg (by simp [hc])

theorem skip_skip (cs : List Char) : skip (skip cs) = skip cs := by
  induction cs with
  | nil => rfl
  | cons c cs ih =>
    cases hc : isBlank c with
    | false => rw [skip_mark hc, skip_mark hc]
    | true =>
      have hskip : skip (c :: cs) = skip cs := List.dropWhile_cons_of_pos hc
      rw [hskip, ih]

theorem valueWithin_skip (steps depth : Nat) (cs : List Char) :
    valueWithin steps depth (skip cs) = valueWithin steps depth cs := by
  cases steps with
  | zero => simp only [valueWithin]
  | succ n => simp only [valueWithin, skip_skip]

theorem itemsWithin_skip (steps depth : Nat) (cs : List Char) :
    itemsWithin steps depth (skip cs) = itemsWithin steps depth cs := by
  cases steps with
  | zero => simp only [itemsWithin]
  | succ n => simp only [itemsWithin, valueWithin_skip]

theorem membersWithin_skip (steps depth : Nat) (cs : List Char) :
    membersWithin steps depth (skip cs) = membersWithin steps depth cs := by
  cases steps with
  | zero => simp only [membersWithin]
  | succ n => simp only [membersWithin, skip_skip]

theorem valueWithin_blanks {b : List Char} (hb : Blanks b) (steps depth : Nat) (cs : List Char) :
    valueWithin steps depth (b ++ cs) = valueWithin steps depth cs := by
  rw [← valueWithin_skip, skip_blanks hb, valueWithin_skip]

/-- A value starts with a mark that is no closing bracket. -/
theorem spells_cons {depth : Nat} {v : Json} {t : List Char} (hfits : v.Fits depth)
    (h : v.Spells t) : ∃ c cs, t = c :: cs ∧ isBlank c = false ∧ c ≠ ']' := by
  cases v with
  | null => exact ⟨'n', _, h, by decide, by decide⟩
  | bool b =>
    cases b with
    | false => exact ⟨'f', _, h, by decide, by decide⟩
    | true => exact ⟨'t', _, h, by decide, by decide⟩
  | number text => exact hfits.elim
  | string s => exact ⟨'"', _, h, by decide, by decide⟩
  | array items =>
    obtain ⟨body, _, rfl⟩ := h
    exact ⟨'[', _, rfl, by decide, by decide⟩
  | object members =>
    obtain ⟨body, _, rfl⟩ := h
    exact ⟨'\x7b', _, rfl, by decide, by decide⟩

theorem valueWithin_array {n depth : Nat} {cs rest : List Char} {items : List Json}
    (hdepth : depth < maxDepth) (hopen : ∀ tail, skip cs ≠ ']' :: tail)
    (h : itemsWithin n (depth + 1) cs = .ok (items, rest)) :
    valueWithin (n + 1) depth ('[' :: cs) = .ok (.array items, rest) := by
  unfold valueWithin
  rw [skip_mark (by decide)]
  simp only [hdepth, if_true]
  rw [itemsWithin_skip, h]
  rfl

theorem valueWithin_emptyArray {n depth : Nat} {b : List Char} (hdepth : depth < maxDepth)
    (hb : Blanks b) (rest : List Char) :
    valueWithin (n + 1) depth ('[' :: (b ++ ']' :: rest)) = .ok (.array [], rest) := by
  unfold valueWithin
  rw [skip_mark (by decide)]
  simp only [hdepth, if_true, skip_blanks hb, skip_mark (by decide : isBlank ']' = false)]

theorem valueWithin_object {n depth : Nat} {cs rest : List Char} {members : List (String × Json)}
    (hdepth : depth < maxDepth) (hopen : ∀ tail, skip cs ≠ '\x7d' :: tail)
    (h : membersWithin n (depth + 1) cs = .ok (members, rest)) :
    valueWithin (n + 1) depth ('\x7b' :: cs) = .ok (.object members, rest) := by
  unfold valueWithin
  rw [skip_mark (by decide)]
  simp only [hdepth, if_true]
  rw [membersWithin_skip, h]
  rfl

theorem valueWithin_emptyObject {n depth : Nat} {b : List Char} (hdepth : depth < maxDepth)
    (hb : Blanks b) (rest : List Char) :
    valueWithin (n + 1) depth ('\x7b' :: (b ++ '\x7d' :: rest)) = .ok (.object [], rest) := by
  unfold valueWithin
  rw [skip_mark (by decide)]
  simp only [hdepth, if_true, skip_blanks hb, skip_mark (by decide : isBlank '\x7d' = false)]

/-- Items do not start with the bracket that closes them. -/
theorem skip_items {depth : Nat} {v : Json} {vs : List Json} {body : List Char}
    (hv : v.Fits depth) (h : SpellsItems (v :: vs) body) (cs tail : List Char) :
    skip (body ++ cs) ≠ ']' :: tail := by
  obtain ⟨a, u, after, ha, hu, rfl⟩ :
      ∃ a u after, Blanks a ∧ v.Spells u ∧ body = a ++ (u ++ after) := by
    cases vs with
    | nil =>
      obtain ⟨a, u, b, ha, hu, _, rfl⟩ := h
      exact ⟨a, u, b, ha, hu, by simp⟩
    | cons w vs =>
      obtain ⟨a, u, b, body, ha, hu, _, _, rfl⟩ := h
      exact ⟨a, u, b ++ ',' :: body, ha, hu, by simp⟩
  obtain ⟨c, u, rfl, hblank, hne⟩ := spells_cons hv hu
  rw [List.append_assoc, skip_blanks ha, List.cons_append, List.cons_append, skip_mark hblank]
  exact fun heq => hne (List.cons.inj heq).1

/-- Members start with a name. -/
theorem skip_members {m : String × Json} {ms : List (String × Json)} {body : List Char}
    (h : SpellsMembers (m :: ms) body) (cs : List Char) :
    ∃ tail, skip (body ++ cs) = '"' :: tail := by
  obtain ⟨a, after, ha, rfl⟩ : ∃ a after, Blanks a ∧ body = a ++ (stringText m.1 ++ after) := by
    obtain ⟨k, v⟩ := m
    cases ms with
    | nil =>
      obtain ⟨a, b, u, c, ha, _, _, _, rfl⟩ := h
      exact ⟨a, ':' :: b ++ u ++ c, ha, by simp⟩
    | cons m ms =>
      obtain ⟨a, b, u, c, body, ha, _, _, _, _, rfl⟩ := h
      exact ⟨a, ':' :: b ++ u ++ c ++ ',' :: body, ha, by simp⟩
  rw [List.append_assoc, skip_blanks ha, List.append_assoc, stringText_append,
    skip_mark (by decide)]
  exact ⟨_, rfl⟩

mutual

/-- **A spelling is read as the value it spells.** One step for each character of it
is enough. -/
theorem valueWithin_spells : ∀ (v : Json) {depth steps : Nat} {t : List Char} (rest : List Char),
    v.Fits depth → v.Spells t → t.length ≤ steps →
    valueWithin steps depth (t ++ rest) = .ok (v, rest)
  | .null, depth, steps, t, rest, _, h, hsteps => by
    subst h
    obtain ⟨n, rfl⟩ : ∃ n, steps = n + 1 := ⟨steps - 1, by simp [word] at hsteps; omega⟩
    rfl
  | .bool b, depth, steps, t, rest, _, h, hsteps => by
    subst h
    cases b with
    | false =>
      obtain ⟨n, rfl⟩ : ∃ n, steps = n + 1 := ⟨steps - 1, by simp [word] at hsteps; omega⟩
      rfl
    | true =>
      obtain ⟨n, rfl⟩ : ∃ n, steps = n + 1 := ⟨steps - 1, by simp [word] at hsteps; omega⟩
      rfl
  | .number _, _, _, _, _, hfits, _, _ => hfits.elim
  | .string s, depth, steps, t, rest, _, h, hsteps => by
    subst h
    obtain ⟨n, rfl⟩ : ∃ n, steps = n + 1 := ⟨steps - 1, by simp [stringText] at hsteps; omega⟩
    rw [stringText_append]
    unfold valueWithin
    rw [skip_mark (by decide)]
    simp only [string_flatMap, Except.map]
  | .array items, depth, steps, t, rest, ⟨hdepth, hfits⟩, h, hsteps => by
    obtain ⟨body, hbody, rfl⟩ := h
    have hlength : body.length + 2 ≤ steps := by
      simp only [List.length_append, List.length_cons, List.length_nil] at hsteps
      omega
    obtain ⟨n, rfl⟩ : ∃ n, steps = n + 1 := ⟨steps - 1, by omega⟩
    rw [List.cons_append, List.cons_append, List.append_assoc, List.singleton_append]
    cases items with
    | nil => exact valueWithin_emptyArray hdepth hbody rest
    | cons v vs =>
      exact valueWithin_array hdepth (skip_items hfits.1 hbody _)
        (itemsWithin_spells (v :: vs) rest (by simp) hfits hbody (by omega))
  | .object members, depth, steps, t, rest, ⟨hdepth, hfits⟩, h, hsteps => by
    obtain ⟨body, hbody, rfl⟩ := h
    have hlength : body.length + 2 ≤ steps := by
      simp only [List.length_append, List.length_cons, List.length_nil] at hsteps
      omega
    obtain ⟨n, rfl⟩ : ∃ n, steps = n + 1 := ⟨steps - 1, by omega⟩
    rw [List.cons_append, List.cons_append, List.append_assoc, List.singleton_append]
    cases members with
    | nil => exact valueWithin_emptyObject hdepth hbody rest
    | cons m ms =>
      obtain ⟨tail, htail⟩ := skip_members hbody ('\x7d' :: rest)
      exact valueWithin_object hdepth (fun _ heq => by rw [htail] at heq; cases heq)
        (membersWithin_spells (m :: ms) rest (by simp) hfits hbody (by omega))

theorem itemsWithin_spells : ∀ (vs : List Json) {depth steps : Nat} {t : List Char}
    (rest : List Char), vs ≠ [] → FitsItems depth vs → SpellsItems vs t → t.length + 1 ≤ steps →
    itemsWithin steps depth (t ++ ']' :: rest) = .ok (vs, rest)
  | [], _, _, _, _, hne, _, _, _ => absurd rfl hne
  | [v], depth, steps, t, rest, _, ⟨hv, _⟩, h, hsteps => by
    obtain ⟨a, u, b, ha, hu, hb, rfl⟩ := h
    obtain ⟨n, rfl⟩ : ∃ n, steps = n + 1 := ⟨steps - 1, by omega⟩
    simp only [List.length_append] at hsteps
    have hlength : u.length ≤ n := by omega
    have hread := valueWithin_spells v (b ++ ']' :: rest) hv hu hlength
    unfold itemsWithin
    rw [List.append_assoc, List.append_assoc, valueWithin_blanks ha, hread]
    simp only [skip_blanks hb, skip_mark (by decide : isBlank ']' = false)]
  | v :: w :: vs, depth, steps, t, rest, _, ⟨hv, hvs⟩, h, hsteps => by
    obtain ⟨a, u, b, body, ha, hu, hb, hbody, rfl⟩ := h
    obtain ⟨n, rfl⟩ : ∃ n, steps = n + 1 := ⟨steps - 1, by omega⟩
    simp only [List.length_append, List.length_cons] at hsteps
    have hlength : u.length ≤ n := by omega
    have hlengths : body.length + 1 ≤ n := by omega
    have hread := valueWithin_spells v (b ++ ',' :: (body ++ ']' :: rest)) hv hu hlength
    have hmore := itemsWithin_spells (w :: vs) rest (by simp) hvs hbody hlengths
    unfold itemsWithin
    rw [List.append_assoc, List.append_assoc, List.append_assoc, List.cons_append,
      valueWithin_blanks ha, hread]
    simp only [skip_blanks hb, skip_mark (by decide : isBlank ',' = false), hmore, Except.map]

theorem membersWithin_spells : ∀ (ms : List (String × Json)) {depth steps : Nat} {t : List Char}
    (rest : List Char), ms ≠ [] → FitsMembers depth ms → SpellsMembers ms t →
    t.length + 1 ≤ steps → membersWithin steps depth (t ++ '\x7d' :: rest) = .ok (ms, rest)
  | [], _, _, _, _, hne, _, _, _ => absurd rfl hne
  | [(k, v)], depth, steps, t, rest, _, ⟨hv, _⟩, h, hsteps => by
    obtain ⟨a, b, u, c, ha, hb, hu, hc, rfl⟩ := h
    obtain ⟨n, rfl⟩ : ∃ n, steps = n + 1 := ⟨steps - 1, by omega⟩
    simp only [List.length_append, List.length_cons] at hsteps
    have hlength : u.length ≤ n := by omega
    have hread := valueWithin_spells v (c ++ '\x7d' :: rest) hv hu hlength
    unfold membersWithin
    simp only [List.append_assoc, List.cons_append, skip_blanks ha, stringText_append,
      skip_mark (by decide : isBlank '"' = false), string_flatMap,
      skip_mark (by decide : isBlank ':' = false), valueWithin_blanks hb, hread, skip_blanks hc,
      skip_mark (by decide : isBlank '\x7d' = false)]
  | (k, v) :: m :: ms, depth, steps, t, rest, _, ⟨hv, hms⟩, h, hsteps => by
    obtain ⟨a, b, u, c, body, ha, hb, hu, hc, hbody, rfl⟩ := h
    obtain ⟨n, rfl⟩ : ∃ n, steps = n + 1 := ⟨steps - 1, by omega⟩
    simp only [List.length_append, List.length_cons] at hsteps
    have hlength : u.length ≤ n := by omega
    have hlengths : body.length + 1 ≤ n := by omega
    have hread := valueWithin_spells v (c ++ ',' :: (body ++ '\x7d' :: rest)) hv hu hlength
    have hmore := membersWithin_spells (m :: ms) rest (by simp) hms hbody hlengths
    unfold membersWithin
    simp only [List.append_assoc, List.cons_append, skip_blanks ha, stringText_append,
      skip_mark (by decide : isBlank '"' = false), string_flatMap,
      skip_mark (by decide : isBlank ':' = false), valueWithin_blanks hb, hread, skip_blanks hc,
      skip_mark (by decide : isBlank ',' = false), hmore, Except.map]

end

end Reader

/-! ### The two layouts -/

theorem blanks_nil : Blanks [] := fun _ h => by cases h

theorem blanks_space : Blanks [' '] := by
  intro c hc
  rw [List.mem_singleton.mp hc]
  decide

theorem blanks_newline (depth : Nat) : Blanks (newline depth) := by
  intro c hc
  rcases List.mem_cons.mp hc with rfl | hc
  · decide
  · rw [List.eq_of_mem_replicate hc]
    decide

mutual

/-- A value on one line is a spelling of it. -/
theorem compact_spells : ∀ v : Json, v.Spells v.compact
  | .null | .bool _ | .number _ | .string _ => rfl
  | .array items => ⟨compactItems items, compactItems_spells items, rfl⟩
  | .object members => ⟨compactMembers members, compactMembers_spells members, rfl⟩

theorem compactItems_spells : ∀ vs : List Json, SpellsItems vs (compactItems vs)
  | [] => blanks_nil
  | [v] => ⟨[], v.compact, [], blanks_nil, compact_spells v, blanks_nil, by simp [compactItems]⟩
  | v :: w :: vs =>
    ⟨[], v.compact, [], compactItems (w :: vs), blanks_nil, compact_spells v, blanks_nil,
      compactItems_spells (w :: vs), by simp [compactItems]⟩

theorem compactMembers_spells : ∀ ms : List (String × Json), SpellsMembers ms (compactMembers ms)
  | [] => blanks_nil
  | [(k, v)] =>
    ⟨[], [], v.compact, [], blanks_nil, blanks_nil, compact_spells v, blanks_nil,
      by simp [compactMembers]⟩
  | (k, v) :: m :: ms =>
    ⟨[], [], v.compact, [], compactMembers (m :: ms), blanks_nil, blanks_nil, compact_spells v,
      blanks_nil, compactMembers_spells (m :: ms), by simp [compactMembers]⟩

end

mutual

/-- A value over several lines is a spelling of it, however deep it starts. -/
theorem indented_spells : ∀ (v : Json) (depth : Nat), v.Spells (v.indented depth)
  | .null, _ | .bool _, _ | .number _, _ | .string _, _ => rfl
  | .array [], _ => ⟨[], blanks_nil, rfl⟩
  | .array (v :: vs), depth =>
    ⟨_, indentedItems_spells (v :: vs) (depth + 1) (by simp) (blanks_newline depth), by
      simp [indented]⟩
  | .object [], _ => ⟨[], blanks_nil, rfl⟩
  | .object (m :: ms), depth =>
    ⟨_, indentedMembers_spells (m :: ms) (depth + 1) (by simp) (blanks_newline depth), by
      simp [indented]⟩

theorem indentedItems_spells : ∀ (vs : List Json) (depth : Nat) {after : List Char}, vs ≠ [] →
    Blanks after → SpellsItems vs (indentedItems depth vs ++ after)
  | [], _, _, hne, _ => absurd rfl hne
  | [v], depth, after, _, hafter =>
    ⟨newline depth, v.indented depth, after, blanks_newline depth, indented_spells v depth, hafter,
      by simp [indentedItems]⟩
  | v :: w :: vs, depth, after, _, hafter =>
    ⟨newline depth, v.indented depth, [], indentedItems depth (w :: vs) ++ after,
      blanks_newline depth, indented_spells v depth, blanks_nil,
      indentedItems_spells (w :: vs) depth (by simp) hafter, by simp [indentedItems]⟩

theorem indentedMembers_spells : ∀ (ms : List (String × Json)) (depth : Nat) {after : List Char},
    ms ≠ [] → Blanks after → SpellsMembers ms (indentedMembers depth ms ++ after)
  | [], _, _, hne, _ => absurd rfl hne
  | [(k, v)], depth, after, _, hafter =>
    ⟨newline depth, [' '], v.indented depth, after, blanks_newline depth, blanks_space,
      indented_spells v depth, hafter, by simp [indentedMembers]⟩
  | (k, v) :: m :: ms, depth, after, _, hafter =>
    ⟨newline depth, [' '], v.indented depth, [], indentedMembers depth (m :: ms) ++ after,
      blanks_newline depth, blanks_space, indented_spells v depth, blanks_nil,
      indentedMembers_spells (m :: ms) depth (by simp) hafter, by simp [indentedMembers]⟩

end

end Json

end TaintReach
