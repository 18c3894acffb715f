import TaintReach.Script.Reading

/-! What the name of a script matters for.

The name that a script goes by tells where the source map is that the script announces,
and is kept in the program. A map that is in the script itself is the same under every
name, and one that is in a file is so if both names lead to files with the same text
(`SourceMap.Location.Matches`). A script that can be read under two such names is the same
program under both (`readWith_agree`). -/
namespace TaintReach.Script

/-! ### Answers that agree -/

/-- Two answers do not contradict each other: if both are there, they are the same. -/
def Agree {α : Type} (x y : Option α) : Prop := ∀ a ∈ x, ∀ b ∈ y, a = b

namespace Agree

variable {α β : Type}

theorem refl (x : Option α) : Agree x x := fun _ ha _ hb => Option.some.inj (ha.symm.trans hb)

theorem none_left (y : Option α) : Agree none y := fun _ ha => nomatch ha

theorem none_right (x : Option α) : Agree x none := fun _ _ _ hb => nomatch hb

theorem bind {x y : Option α} {f g : α → Option β} (h : Agree x y) (hfg : ∀ a, Agree (f a) (g a)) :
    Agree (x >>= f) (y >>= g) := by
  cases x with
  | none => exact none_left _
  | some a =>
    cases y with
    | none => exact none_right _
    | some b =>
      obtain rfl := h a rfl b rfl
      exact hfg a

/-- One guard may let pass what the other does not. -/
theorem guarded {c c' : Prop} [Decidable c] [Decidable c'] {x x' y y' : Option α} (hx : x = none)
    (hx' : x' = none) (h : Agree y y') : Agree (if c then x else y) (if c' then x' else y') := by
  subst hx hx'
  split
  · exact none_left _
  · split
    · exact none_right _
    · exact h

theorem mapM {f g : α → Option β} (h : ∀ a, Agree (f a) (g a)) (xs : List α) :
    Agree (xs.mapM f) (xs.mapM g) := by
  induction xs with
  | nil => exact refl _
  | cons x xs ih =>
    rw [List.mapM_cons, List.mapM_cons]
    exact (h x).bind fun _ => ih.bind fun _ => refl _

end Agree

/-! ### Source maps -/

namespace SourceMap

-- The name only has to be an address where the map names no root of its own.
theorem mappings?_agree (file file' : String) (members : List (String × Json)) :
    Agree (mappings? file members) (mappings? file' members) := by
  unfold mappings?
  iterate 7 refine (Agree.refl _).bind fun _ => ?_
  exact Agree.guarded rfl rfl (Agree.refl _)

theorem section?_agree (file file' : String) (j : Json) :
    Agree (section? file j) (section? file' j) := by
  unfold section?
  iterate 5 refine (Agree.refl _).bind fun _ => ?_
  exact (mappings?_agree file file' _).bind fun _ => Agree.refl _

theorem read?_agree (file file' : String) (text : List Char) :
    Agree (read? file text) (read? file' text) := by
  unfold read?
  iterate 3 refine (Agree.refl _).bind fun _ => ?_
  split
  · exact (mappings?_agree file file' _).bind fun _ => Agree.refl _
  · refine (Agree.refl _).bind fun _ => ?_
    exact Agree.guarded rfl rfl
      ((Agree.mapM (section?_agree file file') _).bind fun _ => Agree.refl _)

/-- A map that is in the script is there under every name. -/
theorem location_eq_inline {file code : String} {text : Option (List Char)}
    (h : location file code = .inline text) (file' : String) :
    location file' code = .inline text := by
  unfold location at h ⊢
  dsimp only at h ⊢
  split at h
  case h_1 line _ =>
    by_cases hannounced : announcement.isPrefixOf line
    · rw [if_pos hannounced] at h ⊢
      by_cases hinline : inlineStart.isPrefixOf (line.drop announcement.length)
      · rw [if_pos hinline] at h ⊢
        exact h
      · rw [if_neg hinline] at h
        split at h
        · split at h <;> cases h
        · cases h
    · rw [if_neg hannounced] at h
      cases h
  case h_2 => cases h

/-- Two places hold the same text as far as files are concerned: both are files with this
text, or none is a file. -/
inductive Location.Matches (load : String → Option String) : Location → Location → Prop
  | files {path path' : String} (h : load path = load path') :
    Matches load (.file path) (.file path')
  | elsewhere {l l' : Location} (h : ∀ path, l ≠ .file path) (h' : ∀ path, l' ≠ .file path) :
    Matches load l l'

/-- The map that a text holds, as an answer to `find`. -/
theorem find_of_text {load : String → Option String} {file code : String}
    {text : Option (List Char)} (h : location file code = .inline text ∨
      ∃ path, location file code = .file path ∧ (load path).map String.toList = text) :
    (find load file code).toOption = (text.bind (read? file)).bind fun m => some (some m) := by
  unfold find
  rcases h with h | ⟨path, h, rfl⟩
  · rw [h]
    dsimp only
    cases text.bind (read? file) <;> rfl
  · rw [h]
    dsimp only
    cases ((load path).map String.toList).bind (read? file) <;> rfl

/-- A script has one map at most under two names that lead to the same text. -/
theorem find_agree {load : String → Option String} {file file' code : String}
    (h : (location file code).Matches load (location file' code)) :
    Agree (find load file code).toOption (find load file' code).toOption := by
  have hread : ∀ text : Option (List Char),
      Agree ((text.bind (read? file)).bind fun m => some (some m))
        ((text.bind (read? file')).bind fun m => some (some m)) := fun text =>
    ((Agree.refl text).bind (read?_agree file file')).bind fun _ => Agree.refl _
  generalize hl : location file code = l at h
  generalize hl' : location file' code = l' at h
  cases h with
  | files hload =>
    rw [find_of_text (.inr ⟨_, hl, rfl⟩), find_of_text (.inr ⟨_, hl', rfl⟩), hload]
    exact hread _
  | elsewhere hfile hfile' =>
    cases l with
    | file path => exact absurd rfl (hfile path)
    | inline text =>
      rw [find_of_text (.inl hl), find_of_text (.inl (location_eq_inline hl file'))]
      exact hread text
    | elsewhere =>
      simp only [find, hl]
      exact Agree.none_left _
    | none =>
      cases l' with
      | file path => exact absurd rfl (hfile' path)
      | inline text => exact absurd (hl.symm.trans (location_eq_inline hl' file)) (by simp)
      | elsewhere =>
        simp only [find, hl']
        exact Agree.none_right _
      | none =>
        simp only [find, hl, hl']
        exact Agree.refl _

/-- A map hangs on the one file that the script names, if it names one. -/
theorem find_congr {load load' : String → Option String} {file code : String}
    (h : ∀ path, location file code = .file path → load path = load' path) :
    find load file code = find load' file code := by
  unfold find
  cases hl : location file code with
  | file path => simp only [h path hl]
  | none | inline _ | elsewhere => rfl

end SourceMap

/-! ### Programs -/

open TaintReach.Script.Parser (parse parseFrom SyntaxError)

/-- What a script is once its map is known. -/
def parseMapped (code : String) (map : Option SourceMap) : Except SyntaxError Ast := do
  let start : Parser.State :=
    { current := default, after := { rest := code.toList }, canEnd := false }
  let ast ← parseFrom start
  match map with
  | none => return ast
  | some map => parseFrom { start with lineOf := map.lineOf, noLine := map.noLine }

theorem parse_eq_ok {load : String → Option String} {file code : String} {ast : Ast}
    (h : parse load file code = .ok ast) :
    ∃ map, SourceMap.find load file code = .ok map ∧ parseMapped code map = .ok ast := by
  unfold parse at h
  cases hfind : SourceMap.find load file code with
  | error =>
    -- The script may be one, but without its map it is not read.
    rw [hfind] at h
    dsimp only [bind, Except.bind] at h
    split at h <;> cases h
  | ok map =>
    rw [hfind] at h
    refine ⟨map, rfl, ?_⟩
    cases map <;> exact h

/-- A script that can be read under two names that lead to the same map is the same under
both. -/
theorem parse_agree {load : String → Option String} {file file' code : String} {ast ast' : Ast}
    (hmaps : (SourceMap.location file code).Matches load (SourceMap.location file' code))
    (h : parse load file code = .ok ast) (h' : parse load file' code = .ok ast') : ast = ast' := by
  obtain ⟨map, hmap, hast⟩ := parse_eq_ok h
  obtain ⟨map', hmap', hast'⟩ := parse_eq_ok h'
  have hsame : map = map' :=
    SourceMap.find_agree hmaps map (by rw [hmap]; rfl) map' (by rw [hmap']; rfl)
  subst hsame
  exact Except.ok.inj (hast.symm.trans hast')

theorem readWith_eq_ok {load : String → Option String} {file code : String} {p : Program}
    (h : readWith load file code = .ok p) :
    ∃ ast, parse load file code = .ok ast ∧ p = .ofTrees file (Stmt.trees ast) := by
  unfold readWith at h
  cases hast : parse load file code with
  | error =>
    rw [hast] at h
    cases h
  | ok ast =>
    rw [hast] at h
    exact ⟨ast, rfl, (Except.ok.inj h).symm⟩

/-- A script that can be read under two names that lead to the same map is the same program
under both, apart from the name. -/
theorem readWith_agree {load : String → Option String} {file file' code : String}
    {p p' : Program}
    (hmaps : (SourceMap.location file code).Matches load (SourceMap.location file' code))
    (h : readWith load file code = .ok p) (h' : readWith load file' code = .ok p') :
    p' = { p with file := file' } := by
  obtain ⟨ast, hast, rfl⟩ := readWith_eq_ok h
  obtain ⟨ast', hast', rfl⟩ := readWith_eq_ok h'
  rw [parse_agree hmaps hast hast']
  rfl

/-- A script hangs on the one file that it names, if it names one. -/
theorem readWith_congr {load load' : String → Option String} {file code : String}
    (h : ∀ path, SourceMap.location file code = .file path → load path = load' path) :
    readWith load file code = readWith load' file code := by
  unfold readWith parse
  rw [SourceMap.find_congr h]

end TaintReach.Script
