import TaintReach.Proofs.Json.Spelling
import TaintReach.Report.Format

/-! Reports are read back from their text.

A table of reports is an object, one member for each scope. Whatever blanks stand in
its text, reading it member by member adds the reports in their order
(`readMembers_spells`), and as no scope stands in a table twice this gives the table
again (`addAll_entries`). Both JSON layouts of a document are such texts, so both are
read as the reports they show, for any names and ids (`Document.reports_read_back`). -/
namespace TaintReach

open Json (Blanks Spells SpellsMembers)
open Json.Reader (skip isBlank skip_blanks skip_mark)

/-! ### One report -/

theorem idsOver_strings (old ids : List String) : idsOver old (ids.map .string) = some ids := by
  induction ids generalizing old with
  | nil => rfl
  | cons id ids ih =>
    simp only [List.map_cons, idsOver]
    rw [ih]

theorem Slots.fill?_strings (ids : List String) :
    ({} : Slots).fill? (.array (ids.map .string)) = some ⟨ids, []⟩ := by
  cases ids with
  | nil => rfl
  | cons id ids =>
    have hids := idsOver_strings [] (id :: ids)
    rw [List.map_cons] at hids
    simp only [List.map_cons, Slots.fill?, List.append_nil]
    rw [hids]
    rfl

namespace Report

/-- A report is what its value stands for. -/
theorem ofJson?_json (r : Report) : Report.ofJson? r.json = some r := by
  have hmust : matchesKey mustKey mustKey = true := by decide
  have hother : matchesKey mustKey mayKey = false := by decide
  have hmay : matchesKey mayKey mayKey = true := by decide
  simp only [json, ofJson?, ofMembers, hmust, hother, hmay, if_true, Bool.false_eq_true, if_false,
    Slots.fill?_strings]

theorem fitsItems_strings (depth : Nat) (ids : List String) :
    Json.FitsItems depth (ids.map .string) := by
  induction ids with
  | nil => trivial
  | cons id ids ih => exact ⟨trivial, ih⟩

theorem fits_json {depth : Nat} (hdepth : depth + 1 < Json.Reader.maxDepth) (r : Report) :
    r.json.Fits depth :=
  ⟨Nat.lt_of_succ_lt hdepth, ⟨hdepth, fitsItems_strings _ r.must⟩,
    ⟨hdepth, fitsItems_strings _ r.may⟩, trivial⟩

end Report

/-! ### Tables -/

namespace Results

/-- Reports added one after the other. -/
def addAll (r : Results) (adds : List (String × Report)) : Results :=
  adds.foldl (fun r a => r.add a.1 a.2) r

/-- The members of the object that shows some entries. -/
def members (entries : List (String × Report)) : List (String × Json) :=
  entries.map fun e => (e.1, e.2.json)

theorem fits_members {depth : Nat} (hdepth : depth + 1 < Json.Reader.maxDepth)
    (entries : List (String × Report)) : Json.FitsMembers depth (members entries) := by
  induction entries with
  | nil => trivial
  | cons e entries ih => exact ⟨e.2.fits_json hdepth, ih⟩

/-- A value that starts a text is read from it, behind any blanks. -/
theorem value_spells {b u : List Char} {v : Json} (hb : Blanks b) (hfits : v.Fits 0)
    (hu : v.Spells u) (rest : List Char) :
    Json.Reader.value (b ++ (u ++ rest)) = .ok (v, rest) := by
  unfold Json.Reader.value
  rw [Json.Reader.valueWithin_blanks hb]
  refine Json.Reader.valueWithin_spells v rest hfits hu ?_
  simp only [List.length_append]
  omega

/-- One member adds its report. -/
theorem readMember_spells {b u : List Char} {scope : String} {report : Report} (hb : Blanks b)
    (hu : report.json.Spells u) (r : Results) (rest : List Char) :
    r.readMember (scope.toList.flatMap Json.stringChar ++ '"' :: ':' :: (b ++ (u ++ rest))) =
      .ok (r.add scope report, rest) := by
  have hfits : report.json.Fits 0 := report.fits_json (by decide)
  unfold readMember readMemberInto
  simp only [Json.Reader.string_flatMap, skip_mark (by decide : isBlank ':' = false),
    value_spells hb hfits hu, report.ofJson?_json]

/-- The members of a table add their reports in order, up to the brace that closes it. -/
theorem readMembers_spells (entries : List (String × Report)) (scope : String) (report : Report)
    {t : List Char} (rest : List Char) {steps : Nat} (r : Results)
    (h : SpellsMembers (members ((scope, report) :: entries)) t) (hsteps : entries.length < steps) :
    ∃ tail after, skip (t ++ '\x7d' :: rest) = '"' :: tail ∧
      r.readMember tail = .ok (r.add scope report, after) ∧
      (r.add scope report).readMore steps after = .ok (r.addAll ((scope, report) :: entries)) := by
  obtain ⟨n, rfl⟩ : ∃ n, steps = n + 1 := ⟨steps - 1, by omega⟩
  induction entries generalizing scope report t n r with
  | nil =>
    obtain ⟨a, b, u, c, ha, hb, hu, hc, rfl⟩ := h
    refine ⟨_, c ++ '\x7d' :: rest, ?_, readMember_spells hb hu r _, ?_⟩
    · simp only [List.append_assoc, List.cons_append, skip_blanks ha, Json.stringText_append,
        skip_mark (by decide : isBlank '"' = false)]
    · unfold readMore readMoreInto
      simp only [skip_blanks hc, skip_mark (by decide : isBlank '\x7d' = false)]
      rfl
  | cons e entries ih =>
    obtain ⟨a, b, u, c, body, ha, hb, hu, hc, hbody, rfl⟩ := h
    obtain ⟨m, rfl⟩ : ∃ m, n = m + 1 := ⟨n - 1, by simp at hsteps; omega⟩
    obtain ⟨tail, after, htail, hmember, hmore⟩ :=
      ih e.1 e.2 (r.add scope report) hbody m (by simp at hsteps; omega)
    refine ⟨_, c ++ ',' :: (body ++ '\x7d' :: rest), ?_, readMember_spells hb hu r _, ?_⟩
    · simp only [List.append_assoc, List.cons_append, skip_blanks ha, Json.stringText_append,
        skip_mark (by decide : isBlank '"' = false)]
    · unfold readMore readMoreInto
      simp only [skip_blanks hc, skip_mark (by decide : isBlank ',' = false), htail, hmember, hmore]
      rfl

/-- A member takes at least one character. -/
theorem length_le_of_spells : ∀ {ms : List (String × Json)} {t : List Char}, SpellsMembers ms t →
    ms.length ≤ t.length
  | [], _, _ => Nat.zero_le _
  | [(k, v)], t, h => by
    obtain ⟨a, b, u, c, _, _, _, _, rfl⟩ := h
    simp only [List.length_append, List.length_cons, List.length_nil]
    omega
  | (k, v) :: m :: ms, t, h => by
    obtain ⟨a, b, u, c, body, _, _, _, _, hbody, rfl⟩ := h
    have hmore := length_le_of_spells hbody
    simp only [List.length_append, List.length_cons] at hmore ⊢
    omega

/-- A spelling of a table is read as what its entries add up to. -/
theorem ofChars_spells (entries : List (String × Report)) {t : List Char}
    (h : (Json.object (members entries)).Spells t) (rest : List Char) :
    ofChars (t ++ rest) = .ok (({} : Results).addAll entries) := by
  obtain ⟨body, hbody, rfl⟩ := h
  unfold ofChars readInto
  rw [List.append_assoc, List.cons_append, List.singleton_append, skip_mark (by decide)]
  cases entries with
  | nil =>
    simp only [skip_blanks hbody, skip_mark (by decide : isBlank '\x7d' = false)]
    rfl
  | cons e entries =>
    have hlength := length_le_of_spells hbody
    have hsteps : entries.length < ('\x7b' :: (body ++ '\x7d' :: rest)).length := by
      simp only [members, List.map_cons, List.length_cons, List.length_map, List.length_append]
        at hlength ⊢
      omega
    obtain ⟨tail, after, htail, hmember, hmore⟩ :=
      readMembers_spells entries e.1 e.2 rest {} hbody hsteps
    simp only [htail, hmember, hmore]

/-! ### What is added up -/

theorem keys_add (r : Results) (scope : String) (report : Report) :
    (r.add scope report).keys = if scope ∈ r.keys then r.keys else r.keys ++ [scope] := by
  unfold add
  split
  · unfold keys
    rw [List.map_map]
    refine List.map_congr_left fun e _ => ?_
    simp only [Function.comp_apply]
    split
    · exact Eq.symm ‹_›
    · rfl
  · simp [keys]

/-- No scope stands in a table twice. -/
theorem nodup_keys_addAll (adds : List (String × Report)) {r : Results} (h : r.keys.Nodup) :
    (r.addAll adds).keys.Nodup := by
  induction adds generalizing r with
  | nil => exact h
  | cons a adds ih =>
    refine ih ?_
    rw [keys_add]
    split
    · exact h
    · rename_i hnew
      exact List.nodup_append.mpr ⟨h, by simp, fun x hx y hy heq => hnew (by simp_all)⟩

/-- Entries of different scopes, none of them known, come behind those that are there. -/
theorem addAll_entries (entries : List (String × Report)) {r : Results}
    (h : (r.keys ++ entries.map Prod.fst).Nodup) : r.addAll entries = ⟨r.entries ++ entries⟩ := by
  induction entries generalizing r with
  | nil => rw [List.append_nil]; rfl
  | cons e entries ih =>
    have hnew : e.1 ∉ r.keys := fun hmem =>
      (List.nodup_append.mp h).2.2 e.1 hmem e.1 List.mem_cons_self rfl
    have hadd : r.add e.1 e.2 = ⟨r.entries ++ [e]⟩ := if_neg hnew
    have hkeys : (⟨r.entries ++ [e]⟩ : Results).keys = r.keys ++ [e.1] := by simp [keys]
    calc r.addAll (e :: entries) = (r.add e.1 e.2).addAll entries := rfl
      _ = (⟨r.entries ++ [e]⟩ : Results).addAll entries := by rw [hadd]
      _ = ⟨(r.entries ++ [e]) ++ entries⟩ := ih (by rw [hkeys]; simpa using h)
      _ = ⟨r.entries ++ e :: entries⟩ := by simp

theorem addAll_self {r : Results} (h : r.keys.Nodup) : ({} : Results).addAll r.entries = r := by
  rw [addAll_entries r.entries (r := {}) h]
  rfl

/-- A text that starts with a spelling of a table whose scopes differ, and has only
blanks behind it, is read as the table. -/
theorem read_spells {r : Results} (hkeys : r.keys.Nodup) {t b : List Char}
    (h : r.json.Spells t) (hb : Blanks b) :
    ofChars (t ++ b) = .ok r ∧ ofText (String.ofList (t ++ b)) = .ok r := by
  have hread : ofChars (t ++ b) = .ok r := by
    rw [ofChars_spells r.entries h b, addAll_self hkeys]
  have hfits : r.json.Fits 0 := ⟨by decide, fits_members (by decide) r.entries⟩
  have hvalue : Json.Reader.value (t ++ b) = .ok (r.json, b) :=
    value_spells Json.blanks_nil hfits h b
  have hend : skip b = [] := by
    rw [← List.append_nil b, skip_blanks hb]
    rfl
  refine ⟨hread, ?_⟩
  unfold ofText Json.Reader.whole
  rw [String.toList_ofList, hvalue]
  simp only [hend, hread]

end Results

/-- **Reports are read back from both JSON layouts.** However a table was built, and
whatever its names and ids hold, both texts are written and read, as the start of a
text and as a text of their own, and what is read are the reports in their order. -/
theorem Document.reports_read_back (adds : List (String × Report))
    (scopes : List (String × Scope)) (color : Bool) :
    let d : Document := ⟨({} : Results).addAll adds, scopes⟩
    (∃ text, d.render "json" color = .ok text ∧
      Results.ofChars text.toList = .ok d.results ∧ Results.ofText text = .ok d.results) ∧
    (∃ text, d.render "compact" color = .ok text ∧
      Results.ofChars text.toList = .ok d.results ∧ Results.ofText text = .ok d.results) := by
  intro d
  have hkeys : d.results.keys.Nodup := Results.nodup_keys_addAll adds List.nodup_nil
  have hread : ∀ {t}, d.results.json.Spells t →
      Results.ofChars (String.ofList (t ++ ['\n'])).toList = .ok d.results ∧
        Results.ofText (String.ofList (t ++ ['\n'])) = .ok d.results := by
    intro t ht
    rw [String.toList_ofList]
    exact Results.read_spells hkeys ht (Json.blanks_newline 0)
  exact ⟨⟨d.json, rfl, hread (Json.indented_spells d.results.json 0)⟩,
    ⟨d.compact, rfl, hread (Json.compact_spells d.results.json)⟩⟩

end TaintReach
