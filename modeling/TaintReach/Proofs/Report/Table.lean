import Mathlib.Data.List.Forall2
import TaintReach.Proofs.Index
import TaintReach.Proofs.Json.Grammar
import TaintReach.Report.Table

/-! Tables of reports are ordered maps.

However a table came about, its index says where each scope stands among the entries and
knows no other (`Kept`); adding and reading keep that (`Kept.add`, `kept_ofChars`). So
adding sets the report of one scope and moves none (`Kept.keys_add`, `Kept.get?_add`), and
many reports added come to the scopes in the order they came first, each with its last
report (`Kept.keys_addAll`, `Kept.get?_addAll`).

Reading a text adds the members of the object it starts with, in their order, to a new
table, and there is no other text that can be read (`readInto_eq_ok_iff`). Without their
index the tables are the plain ones of `Results`: both do the same under the same operations
(`Kept.results_run`), and fail alike (`results_ofChars`). -/
namespace TaintReach

open Json (Gap Chars Value Members)
open Json.Reader (skip isBlank)

/-! ### Reading an object -/

/-- The members have these names, and their values stand for these reports. -/
def StandFor (ms : List (String × Json)) (adds : List (String × Report)) : Prop :=
  List.Forall₂ (fun m a => m.1 = a.1 ∧ Report.ofJson? m.2 = some a.2) ms adds

/-- The text starts with an object, whose members stand for these reports in this order. -/
def ReportsAt (cs : List Char) (adds : List (String × Report)) : Prop :=
  ∃ t ms rest, Gap cs ('\x7b' :: t) ∧
    (ms = [] ∧ Gap t ('\x7d' :: rest) ∨ Members 0 t ms rest) ∧ StandFor ms adds

namespace Results

section
variable {σ : Type} {put : σ → String → Report → σ}

/-- What stands behind a member: the closing brace, or a comma and more members. -/
def Behind (cs : List Char) (ms : List (String × Json)) (rest : List Char) : Prop :=
  ms = [] ∧ Gap cs ('\x7d' :: rest) ∨ ∃ t, Gap cs (',' :: t) ∧ Members 0 t ms rest

/-- A member that was read, with what stands behind it, makes members by the grammar. -/
theorem readMemberInto_sound {r r' : σ} {cs after : List Char}
    (h : readMemberInto put r cs = .ok (r', after)) :
    ∃ scope v report, Report.ofJson? v = some report ∧ r' = put r scope report ∧
      ∀ t ms rest, Gap t ('"' :: cs) → Behind after ms rest →
        Members 0 t ((scope, v) :: ms) rest := by
  unfold readMemberInto at h
  split at h
  · cases h
  · rename_i scope cs₁ hscope
    obtain ⟨us, hus, rfl⟩ := Json.Reader.string_sound hscope
    split at h
    · rename_i cs₂ hcolon
      split at h
      · cases h
      · rename_i v cs₃ hvalue
        obtain ⟨u, hgap, hv⟩ := Json.Reader.valueWithin_sound hvalue
        split at h
        · cases h
        · rename_i report hreport
          cases h
          refine ⟨_, v, report, hreport, rfl, fun t ms rest hname hbehind => ?_⟩
          rcases hbehind with ⟨rfl, hend⟩ | ⟨t', hcomma, hms⟩
          · exact .last hname hus (Json.gap_of_skip hcolon) hgap hv hend
          · exact .more hname hus (Json.gap_of_skip hcolon) hgap hv hcomma hms
    · cases h

theorem readMoreInto_sound {steps : Nat} {r r' : σ} {cs : List Char}
    (h : readMoreInto put r steps cs = .ok r') :
    ∃ ms rest adds, Behind cs ms rest ∧ StandFor ms adds ∧
      r' = adds.foldl (fun r a => put r a.1 a.2) r := by
  induction steps generalizing r cs with
  | zero => cases h
  | succ n ih =>
    unfold readMoreInto at h
    split at h
    · rename_i rest hclose
      cases h
      exact ⟨[], rest, [], Or.inl ⟨rfl, Json.gap_of_skip hclose⟩, .nil, rfl⟩
    · rename_i t hcomma
      split at h
      · rename_i t₁ hname
        split at h
        · cases h
        · rename_i r₁ after hmember
          obtain ⟨scope, v, report, hreport, rfl, hmembers⟩ := readMemberInto_sound hmember
          obtain ⟨ms, rest, adds, hbehind, hadds, rfl⟩ := ih h
          have hms := hmembers t ms rest (Json.gap_of_skip hname) hbehind
          exact ⟨(scope, v) :: ms, rest, (scope, report) :: adds,
            Or.inr ⟨t, Json.gap_of_skip hcomma, hms⟩, .cons ⟨rfl, hreport⟩ hadds, rfl⟩
      · cases h
    · cases h

theorem readMemberInto_complete {t₁ t₂ t₃ t₄ t₅ tail : List Char} {us : List Nat} {v : Json}
    {c : Char} {report : Report} (hus : Chars t₁ us t₂) (hcolon : Gap t₂ (':' :: t₃))
    (hgap : Gap t₃ t₄) (hv : Value 0 t₄ v t₅) (hmark : Gap t₅ (c :: tail))
    (hc : c = ',' ∨ c = ']' ∨ c = '\x7d') (hreport : Report.ofJson? v = some report) (r : σ) :
    readMemberInto put r t₁ = .ok (put r (String.ofList (Text.ofUnits us)) report, t₅) ∧
      t₅.length < t₁.length := by
  obtain ⟨hread, hless⟩ := Json.Reader.value_complete hgap hv (Json.Reader.Gap.stops hmark hc)
  have hstring := (Json.Reader.stringUnits_complete hus).2
  have hlength := hcolon.length_le
  simp only [List.length_cons] at hlength
  unfold readMemberInto
  simp only [Json.Reader.string_complete hus, hcolon.skip_eq (by decide : isBlank ':' = false),
    hread, hreport]
  exact ⟨trivial, by omega⟩

/-- Members by the grammar are read, up to the brace that closes the object. -/
theorem readMembersInto_complete {t rest : List Char} {ms : List (String × Json)}
    {adds : List (String × Report)} (h : Members 0 t ms rest) (hadds : StandFor ms adds)
    {steps : Nat} (hsteps : t.length ≤ steps) (put : σ → String → Report → σ) (r : σ) :
    ∃ tail r₁ after, skip t = '"' :: tail ∧ readMemberInto put r tail = .ok (r₁, after) ∧
      readMoreInto put r₁ steps after = .ok (adds.foldl (fun r a => put r a.1 a.2) r) := by
  induction ms generalizing t adds steps r with
  | nil => cases h
  | cons m ms ih =>
    obtain ⟨⟨scope, report⟩, adds, ⟨hscope, hreport⟩, hrest, rfl⟩ :=
      List.forall₂_cons_left_iff.mp hadds
    subst hscope
    cases h with
    | last hname hus hcolon hgap hv hend =>
      obtain ⟨hmember, hless⟩ := readMemberInto_complete hus hcolon hgap hv hend (by simp) hreport r
      have hlength := hname.length_le
      simp only [List.length_cons] at hlength
      obtain ⟨n, rfl⟩ : ∃ n, steps = n + 1 := ⟨steps - 1, by omega⟩
      cases hrest
      refine ⟨_, _, _, hname.skip_eq rfl, hmember, ?_⟩
      unfold readMoreInto
      simp only [hend.skip_eq (by decide : isBlank '\x7d' = false)]
      rfl
    | more hname hus hcolon hgap hv hcomma hms =>
      rename_i t₆ us v
      obtain ⟨hmember, hless⟩ :=
        readMemberInto_complete hus hcolon hgap hv hcomma (by simp) hreport r
      have hlength := hname.length_le
      have hlength' := hcomma.length_le
      simp only [List.length_cons] at hlength hlength'
      obtain ⟨n, rfl⟩ : ∃ n, steps = n + 1 := ⟨steps - 1, by omega⟩
      have hroom : t₆.length ≤ n := by omega
      obtain ⟨tail, r₁, after, htail, hnext, hmore⟩ :=
        ih hms hrest hroom (put r (String.ofList (Text.ofUnits us)) report)
      refine ⟨_, _, _, hname.skip_eq rfl, hmember, ?_⟩
      unfold readMoreInto
      simp only [hcomma.skip_eq (by decide : isBlank ',' = false), htail, hnext, hmore]
      rfl

/-- **What is read is the object at the start of the text**, and nothing else can be. -/
theorem readInto_eq_ok_iff {r r' : σ} {cs : List Char} :
    readInto put r cs = .ok r' ↔
      ∃ adds, ReportsAt cs adds ∧ r' = adds.foldl (fun r a => put r a.1 a.2) r := by
  constructor
  · intro h
    unfold readInto at h
    split at h
    · rename_i t hopen
      have hopen := Json.gap_of_skip hopen
      split at h
      · rename_i rest hclose
        cases h
        exact ⟨[], ⟨t, [], rest, hopen, Or.inl ⟨rfl, Json.gap_of_skip hclose⟩, .nil⟩, rfl⟩
      · rename_i t₁ hname
        split at h
        · cases h
        · rename_i r₁ after hmember
          obtain ⟨scope, v, report, hreport, rfl, hmembers⟩ := readMemberInto_sound hmember
          obtain ⟨ms, rest, adds, hbehind, hadds, rfl⟩ := readMoreInto_sound h
          exact ⟨(scope, report) :: adds, ⟨t, (scope, v) :: ms, rest, hopen,
            Or.inr (hmembers t ms rest (Json.gap_of_skip hname) hbehind),
            .cons ⟨rfl, hreport⟩ hadds⟩, rfl⟩
      · cases h
    · cases h
    · split at h <;> cases h
  · rintro ⟨adds, ⟨t, ms, rest, hopen, hms, hadds⟩, rfl⟩
    have hlength := hopen.length_le
    unfold readInto
    rw [hopen.skip_eq rfl]
    rcases hms with ⟨rfl, hclose⟩ | hms
    · cases hadds
      simp only [hclose.skip_eq (by decide : isBlank '\x7d' = false)]
      rfl
    · obtain ⟨tail, r₁, after, htail, hmember, hmore⟩ :=
        readMembersInto_complete hms hadds (Nat.le_of_lt hlength) put r
      simp only [htail, hmember, hmore]

/-! ### Reading into two kinds of tables -/

/-- Two readings give what is related, or fail alike. -/
def Alike {α β : Type} (R : α → β → Prop) : Except ReadError α → Except ReadError β → Prop
  | .ok a, .ok b => R a b
  | .error e, .error e' => e = e'
  | _, _ => False

theorem Alike.error_or_ok {α β : Type} {R : α → β → Prop} {x : Except ReadError α}
    {y : Except ReadError β} (h : Alike R x y) :
    (∃ e, x = .error e ∧ y = .error e) ∨ ∃ a b, x = .ok a ∧ y = .ok b ∧ R a b := by
  cases x with
  | error e =>
    cases y with
    | error e' => exact Or.inl ⟨e, rfl, congrArg Except.error h.symm⟩
    | ok b => cases h
  | ok a =>
    cases y with
    | error e' => cases h
    | ok b => exact Or.inr ⟨a, b, rfl, rfl, h⟩

theorem Alike.map_eq {α β : Type} {P : α → Prop} {f : α → β} {x : Except ReadError α}
    {y : Except ReadError β} (h : Alike (fun a b => P a ∧ f a = b) x y) : x.map f = y := by
  rcases h.error_or_ok with ⟨e, rfl, rfl⟩ | ⟨a, b, rfl, rfl, -, hab⟩
  · rfl
  · exact congrArg Except.ok hab

section
variable {τ : Type} {put' : τ → String → Report → τ} {R : σ → τ → Prop}
  (hput : ∀ r r' scope report, R r r' → R (put r scope report) (put' r' scope report))
include hput

theorem readMemberInto_alike {r : σ} {r' : τ} (h : R r r') (cs : List Char) :
    Alike (fun a b => R a.1 b.1 ∧ a.2 = b.2) (readMemberInto put r cs)
      (readMemberInto put' r' cs) := by
  unfold readMemberInto
  rcases Json.Reader.string cs with _ | ⟨scope, behind⟩
  · rfl
  simp only
  split
  · rename_i rest _
    rcases Json.Reader.value rest with _ | ⟨v, after⟩
    · rfl
    simp only
    cases Report.ofJson? v with
    | none => rfl
    | some report => exact ⟨hput r r' scope report h, rfl⟩
  · rfl

theorem readMoreInto_alike {r : σ} {r' : τ} (h : R r r') (steps : Nat) (cs : List Char) :
    Alike R (readMoreInto put r steps cs) (readMoreInto put' r' steps cs) := by
  induction steps generalizing r r' cs with
  | zero => rfl
  | succ n ih =>
    unfold readMoreInto
    split
    · exact h
    · split
      · rename_i rest _
        rcases (readMemberInto_alike hput h rest).error_or_ok with
          ⟨e, hread, hread'⟩ | ⟨⟨a, after⟩, ⟨a', _⟩, hread, hread', ha, rfl⟩
        · rw [hread, hread']
          rfl
        · rw [hread, hread']
          exact ih ha after
      · rfl
    · rfl

theorem readInto_alike {r : σ} {r' : τ} (h : R r r') (cs : List Char) :
    Alike R (readInto put r cs) (readInto put' r' cs) := by
  unfold readInto
  split
  · split
    · exact h
    · rename_i rest _
      rcases (readMemberInto_alike hput h rest).error_or_ok with
        ⟨e, hread, hread'⟩ | ⟨⟨a, after⟩, ⟨a', _⟩, hread, hread', ha, rfl⟩
      · rw [hread, hread']
        rfl
      · rw [hread, hread']
        exact readMoreInto_alike hput ha cs.length after
    · rfl
  · rfl
  · split <;> rfl

end

end

end Results

/-! ### The index -/

namespace Table

/-- The index says where each scope stands, and scopes differ. -/
structure Kept (t : Table) : Prop where
  index : t.index.getD [] = indexOf t.keys
  keys : t.keys.Nodup

theorem kept_new : new.Kept := ⟨rfl, List.nodup_nil⟩

theorem kept_empty : ({} : Table).Kept := ⟨rfl, List.nodup_nil⟩

namespace Kept

variable {t : Table} (h : t.Kept)
include h

theorem place?_eq_some {k : String} {i : Nat} : t.place? k = some i ↔ t.keys[i]? = some k := by
  rw [place?, h.index, lookup_index h.keys]

theorem place?_eq_none {k : String} : t.place? k = none ↔ k ∉ t.keys := by
  rw [place?, h.index, lookup_index_eq_none]

/-- A report is found exactly if it is an entry. -/
theorem get?_eq_some {k : String} {r : Report} : t.get? k = some r ↔ (k, r) ∈ t.entries := by
  unfold get?
  rw [Option.bind_eq_some_iff]
  constructor
  · rintro ⟨i, hi, hr⟩
    rw [h.place?_eq_some, Table.keys, List.getElem?_map] at hi
    obtain ⟨⟨k', r'⟩, he, rfl⟩ := Option.map_eq_some_iff.mp hi
    rw [he] at hr
    cases hr
    exact List.mem_of_getElem? he
  · intro hmem
    obtain ⟨i, hi⟩ := List.getElem?_of_mem hmem
    refine ⟨i, h.place?_eq_some.mpr ?_, by rw [hi]; rfl⟩
    rw [Table.keys, List.getElem?_map, hi]
    rfl

theorem isSome_get? {k : String} : (t.get? k).isSome = true ↔ k ∈ t.keys := by
  rw [Option.isSome_iff_exists, Table.keys, List.mem_map]
  constructor
  · rintro ⟨r, hr⟩
    exact ⟨(k, r), h.get?_eq_some.mp hr, rfl⟩
  · rintro ⟨⟨k', r⟩, hmem, rfl⟩
    exact ⟨r, h.get?_eq_some.mpr hmem⟩

/-- The entry of a scope stands at its place, and no other does. -/
theorem entry_iff {scope : String} {i j : Nat} {e : String × Report}
    (hp : t.place? scope = some i) (he : t.entries[j]? = some e) : e.1 = scope ↔ i = j := by
  have hj : t.keys[j]? = some e.1 := by
    rw [Table.keys, List.getElem?_map, he]
    rfl
  constructor
  · rintro rfl
    exact Option.some.inj (hp.symm.trans (h.place?_eq_some.mpr hj))
  · rintro rfl
    exact Option.some.inj (hj.symm.trans (h.place?_eq_some.mp hp))

/-- Adding through the index is adding to the plain table. -/
theorem results_add (scope : String) (d : Draft) :
    (t.add scope d).results = t.results.add scope d.normalize := by
  unfold Table.add Results.add
  cases hp : t.place? scope with
  | some i =>
    have hmem : scope ∈ t.results.keys := List.mem_of_getElem? (h.place?_eq_some.mp hp)
    rw [if_pos hmem]
    refine congrArg Results.mk (List.ext_getElem? fun j => ?_)
    show (t.entries.modify i _)[j]? = (t.entries.map _)[j]?
    rw [List.getElem?_modify, List.getElem?_map]
    cases he : t.entries[j]? with
    | none => rfl
    | some e =>
      have hplace := h.entry_iff hp he
      by_cases hij : i = j
      · simp [hij, hplace.mpr hij]
      · simp [hij, mt hplace.mp hij]
  | none =>
    have hnew : scope ∉ t.results.keys := h.place?_eq_none.mp hp
    rw [if_neg hnew]
    rfl

theorem entries_add (scope : String) (d : Draft) :
    (t.add scope d).entries =
      if scope ∈ t.keys then t.entries.map fun e => if e.1 = scope then (scope, d.normalize) else e
      else t.entries ++ [(scope, d.normalize)] := by
  refine (congrArg Results.entries (h.results_add scope d)).trans ?_
  unfold Results.add
  exact apply_ite Results.entries _ _ _

theorem keys_add (scope : String) (d : Draft) :
    (t.add scope d).keys = if scope ∈ t.keys then t.keys else t.keys ++ [scope] := by
  rw [Table.keys, h.entries_add]
  split
  · rw [List.map_map]
    refine List.map_congr_left fun e _ => ?_
    by_cases he : e.1 = scope <;> simp [he]
  · simp [Table.keys]

theorem add (scope : String) (d : Draft) : (t.add scope d).Kept := by
  have hkeys := h.keys_add scope d
  constructor
  · rw [hkeys]
    unfold Table.add
    cases hp : t.place? scope with
    | some i =>
      rw [if_pos (List.mem_of_getElem? (h.place?_eq_some.mp hp))]
      exact h.index
    | none =>
      rw [if_neg (h.place?_eq_none.mp hp), index_concat, ← h.index]
      simp [Table.keys]
  · rw [hkeys]
    split
    · exact h.keys
    · rename_i hnew
      exact List.Nodup.append h.keys (List.nodup_singleton scope) (List.disjoint_singleton.mpr hnew)

/-- The entries after adding: the new one, and those of other scopes. -/
theorem mem_add (scope : String) (d : Draft) (e : String × Report) :
    e ∈ (t.add scope d).entries ↔ e = (scope, d.normalize) ∨ e ∈ t.entries ∧ e.1 ≠ scope := by
  rw [h.entries_add]
  split
  · rename_i hmem
    obtain ⟨old, hold, hname⟩ := List.mem_map.mp hmem
    constructor
    · intro he
      obtain ⟨e', he', rfl⟩ := List.mem_map.mp he
      split
      · exact Or.inl rfl
      · rename_i hne
        exact Or.inr ⟨he', hne⟩
    · rintro (rfl | ⟨he, hne⟩)
      · exact List.mem_map.mpr ⟨old, hold, if_pos hname⟩
      · exact List.mem_map.mpr ⟨e, he, if_neg hne⟩
  · rename_i hnew
    rw [List.mem_append, List.mem_singleton, or_comm]
    refine or_congr_right (iff_self_and.mpr fun he heq => hnew ?_)
    exact heq ▸ List.mem_map_of_mem he

/-- A report is found through the index as it is in the plain table. -/
theorem get?_results (k : String) : t.results.get? k = t.get? k := by
  refine Option.ext fun r => ?_
  rw [h.get?_eq_some]
  exact lookup_eq_some h.keys

/-- Adding sets the report of one scope and leaves the others. -/
theorem get?_add (scope k : String) (d : Draft) :
    (t.add scope d).get? k = if k = scope then some d.normalize else t.get? k := by
  refine Option.ext fun r => ?_
  rw [(h.add scope d).get?_eq_some, h.mem_add]
  split
  · rename_i heq
    simp [heq, eq_comm]
  · rename_i hne
    simp [hne, h.get?_eq_some]

end Kept

/-! ### Many reports -/

/-- Reports added one after the other. -/
def addAll (t : Table) (adds : List (String × Draft)) : Table :=
  adds.foldl (fun t a => t.add a.1 a.2) t

namespace Kept

theorem addAll {t : Table} (h : t.Kept) (adds : List (String × Draft)) : (t.addAll adds).Kept := by
  induction adds generalizing t with
  | nil => exact h
  | cons a adds ih => exact ih (h.add a.1 a.2)

/-- Scopes stand in the order they came first. -/
theorem keys_addAll {t : Table} (h : t.Kept) (adds : List (String × Draft)) :
    (t.addAll adds).keys = t.keys ++ ((adds.map Prod.fst).removeAll t.keys).eraseDups := by
  induction adds generalizing t with
  | nil => simp [Table.addAll, List.removeAll]
  | cons a adds ih =>
    have hstep : (t.addAll (a :: adds)).keys = ((t.add a.1 a.2).addAll adds).keys := rfl
    rw [hstep, ih (h.add a.1 a.2), h.keys_add]
    by_cases ha : a.1 ∈ t.keys
    · simp [ha, List.removeAll]
    · have hrest : (adds.map Prod.fst).removeAll (t.keys ++ [a.1]) =
          ((adds.map Prod.fst).removeAll t.keys).filter (!· == a.1) := by
        simp only [List.removeAll, List.filter_filter]
        refine List.filter_congr fun k _ => ?_
        by_cases hk : k = a.1 <;> simp [hk]
      have hfirst : ((a :: adds).map Prod.fst).removeAll t.keys =
          a.1 :: (adds.map Prod.fst).removeAll t.keys := by
        simp [List.removeAll, ha]
      rw [if_neg ha, hrest, hfirst, List.eraseDups_cons]
      simp

/-- Each scope has the last report that was added for it. -/
theorem get?_addAll {t : Table} (h : t.Kept) (adds : List (String × Draft)) (k : String) :
    (t.addAll adds).get? k = ((adds.reverse.lookup k).map Draft.normalize).or (t.get? k) := by
  induction adds generalizing t with
  | nil => rfl
  | cons a adds ih =>
    have hstep : (t.addAll (a :: adds)).get? k = ((t.add a.1 a.2).addAll adds).get? k := rfl
    rw [hstep, ih (h.add a.1 a.2), h.get?_add, List.reverse_cons, List.lookup_append]
    obtain ⟨scope, d⟩ := a
    cases adds.reverse.lookup k with
    | some d => rfl
    | none =>
      by_cases hk : k = scope
      · simp [hk]
      · have hother : (k == scope) = false := beq_false_of_ne hk
        simp [hk, hother, List.lookup_cons]

end Kept

/-! ### Reading -/

/-- The reports of an object, added to a new table. -/
def ofReports (adds : List (String × Report)) : Table :=
  new.addAll (adds.map fun a => (a.1, a.2.draft))

theorem ofChars_eq_ok_iff {cs : List Char} {t : Table} :
    ofChars cs = .ok t ↔ ∃ adds, ReportsAt cs adds ∧ t = ofReports adds := by
  unfold ofChars
  rw [Results.readInto_eq_ok_iff]
  refine exists_congr fun adds => and_congr_right fun _ => ?_
  rw [ofReports, addAll, List.foldl_map]

/-- Reading gives the same reports with and without an index, or the same error. -/
theorem results_ofChars (cs : List Char) : (ofChars cs).map results = Results.ofChars cs := by
  have hput : ∀ (t : Table) (r : Results) (scope : String) (report : Report),
      t.Kept ∧ t.results = r →
        (t.add scope report.draft).Kept ∧
          (t.add scope report.draft).results = r.add scope report := by
    rintro t r scope report ⟨hkept, rfl⟩
    exact ⟨hkept.add scope report.draft, hkept.results_add scope report.draft⟩
  exact (Results.readInto_alike hput ⟨kept_new, rfl⟩ cs).map_eq

/-- One thing that is done to a table. -/
inductive Op where
  | add (scope : String) (d : Draft)
  | read (text : List Char)

def perform (t : Table) : Op → Table
  | .add scope d => t.add scope d
  | .read text => (t.read text).1

/-- The same, done to a table without an index. -/
def Op.plain (r : Results) : Op → Results
  | .add scope d => r.add scope d.normalize
  | .read text => (Results.ofChars text).toOption.getD r

/-- The table after some operations. -/
def run (t : Table) (ops : List Op) : Table := ops.foldl perform t

/-- A text is read, or the table stays as it is. -/
theorem read_cases (t : Table) (text : List Char) :
    (∃ adds, ReportsAt text adds ∧ t.read text = (ofReports adds, none)) ∨
      (∀ adds, ¬ ReportsAt text adds) ∧ ∃ e, t.read text = (t, some e) := by
  unfold read
  cases hread : ofChars text with
  | ok filled =>
    obtain ⟨adds, hadds, rfl⟩ := ofChars_eq_ok_iff.mp hread
    exact Or.inl ⟨adds, hadds, rfl⟩
  | error e =>
    refine Or.inr ⟨fun adds hadds => ?_, e, rfl⟩
    rw [ofChars_eq_ok_iff.mpr ⟨adds, hadds, rfl⟩] at hread
    cases hread

theorem Kept.perform {t : Table} (h : t.Kept) (op : Op) : (t.perform op).Kept := by
  cases op with
  | add scope d => exact h.add scope d
  | read text =>
    show ((t.read text).1).Kept
    rcases t.read_cases text with ⟨adds, _, heq⟩ | ⟨_, e, heq⟩
    · rw [heq]
      exact kept_new.addAll _
    · rw [heq]
      exact h

theorem Kept.run {t : Table} (h : t.Kept) (ops : List Op) : (t.run ops).Kept := by
  induction ops generalizing t with
  | nil => exact h
  | cons op ops ih => exact ih (h.perform op)

theorem Kept.results_perform {t : Table} (h : t.Kept) (op : Op) :
    (t.perform op).results = op.plain t.results := by
  cases op with
  | add scope d => exact h.results_add scope d
  | read text =>
    show (t.read text).1.results = (Results.ofChars text).toOption.getD t.results
    rw [← results_ofChars, read]
    cases ofChars text <;> rfl

/-- **The index changes nothing.** A table does what the plain table of its entries does. -/
theorem Kept.results_run {t : Table} (h : t.Kept) (ops : List Op) :
    (t.run ops).results = ops.foldl Op.plain t.results := by
  induction ops generalizing t with
  | nil => rfl
  | cons op ops ih =>
    rw [List.foldl_cons, ← h.results_perform]
    exact ih (h.perform op)

/-- **A table is an ordered map, whatever was done to it.** Scopes differ, the index says of
each where it stands and knows no other, and a report is found exactly if its scope is
there, as the entry has it. Reports that are added go to the scopes in the order these came
first, the last report of a scope stays, and missing lists are empty. A text that starts
with an object of reports makes the table what its members add up to in their order,
whatever the table held; any other text leaves the table as it is. All of it is what the
plain table does under the same operations, which knows no index. -/
theorem insertion_ordered (start : Table) (hstart : start = new ∨ start = {}) (ops : List Op) :
    let t := start.run ops
    t.keys.Nodup ∧ t.size = t.keys.length ∧
    (∀ k i, t.place? k = some i ↔ t.keys[i]? = some k) ∧
    (∀ k r, t.get? k = some r ↔ (k, r) ∈ t.entries) ∧
    (∀ k, (t.get? k).isSome = true ↔ k ∈ t.keys) ∧
    (∀ adds, (t.addAll adds).keys = t.keys ++ ((adds.map Prod.fst).removeAll t.keys).eraseDups ∧
      ∀ k, (t.addAll adds).get? k =
        ((adds.reverse.lookup k).map Draft.normalize).or (t.get? k)) ∧
    (∀ text, (∃ adds, ReportsAt text adds ∧ t.read text = (ofReports adds, none)) ∨
      (∀ adds, ¬ ReportsAt text adds) ∧ ∃ e, t.read text = (t, some e)) ∧
    t.results = ops.foldl Op.plain {} ∧ (∀ k, t.results.get? k = t.get? k) ∧
    ∀ text, (ofChars text).map results = Results.ofChars text := by
  have hkept : (start.run ops).Kept := by
    rcases hstart with rfl | rfl
    · exact kept_new.run ops
    · exact kept_empty.run ops
  have hplain : (start.run ops).results = ops.foldl Op.plain {} := by
    rcases hstart with rfl | rfl
    · exact kept_new.results_run ops
    · exact kept_empty.results_run ops
  exact ⟨hkept.keys, List.length_map .. |>.symm, fun _ _ => hkept.place?_eq_some,
    fun _ _ => hkept.get?_eq_some, fun _ => hkept.isSome_get?,
    fun adds => ⟨hkept.keys_addAll adds, hkept.get?_addAll adds⟩, read_cases _, hplain,
    hkept.get?_results, results_ofChars⟩

/-- An object that breaks off behind its first member. -/
def broken : List Char := "\x7b\"g\": \x7b\x7d, \"h\": [".toList

/-- An object that names one scope twice. -/
def doubled : List Char :=
  "\x7b\"a\": null, \"b\": \x7b\x7d, \"a\": \x7b\"sources_that_may_reach_sinks\": [\"x@1\"]\x7d\x7d".toList

def mixed : List Op :=
  [.add "f" { must := some ["x@1"] }, .read broken, .add "e" {}, .add "f" {}]

theorem insertion_ordered_mixed :
    (({} : Table).run mixed).entries = [("f", {}), ("e", {})] ∧
      (∀ adds, ¬ ReportsAt broken adds) ∧
      ∃ adds, ReportsAt doubled adds ∧
        (({} : Table).run mixed).read doubled = (ofReports adds, none) ∧
        (ofReports adds).entries = [("a", { may := ["x@1"] }), ("b", {})] := by
  have hread : ((({} : Table).run mixed).read doubled).1.entries =
      [("a", { may := ["x@1"] }), ("b", {})] := by decide +kernel
  have hbroken : ((({} : Table).run mixed).read broken).2.isSome = true := by decide +kernel
  have hdoubled : ((({} : Table).run mixed).read doubled).2 = none := by decide +kernel
  obtain ⟨_, _, _, _, _, _, htexts, _⟩ := insertion_ordered {} (Or.inr rfl) mixed
  refine ⟨by decide +kernel, ?_, ?_⟩
  · rcases htexts broken with ⟨adds, _, heq⟩ | ⟨hnone, _⟩
    · rw [heq] at hbroken
      cases hbroken
    · exact hnone
  · rcases htexts doubled with ⟨adds, hadds, heq⟩ | ⟨_, e, heq⟩
    · rw [heq] at hread
      exact ⟨adds, hadds, heq, hread⟩
    · rw [heq] at hdoubled
      cases hdoubled

end Table

end TaintReach
