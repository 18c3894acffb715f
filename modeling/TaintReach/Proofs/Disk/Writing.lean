import Mathlib.Data.List.Infix
import TaintReach.Disk

/-! What writing a file does to a disk.

A path is followed through directories only, so a file that can be written lies in
directories that are there already (`rests_of_resolve`). Writing it puts a file at its
place and leaves all other files, the directories and hence the places of all paths as
they were (`written_of_write`). -/
namespace TaintReach.Disk

/-! ### Files -/

theorem lookup_replace (entries : List (List String × Entry)) (place q : List String) (e : Entry) :
    (entries.map fun x => if x.1 = place then (place, e) else x).lookup q =
      if q = place then (entries.lookup q).map fun _ => e else entries.lookup q := by
  induction entries with
  | nil => simp
  | cons x entries ih =>
    rw [List.map_cons, List.lookup_cons, List.lookup_cons, ih]
    by_cases hx : x.1 = place
    · by_cases hq : q = place
      · simp [hq, hx]
      · simp [hq, hx, beq_false_of_ne hq]
    · by_cases hq : q = x.1
      · simp [hq, hx]
      · simp [hx, beq_false_of_ne hq]

theorem lookup_put (d : Disk) (place q : List String) (e : Entry) :
    (d.put place e).entries.lookup q = if q = place then some e else d.entries.lookup q := by
  unfold put
  split
  · rename_i hany
    have hthere : d.entries.lookup place ≠ none := by
      obtain ⟨x, hx, hplace⟩ := List.any_eq_true.mp hany
      intro hnone
      have hne := List.lookup_eq_none_iff.mp hnone x hx
      rw [decide_eq_true_iff] at hplace
      simp [hplace] at hne
    rw [lookup_replace]
    by_cases hq : q = place
    · obtain ⟨old, hold⟩ := Option.ne_none_iff_exists'.mp hthere
      rw [if_pos hq, if_pos hq, hq, hold]
      rfl
    · rw [if_neg hq, if_neg hq]
  · rename_i hany
    rw [List.lookup_append]
    by_cases hq : q = place
    · have hnone : d.entries.lookup place = none := by
        rw [List.lookup_eq_none_iff]
        intro x hx
        have hne : x.1 ≠ place := fun h => hany (List.any_eq_true.mpr ⟨x, hx, by simp [h]⟩)
        exact bne_iff_ne.mpr hne.symm
      rw [if_pos hq, hq, hnone]
      simp
    · simp [hq, List.lookup_cons, beq_false_of_ne hq]

theorem content?_put (d : Disk) (place q : List String) (text : String) :
    (d.put place (.file text)).content? q =
      if q = place then some text else d.content? q := by
  unfold content?
  rw [lookup_put]
  by_cases hq : q = place
  · rw [if_pos hq, if_pos hq]
  · rw [if_neg hq, if_neg hq]

/-! ### Directories -/

theorem isDirectory_iff {d : Disk} {place : List String} :
    d.isDirectory place = true ↔
      place <+: d.base ∨ (place, .directory) ∈ d.entries ∨
        ∃ x ∈ d.entries, place <+: x.1 ∧ x.1 ≠ place := by
  unfold isDirectory
  simp only [Bool.or_eq_true, List.any_eq_true, Bool.and_eq_true,
    decide_eq_true_iff, List.isPrefixOf_iff_prefix]
  refine or_congr_right ⟨?_, ?_⟩
  · rintro ⟨⟨path, entry⟩, hx, ⟨rfl, rfl⟩ | ⟨hfront, hne⟩⟩
    · exact .inl hx
    · exact .inr ⟨_, hx, hfront, hne⟩
  · rintro (hx | ⟨x, hx, hfront, hne⟩)
    · exact ⟨_, hx, .inl ⟨rfl, rfl⟩⟩
    · exact ⟨x, hx, .inr ⟨hfront, hne⟩⟩

/-- What lies above a directory is a directory. -/
theorem isDirectory_above {d : Disk} {place above : List String}
    (h : d.isDirectory place = true) (habove : above <+: place) : d.isDirectory above = true := by
  by_cases hsame : above = place
  · rw [hsame, h]
  rw [isDirectory_iff] at h ⊢
  rcases h with hbase | hdir | ⟨x, hx, hfront, hne⟩
  · exact .inl (habove.trans hbase)
  · exact .inr (.inr ⟨_, hdir, habove, Ne.symm hsame⟩)
  · refine .inr (.inr ⟨x, hx, habove.trans hfront, fun heq => hsame ?_⟩)
    exact habove.eq_of_length_le (heq ▸ hfront.length_le)

/-- Only directories lie strictly above a place. -/
def Rests (d : Disk) (place : List String) : Prop :=
  ∀ above, above <+: place → above ≠ place → d.isDirectory above = true

theorem rests_of_locate {d : Disk} {names place final : List String} (hplace : d.Rests place)
    (h : d.locate place names = .ok final) : d.Rests final := by
  induction names generalizing place with
  | nil =>
    obtain rfl : place = final := by simpa [locate] using h
    exact hplace
  | cons name names ih =>
    unfold locate at h
    split at h
    · rename_i hdir
      split at h
      · exact ih hplace h
      split at h
      · refine ih (fun above habove _ => ?_) h
        exact isDirectory_above hdir (habove.trans place.dropLast_prefix)
      · refine ih (fun above habove hne => ?_) h
        rcases List.prefix_concat_iff.mp habove with heq | hfront
        · exact absurd heq hne
        · exact isDirectory_above hdir hfront
    · split at h <;> cases h

/-- The root and the working directory lie in directories. -/
theorem rests_origin (d : Disk) (path : String) : d.Rests (d.origin path) := by
  intro above habove _
  have hbase : d.origin path <+: d.base := by
    unfold origin
    split
    · exact List.nil_prefix
    · exact List.prefix_refl _
  exact isDirectory_iff.mpr (.inl (habove.trans hbase))

theorem rests_of_resolve {d : Disk} {path : String} {place : List String}
    (h : d.resolve path = .ok place) : d.Rests place := by
  unfold resolve at h
  split at h
  · cases h
  · exact rests_of_locate (d.rests_origin path) h

theorem base_put (d : Disk) (place : List String) (e : Entry) : (d.put place e).base = d.base := by
  unfold put
  split <;> rfl

theorem mem_put {d : Disk} {place : List String} {e : Entry} {x : List String × Entry} :
    x ∈ (d.put place e).entries ↔ x = (place, e) ∨ (x ∈ d.entries ∧ x.1 ≠ place) := by
  unfold put
  split
  · rename_i hany
    obtain ⟨old, hold, hplace⟩ := List.any_eq_true.mp hany
    rw [decide_eq_true_iff] at hplace
    rw [List.mem_map]
    constructor
    · rintro ⟨y, hy, rfl⟩
      by_cases hne : y.1 = place
      · exact .inl (if_pos hne)
      · rw [if_neg hne]
        exact .inr ⟨hy, hne⟩
    · rintro (rfl | ⟨hx, hne⟩)
      · exact ⟨old, hold, if_pos hplace⟩
      · exact ⟨x, hx, if_neg hne⟩
  · rename_i hany
    have hnone : ∀ y ∈ d.entries, y.1 ≠ place := fun y hy heq =>
      hany (List.any_eq_true.mpr ⟨y, hy, by simp [heq]⟩)
    rw [List.mem_append, List.mem_singleton, or_comm]
    exact or_congr_right ⟨fun hx => ⟨hx, hnone x hx⟩, And.left⟩

/-- A file put into directories, where no directory is, makes no directory and takes none
away. -/
theorem isDirectory_put {d : Disk} {place : List String} (hrests : d.Rests place)
    (hfile : d.isDirectory place = false) (text : String) (q : List String) :
    (d.put place (.file text)).isDirectory q = d.isDirectory q := by
  rw [Bool.eq_iff_iff]
  constructor
  · intro h
    rcases isDirectory_iff.mp h with hbase | hdir | ⟨x, hx, hfront, hne⟩
    · exact isDirectory_iff.mpr (.inl (d.base_put place _ ▸ hbase))
    · rcases mem_put.mp hdir with heq | ⟨hold, _⟩
      · cases heq
      · exact isDirectory_iff.mpr (.inr (.inl hold))
    · rcases mem_put.mp hx with rfl | ⟨hold, _⟩
      · exact hrests q hfront hne.symm
      · exact isDirectory_iff.mpr (.inr (.inr ⟨x, hold, hfront, hne⟩))
  · intro h
    refine isDirectory_iff.mpr ?_
    rcases isDirectory_iff.mp h with hbase | hdir | ⟨x, hx, hfront, hne⟩
    · exact .inl ((d.base_put place _).symm ▸ hbase)
    · refine .inr (.inl (mem_put.mpr (.inr ⟨hdir, ?_⟩)))
      rintro rfl
      exact Bool.false_ne_true (hfile.symm.trans h)
    · by_cases hplace : x.1 = place
      · exact .inr (.inr ⟨_, mem_put.mpr (.inl rfl), hplace ▸ hfront, hplace ▸ hne⟩)
      · exact .inr (.inr ⟨x, mem_put.mpr (.inr ⟨hx, hplace⟩), hfront, hne⟩)

/-! ### Paths -/

/-- The place that a path names, if it can be followed. -/
def place? (d : Disk) (path : String) : Option (List String) := (d.resolve path).toOption

theorem place?_of_resolve {d : Disk} {path : String} {place : List String}
    (h : d.resolve path = .ok place) : d.place? path = some place := by
  rw [place?, h]
  rfl

theorem locate_congr {d d' : Disk} (h : ∀ q, d'.isDirectory q = d.isDirectory q)
    (place names : List String) :
    (d'.locate place names).toOption = (d.locate place names).toOption := by
  induction names generalizing place with
  | nil => rfl
  | cons name names ih =>
    unfold locate
    rw [h]
    split
    · split
      · exact ih _
      split
      · exact ih _
      · exact ih _
    · split <;> split <;> rfl

/-- Paths are followed through directories, so they name the same places on disks with the
same directories. -/
theorem place?_congr {d d' : Disk} (hbase : d'.base = d.base)
    (h : ∀ q, d'.isDirectory q = d.isDirectory q) (path : String) :
    d'.place? path = d.place? path := by
  unfold place? resolve origin
  rw [hbase]
  split
  · rfl
  · exact locate_congr h _ _

theorem read_eq_ok_iff {d : Disk} {path text : String} :
    d.read path = .ok text ↔
      ∃ place, d.place? path = some place ∧ d.content? place = some text := by
  unfold read place?
  cases hres : d.resolve path with
  | error r => simp [Except.toOption]
  | ok place =>
    simp only [Except.toOption, Option.some.injEq, exists_eq_left']
    cases d.content? place with
    | none => simp
    | some old => simp

/-! ### Writing -/

/-- What a file that is written makes of a disk: a file at its place, with all else as it
was. -/
structure Written (d : Disk) (place : List String) (text : String) (d' : Disk) : Prop where
  content? : ∀ q, d'.content? q = if q = place then some text else d.content? q
  place? : ∀ path, d'.place? path = d.place? path

theorem written_of_write {d d' : Disk} {path text : String}
    (h : d.write path text = (.ok (), d')) :
    ∃ place, d.place? path = some place ∧ d.Written place text d' := by
  unfold write at h
  split at h
  · cases h
  · rename_i place hplace
    split at h
    · cases h
    · rename_i hfile
      rw [Bool.not_eq_true] at hfile
      obtain ⟨_, rfl⟩ := Prod.mk.inj h
      have hdirs := isDirectory_put (rests_of_resolve hplace) hfile text
      exact ⟨place, place?_of_resolve hplace, fun q => content?_put d place q text,
        place?_congr (d.base_put place _) hdirs⟩

end TaintReach.Disk
