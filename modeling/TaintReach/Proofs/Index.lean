import Mathlib.Data.List.Nodup

/-! Positions by key.

A list that is also searched by key has an index beside it, which grows by one pair
with every item appended. Latest first, it is the list of positions in reverse
(`index_concat`), and as long as no key comes twice it finds each key where it stands
and no other (`lookup_index`). -/
namespace TaintReach

variable {ks : List String} {k : String}

/-- The position of every key, latest first. -/
def indexOf (ks : List String) : List (String × Nat) := ks.zipIdx.reverse

theorem index_concat (ks : List String) (k : String) :
    indexOf (ks ++ [k]) = (k, ks.length) :: indexOf ks := by
  simp [indexOf, List.zipIdx_append]

theorem mem_index {i : Nat} : (k, i) ∈ indexOf ks ↔ ks[i]? = some k := by
  rw [indexOf, List.mem_reverse, List.mk_mem_zipIdx_iff_getElem?]

/-- Where no key comes twice, what is found is what is there. -/
theorem lookup_eq_some {α : Type} {l : List (String × α)} (h : (l.map Prod.fst).Nodup) {a : α} :
    l.lookup k = some a ↔ (k, a) ∈ l := by
  constructor
  · intro hlookup
    obtain ⟨front, back, hsplit, _⟩ := List.lookup_eq_some_iff.mp hlookup
    rw [hsplit]
    exact List.mem_append_right _ List.mem_cons_self
  · intro hmem
    obtain ⟨front, back, hsplit⟩ := List.append_of_mem hmem
    refine List.lookup_eq_some_iff.mpr ⟨front, back, hsplit, fun e he => ?_⟩
    rw [hsplit, List.map_append, List.map_cons] at h
    have hne := (List.nodup_append.mp h).2.2 e.1 (List.mem_map_of_mem he) k List.mem_cons_self
    simpa using Ne.symm hne

/-- The index finds exactly what stands in the list. -/
theorem lookup_index (h : ks.Nodup) {i : Nat} :
    (indexOf ks).lookup k = some i ↔ ks[i]? = some k := by
  have hkeys : (indexOf ks).map Prod.fst = ks.reverse := by simp [indexOf]
  rw [lookup_eq_some (hkeys ▸ List.nodup_reverse.mpr h), mem_index]

theorem lookup_index_eq_none : (indexOf ks).lookup k = none ↔ k ∉ ks := by
  rw [List.lookup_eq_none_iff]
  constructor
  · intro h hk
    obtain ⟨i, hi⟩ := List.getElem?_of_mem hk
    simpa using h _ (mem_index.mpr hi)
  · rintro h ⟨k', i⟩ he
    have hk' : k' ∈ ks := List.mem_of_getElem? (mem_index.mp he)
    simpa using fun heq : k = k' => h (heq ▸ hk')

end TaintReach
