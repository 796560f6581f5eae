import Mathlib.Data.List.Nodup
import Mathlib.Data.List.Perm.Subperm

/-!
# Maps that remember their insertions

A map whose entries are in the order in which their keys were first set; a key that is set
again keeps its place.  Entries are dropped by a condition, or as the oldest ones beyond a size.

* `InsertionMap.mem_set`: what a map holds after a key has been set.
* `InsertionMap.length_le`: a map has no more entries than a list that has all its keys.
-/

namespace OpenUnion.Ranking

/-- A map in insertion order. -/
@[ext]
structure InsertionMap (κ ν : Type*) where
  entries : List (κ × ν)
  nodup : (entries.map Prod.fst).Nodup

namespace InsertionMap

variable {κ ν : Type*} {m : InsertionMap κ ν} {k : κ} {v : ν} {e : κ × ν}

/-- The map without entries. -/
def empty : InsertionMap κ ν := ⟨[], List.nodup_nil⟩

/-- The keys, oldest first. -/
def keys (m : InsertionMap κ ν) : List κ := m.entries.map Prod.fst

theorem mem_keys : k ∈ m.keys ↔ ∃ v, (k, v) ∈ m.entries := by
  simp [keys]

/-- Only some of the entries. -/
def filter (m : InsertionMap κ ν) (p : κ × ν → Bool) : InsertionMap κ ν :=
  ⟨m.entries.filter p, m.nodup.sublist (List.filter_sublist.map Prod.fst)⟩

@[simp] theorem mem_filter {p : κ × ν → Bool} :
    e ∈ (m.filter p).entries ↔ e ∈ m.entries ∧ p e = true := List.mem_filter

theorem filter_of_all {p : κ × ν → Bool} (h : ∀ e ∈ m.entries, p e = true) : m.filter p = m :=
  InsertionMap.ext (List.filter_eq_self.mpr h)

/-- The newest entries, at most `max` of them. -/
def newest (m : InsertionMap κ ν) (max : Nat) : InsertionMap κ ν :=
  ⟨m.entries.drop (m.entries.length - max), m.nodup.sublist ((List.drop_sublist _ _).map Prod.fst)⟩

theorem newest_of_le {max : Nat} (h : m.entries.length ≤ max) : m.newest max = m := by
  have hdrop : m.entries.drop (m.entries.length - max) = m.entries := by
    rw [Nat.sub_eq_zero_of_le h, List.drop_zero]
  exact InsertionMap.ext hdrop

theorem newest_subset {max : Nat} (h : e ∈ (m.newest max).entries) : e ∈ m.entries :=
  List.mem_of_mem_drop h

/-- A map has no more entries than a list with all its keys. -/
theorem length_le {ks : List κ} (h : ∀ k ∈ m.keys, k ∈ ks) : m.entries.length ≤ ks.length := by
  have hle : m.keys.length ≤ ks.length := (List.subperm_of_subset m.nodup h).length_le
  simpa [keys] using hle

section Setting

variable [DecidableEq κ]

/-- The entries with the value of a key replaced. -/
def replaced (entries : List (κ × ν)) (k : κ) (v : ν) : List (κ × ν) :=
  entries.map fun e => if e.1 = k then (k, v) else e

theorem replaced_keys (entries : List (κ × ν)) :
    (replaced entries k v).map Prod.fst = entries.map Prod.fst := by
  rw [replaced, List.map_map]
  refine List.map_congr_left fun e _ => ?_
  by_cases he : e.1 = k
  · simp [he]
  · simp [he]

/-- Set a key. -/
def set (m : InsertionMap κ ν) (k : κ) (v : ν) : InsertionMap κ ν :=
  if h : k ∈ m.entries.map Prod.fst then
    ⟨replaced m.entries k v, by rw [replaced_keys]; exact m.nodup⟩
  else
    ⟨m.entries ++ [(k, v)], by
      rw [List.map_append]
      exact m.nodup.append (List.nodup_singleton k) (by simpa using h)⟩

/-- The key has the new value, and the other keys have theirs. -/
theorem mem_set : e ∈ (m.set k v).entries ↔ e = (k, v) ∨ e ∈ m.entries ∧ e.1 ≠ k := by
  by_cases h : k ∈ m.entries.map Prod.fst
  · rw [set, dif_pos h]
    simp only [replaced, List.mem_map]
    constructor
    · rintro ⟨x, hx, rfl⟩
      by_cases hk : x.1 = k
      · exact Or.inl (by rw [if_pos hk])
      · rw [if_neg hk]
        exact Or.inr ⟨hx, hk⟩
    · rintro (rfl | ⟨he, hk⟩)
      · obtain ⟨x, hx, hk⟩ := List.mem_map.mp h
        exact ⟨x, hx, by rw [if_pos hk]⟩
      · exact ⟨e, he, by rw [if_neg hk]⟩
  · rw [set, dif_neg h]
    simp only [List.mem_append, List.mem_singleton]
    constructor
    · rintro (he | rfl)
      · exact Or.inr ⟨he, fun hk => h (hk ▸ List.mem_map_of_mem he)⟩
      · exact Or.inl rfl
    · rintro (rfl | ⟨he, -⟩)
      · exact Or.inr rfl
      · exact Or.inl he

/-- A key that is not there is added at the end. -/
theorem set_new (h : k ∉ m.keys) : (m.set k v).entries = m.entries ++ [(k, v)] := by
  have hnot : k ∉ m.entries.map Prod.fst := h
  rw [set, dif_neg hnot]

/-- There is at most one entry more. -/
theorem length_set : (m.set k v).entries.length ≤ m.entries.length + 1 := by
  by_cases h : k ∈ m.entries.map Prod.fst
  · simp [set, dif_pos h, replaced]
  · simp [set, dif_neg h]

end Setting

end InsertionMap

end OpenUnion.Ranking
