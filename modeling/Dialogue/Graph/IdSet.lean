import Std.Data.HashSet
/-!
Sets of ids.
-/

namespace Dialogue

/-- A set of ids. -/
abbrev IdSet := Std.HashSet String

namespace IdSet

/-- The set of the ids of a list. -/
def ofList (ids : List String) : IdSet :=
  Std.HashSet.ofList ids

theorem mem_ofList {ids : List String} {id : String} : id ∈ ofList ids ↔ id ∈ ids := by
  rw [ofList, Std.HashSet.mem_ofList, List.contains_iff_mem]

/-- The ids of a set, in increasing order. -/
def sorted (s : IdSet) : List String :=
  s.toList.mergeSort (· ≤ ·)

/-- A set with a member is larger than without it. -/
theorem size_erase_add_one {s : IdSet} {id : String} (h : id ∈ s) :
    (s.erase id).size + 1 = s.size := by
  have hne : s.isEmpty = false := Std.HashSet.isEmpty_eq_false_iff_exists_mem.2 ⟨id, h⟩
  rw [Std.HashSet.isEmpty_eq_size_eq_zero] at hne
  have hpos : s.size ≠ 0 := by simpa using hne
  rw [Std.HashSet.size_erase, if_pos h]
  omega

/-- The ids of a list that are not in a set. -/
def missing (s : IdSet) (ids : List String) : List String :=
  ids.filter (!s.contains ·)

/-- Fewer ids are missing once one of them is put in. -/
theorem length_missing_insert_lt {s : IdSet} {ids : List String} {id : String} (hid : id ∈ ids)
    (hs : id ∉ s) : (missing (s.insert id) ids).length < (s.missing ids).length := by
  have hfilter : missing (s.insert id) ids = (s.missing ids).filter (! id == ·) := by
    simp only [missing, List.filter_filter, Std.HashSet.contains_insert, Bool.not_or]
  rw [hfilter, List.length_filter_lt_length_iff_exists]
  exact ⟨id, List.mem_filter.2 ⟨hid, by simpa using hs⟩, by simp⟩

end IdSet

end Dialogue
