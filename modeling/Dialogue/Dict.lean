/-!
Dictionaries: values under texts, in increasing order of the texts.

The order of texts is the order of their code points.  Since the keys increase strictly, a
dictionary is determined by what it holds: there is one list of entries for it, and equality of
dictionaries is equality of their entries.
-/

namespace Dialogue

universe u

/-- Puts `value` under `key` into a list of entries with increasing keys.  A value that is already
there is replaced. -/
def putEntry {α : Type u} (key : String) (value : α) : List (String × α) → List (String × α)
  | [] => [(key, value)]
  | (k, v) :: rest =>
    if key < k then (key, value) :: (k, v) :: rest
    else if key = k then (key, value) :: rest
    else (k, v) :: putEntry key value rest

/-- The keys of a list of entries increase strictly. -/
def Increasing {α : Type u} (entries : List (String × α)) : Prop :=
  entries.Pairwise fun a b => a.1 < b.1

/-- Putting a value adds no key but its own. -/
theorem mem_putEntry {α : Type u} {key : String} {value : α} {entries : List (String × α)}
    {e : String × α} (h : e ∈ putEntry key value entries) : e = (key, value) ∨ e ∈ entries := by
  induction entries with
  | nil => simpa [putEntry] using h
  | cons kv rest ih =>
    obtain ⟨k, v⟩ := kv
    unfold putEntry at h
    split at h
    · simpa using h
    · split at h
      · rcases List.mem_cons.1 h with h | h
        · exact Or.inl h
        · exact Or.inr (List.mem_cons_of_mem _ h)
      · rcases List.mem_cons.1 h with h | h
        · exact Or.inr (h ▸ List.mem_cons_self)
        · exact (ih h).imp id (List.mem_cons_of_mem _)

/-- Putting a value keeps the keys increasing. -/
theorem Increasing.putEntry {α : Type u} {key : String} {value : α}
    {entries : List (String × α)} (h : Increasing entries) :
    Increasing (putEntry key value entries) := by
  induction entries with
  | nil => simp [Increasing, Dialogue.putEntry]
  | cons kv rest ih =>
    obtain ⟨k, v⟩ := kv
    have hk : ∀ e ∈ rest, k < e.1 := (List.pairwise_cons.1 h).1
    have hrest : Increasing rest := (List.pairwise_cons.1 h).2
    unfold Dialogue.putEntry
    split
    · next hlt =>
      refine List.pairwise_cons.2 ⟨fun e he => ?_, h⟩
      rcases List.mem_cons.1 he with rfl | he
      · exact hlt
      · exact String.lt_trans hlt (hk e he)
    · next hnlt =>
      split
      · next heq =>
        subst heq
        exact List.pairwise_cons.2 ⟨hk, hrest⟩
      · next hne =>
        have hgt : k < key := by
          rcases String.le_total key k with hle | hle
          · exact absurd (String.le_antisymm hle (String.not_lt.1 hnlt)) hne
          · exact String.not_le.1 fun hle' => hne (String.le_antisymm hle' hle)
        refine List.pairwise_cons.2 ⟨fun e he => ?_, ih hrest⟩
        rcases mem_putEntry he with rfl | he
        · exact hgt
        · exact hk e he

/-- Values of type `α` under texts, in increasing order of the texts. -/
structure Dict (α : Type u) where
  /-- The keys with their values. -/
  entries : List (String × α)
  /-- No key stands twice, and the keys are in order. -/
  increasing : Increasing entries
deriving DecidableEq

namespace Dict

variable {α : Type u}

/-- The dictionary that holds nothing. -/
def empty : Dict α := ⟨[], List.Pairwise.nil⟩

instance : Inhabited (Dict α) := ⟨empty⟩

/-- Puts `value` under `key`; a value that is already there is replaced. -/
def put (d : Dict α) (key : String) (value : α) : Dict α :=
  ⟨putEntry key value d.entries, d.increasing.putEntry⟩

/-- The dictionary of the pairs of a list: of two pairs with one key the later one counts. -/
def ofList (pairs : List (String × α)) : Dict α :=
  pairs.foldl (fun d kv => d.put kv.1 kv.2) empty

end Dict

end Dialogue
