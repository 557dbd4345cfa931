import Mathlib.Data.List.Nodup
import Mathlib.Data.List.Perm.Basic
import Dialogue.Dict
/-!
Putting entries into a table.

Entries are put into a table one after the other (`putEntries`).  If their keys increase, then each
of them is appended, so a table is made from its own entries.  If their keys are distinct, then
their order does not matter.
-/

namespace Dialogue

variable {α : Type}

/-- Puts entries into a table, one after the other. -/
def putEntries (entries found : List (String × α)) : List (String × α) :=
  entries.foldl (fun found e => putEntry e.1 e.2 found) found

lemma putEntry_of_lt {key : String} {value : α} {entries : List (String × α)}
    (h : ∀ e ∈ entries, e.1 < key) : putEntry key value entries = entries ++ [(key, value)] := by
  induction entries with
  | nil => rfl
  | cons e entries ih =>
    have hlt : e.1 < key := h e List.mem_cons_self
    have hrest := ih fun e he => h e (List.mem_cons_of_mem _ he)
    rw [putEntry, if_neg (String.lt_asymm hlt), if_neg (String.ne_of_lt hlt).symm, hrest]
    rfl

lemma putEntries_of_increasing {entries found : List (String × α)}
    (h : Increasing (found ++ entries)) : putEntries entries found = found ++ entries := by
  induction entries generalizing found with
  | nil => exact (List.append_nil _).symm
  | cons e entries ih =>
    have hkeys : ∀ e' ∈ found, e'.1 < e.1 := by
      intro e' he'
      exact (List.pairwise_append.1 h).2.2 e' he' e List.mem_cons_self
    have hnext : putEntry e.1 e.2 found ++ entries = found ++ e :: entries := by
      rw [putEntry_of_lt hkeys, List.append_assoc]
      rfl
    exact (ih (hnext ▸ h)).trans hnext

/-! ## Dictionaries -/

lemma eq_of_entries_eq {d e : Dict α} (h : d.entries = e.entries) : d = e := by
  cases d
  cases e
  congr

lemma entries_ofList (pairs : List (String × α)) :
    (Dict.ofList pairs).entries = putEntries pairs [] := by
  suffices hfold : ∀ d : Dict α,
      (pairs.foldl (fun d kv => d.put kv.1 kv.2) d).entries = putEntries pairs d.entries from
    hfold Dict.empty
  induction pairs with
  | nil => exact fun _ => rfl
  | cons kv pairs ih => exact fun d => ih (d.put kv.1 kv.2)

lemma ofList_entries (d : Dict α) : Dict.ofList d.entries = d :=
  eq_of_entries_eq ((entries_ofList _).trans (putEntries_of_increasing d.increasing))

/-! ## The order of the entries -/

lemma putEntry_comm_of_lt {k k' : String} (h : k < k') (v v' : α) (entries : List (String × α)) :
    putEntry k v (putEntry k' v' entries) = putEntry k' v' (putEntry k v entries) := by
  have hne : k' ≠ k := (String.ne_of_lt h).symm
  have hnlt : ¬k' < k := String.lt_asymm h
  induction entries with
  | nil => simp [putEntry, h, hne, hnlt]
  | cons e entries ih =>
    obtain ⟨key, value⟩ := e
    by_cases hlt' : k' < key
    · simp [putEntry, h, hne, hnlt, hlt', String.lt_trans h hlt']
    by_cases heq' : k' = key
    · subst heq'
      simp [putEntry, h, hne, hnlt]
    by_cases hlt : k < key
    · simp [putEntry, hne, hnlt, hlt', heq', hlt]
    by_cases heq : k = key
    · simp [putEntry, hlt', heq', heq]
    · simp [putEntry, hlt', heq', hlt, heq, ih]

lemma putEntry_comm {k k' : String} (h : k ≠ k') (v v' : α) (entries : List (String × α)) :
    putEntry k v (putEntry k' v' entries) = putEntry k' v' (putEntry k v entries) := by
  by_cases hlt : k < k'
  · exact putEntry_comm_of_lt hlt v v' entries
  · have hlt' : k' < k :=
      String.not_le.1 fun hle => h (String.le_antisymm hle (String.not_lt.1 hlt))
    exact (putEntry_comm_of_lt hlt' v' v entries).symm

theorem putEntries_perm {entries entries' : List (String × α)} (h : entries.Perm entries')
    (hkeys : (entries.map Prod.fst).Nodup) (found : List (String × α)) :
    putEntries entries found = putEntries entries' found := by
  refine h.foldl_eq' (fun e he e' he' found => ?_) found
  by_cases hkey : e.1 = e'.1
  · rw [List.inj_on_of_nodup_map hkeys he he' hkey]
  · exact (putEntry_comm hkey _ _ _).symm

end Dialogue
