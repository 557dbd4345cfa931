import Dialogue.Graph.Reach
/-!
A shortest path from one id to another.

The search leaves one id after the other, in the order in which it has come to them.  Of each id it
remembers from where it came to it for the first time.  As soon as it comes to the target, the path
is found by going back to the source.

Going back comes to an end because an id to which the search comes is new: it is not yet the one
from which the search came to another.  `Parents` and `PathSearch` carry the proof.
-/

namespace Dialogue

/-- From where a search has come to ids. -/
structure Parents where
  /-- The id from which it has come to an id. -/
  before : Std.HashMap String String
  /-- Going back comes to an end. -/
  wellFounded : WellFounded fun (parent id : String) => before[id]? = some parent

namespace Parents

/-- No id is remembered. -/
def empty : Parents where
  before := ∅
  wellFounded := ⟨fun _ => ⟨_, fun _ h => by simp at h⟩⟩

/-- Remembers from where the search came to an id, if it has not been left yet. -/
def insert (p : Parents) (id parent : String) (hne : parent ≠ id)
    (hnew : ∀ x : String, p.before[x]? ≠ some id) : Parents where
  before := p.before.insert id parent
  wellFounded := by
    have hother : ∀ x, x ≠ id →
        Acc (fun (y x : String) => (p.before.insert id parent)[x]? = some y) x := by
      intro x
      induction x using p.wellFounded.induction with
      | _ x ih =>
        intro hx
        refine ⟨x, fun y hy => ?_⟩
        rw [Std.HashMap.getElem?_insert, if_neg (by simpa using Ne.symm hx)] at hy
        refine ih y hy fun hyid => hnew x ?_
        rw [hy, hyid]
    refine ⟨fun x => ?_⟩
    by_cases hx : x = id
    · refine ⟨x, fun y hy => ?_⟩
      rw [hx, Std.HashMap.getElem?_insert_self] at hy
      exact hother y (Option.some.inj hy ▸ hne)
    · exact hother x hx

/-- The way back from `current` to `source`, put in front of a path. -/
def unwind (p : Parents) (source current : String) (path : List String) : List String :=
  if current = source then path
  else
    match _h : p.before[current]? with
    | none => path
    | some parent => p.unwind source parent (parent :: path)
termination_by p.wellFounded.wrap current

end Parents

/-- A search for a path that is under way. -/
structure PathSearch where
  /-- From where it has come to ids. -/
  parents : Parents
  /-- The ids to which it has come. -/
  seen : IdSet
  /-- The ids to which it has come and that it has not left yet. -/
  queue : Std.Queue String
  parent_mem : ∀ {x parent : String}, parents.before[x]? = some parent → x ∈ seen ∧ parent ∈ seen
  waiting_mem : ∀ {x : String}, x ∈ waiting queue → x ∈ seen

namespace PathSearch

/-- The search that is about to leave `source`. -/
def start (source : String) : PathSearch where
  parents := .empty
  seen := (∅ : IdSet).insert source
  queue := Std.Queue.empty.enqueue source
  parent_mem h := by simp [Parents.empty] at h
  waiting_mem h := by
    obtain rfl := List.mem_singleton.1 h
    exact Std.HashSet.mem_insert_self

/-- Comes from `current` to an id for the first time. -/
def discover (s : PathSearch) (current id : String) (hcurrent : current ∈ s.seen)
    (hid : id ∉ s.seen) : PathSearch where
  parents := s.parents.insert id current (fun h => hid (h ▸ hcurrent))
    fun _ h => hid (s.parent_mem h).2
  seen := s.seen.insert id
  queue := s.queue
  parent_mem {x parent} h := by
    simp only [Parents.insert, Std.HashMap.getElem?_insert] at h
    simp only [Std.HashSet.mem_insert]
    split at h
    · next hx => exact ⟨.inl hx, .inr (Option.some.inj h ▸ hcurrent)⟩
    · exact (s.parent_mem h).imp .inr .inr
  waiting_mem h := Std.HashSet.mem_insert.2 (.inr (s.waiting_mem h))

theorem mem_discover {s : PathSearch} {current id : String} (hcurrent : current ∈ s.seen)
    (hid : id ∉ s.seen) : id ∈ (s.discover current id hcurrent hid).seen :=
  Std.HashSet.mem_insert_self

theorem current_mem_discover {s : PathSearch} {current id : String} (hcurrent : current ∈ s.seen)
    (hid : id ∉ s.seen) : current ∈ (s.discover current id hcurrent hid).seen :=
  Std.HashSet.mem_insert.2 (.inr hcurrent)

/-- Puts an id in the queue. -/
def enqueue (s : PathSearch) (id : String) (hid : id ∈ s.seen) : PathSearch :=
  { s with
    queue := s.queue.enqueue id
    waiting_mem := by
      intro x hx
      rw [waiting_enqueue, List.mem_append, List.mem_singleton] at hx
      rcases hx with hx | rfl
      · exact s.waiting_mem hx
      · exact hid }

/-- Takes the next id out of the queue. -/
def dequeue (s : PathSearch) {current : String} {queue : Std.Queue String}
    (h : s.queue.dequeue? = some (current, queue)) : PathSearch :=
  { s with
    queue := queue
    waiting_mem := by
      intro x hx
      refine s.waiting_mem ?_
      rw [waiting_of_dequeue?_some h]
      exact List.mem_cons_of_mem _ hx }

theorem mem_of_dequeue? {s : PathSearch} {current : String} {queue : Std.Queue String}
    (h : s.queue.dequeue? = some (current, queue)) : current ∈ (s.dequeue h).seen := by
  change current ∈ s.seen
  refine s.waiting_mem ?_
  rw [waiting_of_dequeue?_some h]
  exact List.mem_cons_self

/-- Follows the edges that leave `current`, one after the other.  Either the search goes on, or it
has come to the target. -/
def scan (target current : String) (s : PathSearch) (hcurrent : current ∈ s.seen) :
    List Edge → PathSearch ⊕ Parents
  | [] => .inl s
  | e :: es =>
    if hseen : e.target ∈ s.seen then s.scan target current hcurrent es
    else
      let s' := s.discover current e.target hcurrent hseen
      if e.target = target then .inr s'.parents
      else
        (s'.enqueue e.target (mem_discover hcurrent hseen)).scan target current
          (current_mem_discover hcurrent hseen) es

section Scan

variable {target current : String} {s : PathSearch} {hcurrent : current ∈ s.seen} {e : Edge}

theorem scan_cons_of_mem (h : e.target ∈ s.seen) (es : List Edge) :
    s.scan target current hcurrent (e :: es) = s.scan target current hcurrent es := by
  rw [scan, dif_pos h]

theorem scan_cons_of_eq (h : e.target ∉ s.seen) (htarget : e.target = target) (es : List Edge) :
    s.scan target current hcurrent (e :: es) =
      .inr (s.discover current e.target hcurrent h).parents := by
  rw [scan, dif_neg h]
  exact if_pos htarget

theorem scan_cons_of_ne (h : e.target ∉ s.seen) (htarget : e.target ≠ target) (es : List Edge) :
    s.scan target current hcurrent (e :: es) =
      ((s.discover current e.target hcurrent h).enqueue e.target (mem_discover hcurrent h)).scan
        target current (current_mem_discover hcurrent h) es := by
  rw [scan, dif_neg h]
  exact if_neg htarget

end Scan

/-- How many of the ids are still to be found or to be left. -/
def remaining (ids : List String) (s : PathSearch) : Nat :=
  (s.seen.missing ids).length + (waiting s.queue).length

/-- What is put in the queue has been found. -/
theorem remaining_scan_le {target current : String} {ids : List String} {es : List Edge}
    {s s' : PathSearch} {hcurrent : current ∈ s.seen} (hes : ∀ e ∈ es, e.target ∈ ids)
    (h : s.scan target current hcurrent es = .inl s') : s'.remaining ids ≤ s.remaining ids := by
  induction es generalizing s with
  | nil =>
    cases h
    exact Nat.le_refl _
  | cons e es ih =>
    obtain ⟨he, hes⟩ := List.forall_mem_cons.1 hes
    by_cases hseen : e.target ∈ s.seen
    · rw [scan_cons_of_mem hseen] at h
      exact ih hes h
    by_cases htarget : e.target = target
    · rw [scan_cons_of_eq hseen htarget] at h
      cases h
    · rw [scan_cons_of_ne hseen htarget] at h
      have hlt := IdSet.length_missing_insert_lt he hseen
      refine Nat.le_trans (ih hes h) ?_
      simp only [remaining, enqueue, discover, waiting_enqueue, List.length_append,
        List.length_singleton]
      omega

end PathSearch

namespace Index

/-- Goes on with a search until it comes to the target or no id is left in the queue. -/
def searchPath? (index : Index) (target : String) (s : PathSearch) : Option Parents :=
  match h : s.queue.dequeue? with
  | none => none
  | some (current, _) =>
    match _h : (s.dequeue h).scan target current (s.mem_of_dequeue? h) (index.outgoing current) with
    | .inl s => index.searchPath? target s
    | .inr parents => some parents
termination_by s.remaining (index.endsAlong .forward)
decreasing_by
  refine Nat.lt_of_le_of_lt (PathSearch.remaining_scan_le (fun e => far_mem_endsAlong) _h) ?_
  simp only [PathSearch.remaining, PathSearch.dequeue, waiting_of_dequeue?_some h, List.length_cons]
  omega

/-- A shortest path from one id to another. -/
def shortestPath? (index : Index) (source target : String) : Option (List String) :=
  if source = target then some [source]
  else
    (index.searchPath? target (.start source)).map fun parents =>
      parents.unwind source target [target]

end Index

end Dialogue
