/-!
Ids that wait in a queue.
-/

namespace Dialogue

/-- What waits in a queue, the next one first. -/
def waiting {α : Type} (queue : Std.Queue α) : List α :=
  queue.dList ++ queue.eList.reverse

section Waiting

variable {α : Type} {queue queue' : Std.Queue α} {a : α}

@[simp] theorem waiting_enqueue : waiting (queue.enqueue a) = waiting queue ++ [a] := by
  simp [waiting, Std.Queue.enqueue]

theorem waiting_of_dequeue?_none (h : queue.dequeue? = none) : waiting queue = [] := by
  unfold Std.Queue.dequeue? at h
  split at h
  · cases h
  · next hnil =>
    split at h
    · next hreverse => rw [waiting, hnil, hreverse, List.nil_append]
    · cases h

theorem waiting_of_dequeue?_some (h : queue.dequeue? = some (a, queue')) :
    waiting queue = a :: waiting queue' := by
  unfold Std.Queue.dequeue? at h
  split at h
  · next hcons =>
    cases h
    rw [waiting, hcons]
    rfl
  · next hnil =>
    split at h
    · cases h
    · next hreverse =>
      cases h
      rw [waiting, hnil, hreverse]
      exact (List.append_nil _).symm

end Waiting

end Dialogue
