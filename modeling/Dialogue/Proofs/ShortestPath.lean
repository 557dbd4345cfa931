import Dialogue.Proofs.Search
/-!
The path that is shown from one id to another.

There may be many shortest paths.  The one that is shown is the first (`IsFirst`): where another
shortest path leaves it, the other one takes an edge further down in the document.

The search stops in the middle of a turn, as soon as it comes to the target.  By then the trail to
the target is no worse than any path to it, since all trails that could still be found are worse
(`isFirst_unwind`).  If it never comes to the target, then it has left every id that can be reached
(`not_reached`).  The turns before keep what this rests on (`Searching.turn`).
-/

namespace Dialogue

open Relation

/-- A path that is no worse than any other path between its ends. -/
structure IsFirst (d : Document) (source target : String) (path : List String) : Prop where
  isPath : IsPath d.Leads source target path
  noWorse : ∀ other, IsPath d.Leads source target other → NoWorse d.firstEdge path other

lemma isFirst_stay (d : Document) (source : String) : IsFirst d source source [source] :=
  ⟨.stay source, fun _ h => h.noWorse_stay⟩

namespace Explored

variable {d : Document} {source target : String} {parents : Parents} {seen : IdSet} {s : PathSearch}
  {left queued : List Trail} {current : Trail} {pre post : List String}

/-- If the search comes to the target, then by a first path. -/
lemma isFirst_unwind (hcurrent : current.last ∈ s.seen)
    (h : Explored d source s.parents s.seen (left ++ current :: queued)
      (LookedAt d left current pre))
    (hsuccessors : d.successors current.last = pre ++ target :: post) (htarget : target ∉ s.seen) :
    IsFirst d source target ((s.discover current.last target hcurrent htarget).parents.unwind
      source target [target]) := by
  have hafter := h.discover hcurrent hsuccessors htarget
  have hmem : current.step target ∈ left ++ current :: (queued ++ [current.step target]) := by simp
  have hunwind : (s.discover current.last target hcurrent htarget).parents.unwind source target
      [target] = (current.step target).toList := by
    refine ((hafter.remembers _ hmem).unwind_eq [target]).trans ?_
    simp [Trail.toList]
  rw [hunwind]
  refine ⟨hafter.path _ hmem, fun other hother => ?_⟩
  -- A path is late if it is no better than this trail; there is no other trail to the target yet.
  have hlate := h.noWorse_or_late (NoWorse d.firstEdge (current.step target).toList)
    (fun t ht x => h.lookedAt_or_noWorse hsuccessors ht) (fun p q => NoWorse.trans)
    (fun p x hp => hp.trans (.inr (.inl (by simp)))) hother
  refine hlate.resolve_left ?_
  rintro ⟨t, ht, hlast, -⟩
  exact htarget ((h.seen_iff target).2 ⟨t, ht, hlast⟩)

/-- If no id is left to which the search could go, then it has come to all that can be reached. -/
lemma not_reached (h : Explored d source parents seen left
      fun t x => t ∈ left ∧ d.Leads t.last x) (htarget : target ∉ seen) :
    ¬ReflTransGen d.Leads source target := by
  rw [← exists_isPath_iff]
  rintro ⟨p, hp⟩
  have hfound := h.noWorse_or_late (fun _ => False)
    (fun t ht x hx => .inl ⟨ht, hx⟩) (fun _ _ hlate => hlate.elim) (fun _ _ hlate => hlate.elim) hp
  obtain ⟨t, ht, hlast, -⟩ := hfound.resolve_right id
  exact htarget ((h.seen_iff target).2 ⟨t, ht, hlast⟩)

/-- In one turn all edges at the end of a trail are followed, unless the search comes to the
target. -/
theorem scan {es : List Edge} (hcurrent : current.last ∈ s.seen)
    (h : Explored d source s.parents s.seen (left ++ current :: queued)
      (LookedAt d left current pre))
    (hsuccessors : d.successors current.last = pre ++ es.map Edge.target)
    (hwaiting : waiting s.queue = queued.map Trail.last) (htarget : target ∉ s.seen) :
    Sum.elim
      (fun s' => target ∉ s'.seen ∧ ∃ queued', waiting s'.queue = queued'.map Trail.last ∧
        Explored d source s'.parents s'.seen (left ++ current :: queued')
          (LookedAt d left current (d.successors current.last)))
      (fun parents => IsFirst d source target (parents.unwind source target [target]))
      (s.scan target current.last hcurrent es) := by
  induction es generalizing s pre queued with
  | nil =>
    rw [List.map_nil, List.append_nil] at hsuccessors
    rw [hsuccessors]
    exact ⟨htarget, queued, hwaiting, h⟩
  | cons e es ih =>
    have hnext : d.successors current.last = (pre ++ [e.target]) ++ es.map Edge.target := by
      rw [hsuccessors, List.map_cons, List.append_assoc, List.singleton_append]
    by_cases hseen : e.target ∈ s.seen
    · rw [PathSearch.scan_cons_of_mem hseen]
      exact ih hcurrent (h.look hseen) hnext hwaiting htarget
    by_cases heq : e.target = target
    · subst heq
      rw [PathSearch.scan_cons_of_eq hseen rfl]
      exact h.isFirst_unwind hcurrent hsuccessors hseen
    · rw [PathSearch.scan_cons_of_ne hseen heq]
      refine ih _ (h.discover hcurrent hsuccessors hseen) hnext ?_ ?_
      · change waiting (s.queue.enqueue e.target) = _
        rw [waiting_enqueue, hwaiting, List.map_append]
        rfl
      · exact fun hmem => (Std.HashSet.mem_insert.1 hmem).elim (by simpa using heq) htarget

end Explored

/-- A search for a path to `target` that is about to leave the next id.  It has left the ends of the
trails `left`, and those of the trails `queued` wait. -/
structure Searching (d : Document) (source target : String) (s : PathSearch)
    (left queued : List Trail) : Prop where
  explored : Explored d source s.parents s.seen (left ++ queued)
    fun t x => t ∈ left ∧ d.Leads t.last x
  waiting_eq : waiting s.queue = queued.map Trail.last
  not_mem : target ∉ s.seen

namespace Searching

variable {d : Document} {source target : String} {s : PathSearch} {left queued : List Trail}

lemma start (hne : source ≠ target) :
    Searching d source target (.start source) [] [.stay source] where
  explored := .start d source
  waiting_eq := rfl
  not_mem h := hne (by simpa [PathSearch.start] using h)

/-- One turn of the search. -/
theorem turn (h : Searching d source target s left queued) {current : String}
    {queue : Std.Queue String} (hqueue : s.queue.dequeue? = some (current, queue)) :
    Sum.elim (fun s' => ∃ left' queued', Searching d source target s' left' queued')
      (fun parents => IsFirst d source target (parents.unwind source target [target]))
      ((s.dequeue hqueue).scan target current (s.mem_of_dequeue? hqueue)
        ((Index.ofDocument d).outgoing current)) := by
  have hwaiting := h.waiting_eq
  rw [waiting_of_dequeue?_some hqueue] at hwaiting
  obtain ⟨t, queued, rfl⟩ : ∃ t queued', queued = t :: queued' := by
    cases queued with
    | nil => cases hwaiting
    | cons t queued => exact ⟨t, queued, rfl⟩
  obtain ⟨rfl, hrest⟩ := List.cons.inj hwaiting
  rw [Index.outgoing_ofDocument]
  have hscan := Explored.scan (s.mem_of_dequeue? hqueue)
    (h.explored.congr fun _ _ => lookedAt_nil.symm) rfl hrest h.not_mem
  revert hscan
  cases (s.dequeue hqueue).scan target t.last (s.mem_of_dequeue? hqueue) (d.outgoing t.last) with
  | inr parents => exact id
  | inl s' =>
    rintro ⟨hmem, queued', hwaiting', hexplored⟩
    refine ⟨left ++ [t], queued', ?_, hwaiting', hmem⟩
    rw [List.append_assoc]
    exact hexplored.congr fun _ _ => lookedAt_successors

end Searching

namespace Index

variable {d : Document} {source target : String}

/-- What a search finds that goes on from what it knows. -/
theorem searchPath?_of_searching {s : PathSearch} {left queued : List Trail}
    (h : Searching d source target s left queued) :
    (∀ parents, (ofDocument d).searchPath? target s = some parents →
      IsFirst d source target (parents.unwind source target [target])) ∧
    ((ofDocument d).searchPath? target s = none → ¬ReflTransGen d.Leads source target) := by
  fun_induction (ofDocument d).searchPath? target s generalizing left queued with
  | case1 s hqueue =>
    have hwaiting := h.waiting_eq
    rw [waiting_of_dequeue?_none hqueue] at hwaiting
    obtain rfl := List.map_eq_nil_iff.1 hwaiting.symm
    have hexplored := h.explored
    rw [List.append_nil] at hexplored
    exact ⟨nofun, fun _ => hexplored.not_reached h.not_mem⟩
  | case2 s current queue hqueue s' hscan ih =>
    have hturn := h.turn hqueue
    rw [hscan] at hturn
    obtain ⟨left', queued', h'⟩ := hturn
    exact ih h'
  | case3 s current queue hqueue parents hscan =>
    have hturn := h.turn hqueue
    rw [hscan] at hturn
    refine ⟨?_, nofun⟩
    rintro _ ⟨⟩
    exact hturn

/-- The path that is shown is a first one. -/
lemma isFirst_of_shortestPath? {path : List String}
    (h : (ofDocument d).shortestPath? source target = some path) :
    IsFirst d source target path := by
  rw [shortestPath?] at h
  split at h
  · next heq =>
    subst heq
    obtain rfl := Option.some.inj h
    exact isFirst_stay d source
  · next hne =>
    obtain ⟨parents, hparents, rfl⟩ := Option.map_eq_some_iff.1 h
    exact (searchPath?_of_searching (.start hne)).1 parents hparents

/-- No path is shown exactly if there is none. -/
lemma shortestPath?_eq_none_iff :
    (ofDocument d).shortestPath? source target = none ↔ ¬ReflTransGen d.Leads source target := by
  constructor
  · intro h
    rw [shortestPath?] at h
    split at h
    · cases h
    · next hne => exact (searchPath?_of_searching (.start hne)).2 (Option.map_eq_none_iff.1 h)
  · intro h
    cases hpath : (ofDocument d).shortestPath? source target with
    | none => rfl
    | some path =>
      have hisPath := (isFirst_of_shortestPath? hpath).isPath
      exact absurd (exists_isPath_iff.1 ⟨path, hisPath⟩) h

/-- The first shortest path is shown.  There is none exactly if the target cannot be reached from
the source, that is, if it is not downstream of it.  Otherwise the path leads from the source to the
target along edges, no such path is shorter, and every other one of the same length parts from it by
an edge that comes later in the document. -/
theorem shortestPath?_first (d : Document) (source target : String) :
    ((ofDocument d).shortestPath? source target = none ↔
        ¬ReflTransGen d.Leads source target) ∧
      ((ofDocument d).shortestPath? source target = none ↔
        target ∉ ((ofDocument d).reach .forward source).nodes) ∧
      ∀ path, (ofDocument d).shortestPath? source target = some path →
        IsPath d.Leads source target path ∧
          ∀ other, IsPath d.Leads source target other →
            path.length ≤ other.length ∧
              (other.length = path.length → other ≠ path →
                Precedes d.firstEdge path other) := by
  refine ⟨shortestPath?_eq_none_iff, ?_, fun path h => ?_⟩
  · rw [shortestPath?_eq_none_iff, mem_nodes_reach]
    rfl
  obtain ⟨hpath, hbest⟩ := isFirst_of_shortestPath? h
  refine ⟨hpath, fun other hother => ⟨(hbest other hother).length_le, fun hlength hne => ?_⟩⟩
  rcases hbest other hother with rfl | hlt | ⟨-, hprecedes⟩
  · exact absurd rfl hne
  · omega
  · exact hprecedes

/-- Two ways lead from the entrance to the exit.  The one through the hall is entered by the earlier
edge, and left by the later one. -/
def cloister : Document where
  nodes := []
  edges := [{ id := "1", source := "exit", target := "entrance" },
    { id := "2", source := "entrance", target := "entrance" },
    { id := "3", source := "entrance", target := "hall" },
    { id := "4", source := "entrance", target := "yard" },
    { id := "5", source := "yard", target := "exit" },
    { id := "6", source := "hall", target := "exit" },
    { id := "7", source := "entrance", target := "hall" }]

lemma isPath_cloister {x : String} (h : x = "hall" ∨ x = "yard") :
    IsPath cloister.Leads "entrance" "exit" ["entrance", x, "exit"] := by
  rcases h with rfl | rfl <;> exact ⟨rfl, rfl, by simp [cloister, Document.Leads]⟩

lemma eq_of_isPath_cloister {path : List String}
    (h : IsPath cloister.Leads "entrance" "exit" path) (hlength : path.length ≤ 3) :
    path = ["entrance", "hall", "exit"] ∨ path = ["entrance", "yard", "exit"] := by
  obtain ⟨hhead, hlast, hchain⟩ := h
  match path with
  | [x] => simp_all
  | [x, y] => simp_all [cloister, Document.Leads]
  | [x, y, z] =>
    obtain rfl : x = "entrance" := Option.some.inj hhead
    obtain rfl : z = "exit" := Option.some.inj hlast
    have hexit : cloister.Leads y "exit" :=
      (List.isChain_cons_cons.1 (List.isChain_cons_cons.1 hchain).2).1
    have hy : "yard" = y ∨ "hall" = y := by simpa [cloister, Document.Leads] using hexit
    rcases hy with rfl | rfl
    · exact .inr rfl
    · exact .inl rfl

theorem shortestPath?_cloister :
    (ofDocument cloister).shortestPath? "entrance" "exit" = some ["entrance", "hall", "exit"] ∧
      IsPath cloister.Leads "entrance" "exit" ["entrance", "yard", "exit"] ∧
      Precedes cloister.firstEdge ["entrance", "hall", "exit"] ["entrance", "yard", "exit"] := by
  have hhall := isPath_cloister (.inl rfl)
  have hyard := isPath_cloister (.inr rfl)
  obtain ⟨hnone, -, hfirst⟩ := shortestPath?_first cloister "entrance" "exit"
  cases hpath : (ofDocument cloister).shortestPath? "entrance" "exit" with
  | none => exact absurd (exists_isPath_iff.1 ⟨_, hhall⟩) (hnone.1 hpath)
  | some path =>
    obtain ⟨hisPath, hother⟩ := hfirst path hpath
    rcases eq_of_isPath_cloister hisPath (hother _ hhall).1 with rfl | rfl
    · exact ⟨rfl, hyard, (hother _ hyard).2 rfl (by decide)⟩
    · -- the way through the yard does not come first
      rcases (hother _ hhall).2 rfl (by decide) with hrank | hfollow
      · exact absurd hrank (by decide)
      · exact absurd hfollow.head?_eq (by decide)

end Index

end Dialogue
