import Dialogue.Graph.ShortestPath
import Dialogue.Proofs.Paths
import Dialogue.Proofs.Reachability
/-!
What the search for a path knows.

The search keeps no paths, only the ids to which it has come and from where.  They stand for trails:
one to each id that was seen, and `Parents.unwind` gives the trail back (`Remembers.unwind_eq`).

The trails are found in order, better ones first (`Explored.ordered`).  This is the point of the
queue.  A new trail goes one step further than the one that is left just now.  All others come from
trails that were left before, and these are better, or they are earlier steps from the same one
(`Explored.better_or_step`); one step more does not change this.  So of the steps to an id the first
is the best, and a trail that is still to be found is no better than the next one.

Steps from an id are ranked by the place of the first edge for them (`Document.firstEdge`).  The
search looks at the edges of one id only, in the order of the document, and sees the same ranks
(`firstEdge_lt`).
-/

namespace Dialogue

open Relation

/-! ## Trails -/

/-- A walk along edges. -/
structure Trail where
  /-- Where the walk ends. -/
  last : String
  /-- The ids before that one, the latest first. -/
  earlier : List String

namespace Trail

/-- The walk that goes nowhere. -/
def stay (id : String) : Trail := ⟨id, []⟩

/-- The walk with one more step. -/
def step (t : Trail) (next : String) : Trail := ⟨next, t.last :: t.earlier⟩

/-- The ids of a walk, in order. -/
def toList (t : Trail) : List String :=
  (t.last :: t.earlier).reverse

@[simp] lemma toList_stay (id : String) : (stay id).toList = [id] := rfl

@[simp] lemma toList_step (t : Trail) (x : String) : (t.step x).toList = t.toList ++ [x] := by
  simp [toList, step]

@[simp] lemma last_stay (id : String) : (stay id).last = id := rfl

@[simp] lemma last_step (t : Trail) (x : String) : (t.step x).last = x := rfl

lemma getLast?_toList (t : Trail) : t.toList.getLast? = some t.last := by
  simp [toList]

end Trail

/-- A trail from `source` is remembered step by step. -/
inductive Remembers (p : Parents) (source : String) : Trail → Prop
  | stay : Remembers p source (.stay source)
  | step {t : Trail} {x : String} (h : Remembers p source t) (hne : x ≠ source)
      (hparent : p.before[x]? = some t.last) : Remembers p source (t.step x)

namespace Remembers

variable {p : Parents} {source : String} {t : Trail}

/-- A trail that is remembered is found by going back. -/
theorem unwind_eq (h : Remembers p source t) (path : List String) :
    p.unwind source t.last path = t.earlier.reverse ++ path := by
  induction h generalizing path with
  | stay =>
    rw [Parents.unwind, Trail.last_stay, if_pos rfl]
    rfl
  | @step t x _ hne hparent ih =>
    rw [Parents.unwind, Trail.last_step, if_neg hne]
    split
    · next hnone => cases hnone.symm.trans hparent
    · next parent hsome =>
      obtain rfl : parent = t.last := Option.some.inj (hsome.symm.trans hparent)
      rw [ih]
      simp [Trail.step]

/-- To remember more does not disturb what is remembered. -/
lemma mono {p' : Parents} (h : Remembers p source t)
    (hp : ∀ x parent : String, p.before[x]? = some parent → p'.before[x]? = some parent) :
    Remembers p' source t := by
  induction h with
  | stay => exact .stay
  | step _ hne hparent ih => exact .step ih hne (hp _ _ hparent)

end Remembers

/-! ## Steps -/

namespace Document

/-- Where the edges that leave `x` lead, in the order of the document. -/
def successors (d : Document) (x : String) : List String :=
  (d.outgoing x).map Edge.target

lemma mem_successors {d : Document} {x y : String} : y ∈ d.successors x ↔ d.Leads x y := by
  simp [successors, outgoing, Leads, and_assoc]

/-- The place in the document of the first edge from `x` to `y`. -/
def firstEdge (d : Document) (x y : String) : Nat :=
  d.edges.findIdx fun e => e.source == x && e.target == y

end Document

/-- Among all edges, the first edges from an id to two others stand in the order in which they stand
among the edges of that id. -/
lemma findIdx_lt_of_idxOf_lt {edges : List Edge} {x y z : String}
    (h : ((edges.filter (·.source == x)).map Edge.target).idxOf y <
      ((edges.filter (·.source == x)).map Edge.target).idxOf z) :
    edges.findIdx (fun e => e.source == x && e.target == y) <
      edges.findIdx fun e => e.source == x && e.target == z := by
  induction edges with
  | nil => exact h
  | cons e edges ih =>
    rw [List.filter_cons] at h
    rw [List.findIdx_cons, List.findIdx_cons]
    cases hx : e.source == x with
    | false =>
      rw [hx] at h
      exact Nat.succ_lt_succ (ih h)
    | true =>
      rw [hx, if_pos rfl, List.map_cons, List.idxOf_cons, List.idxOf_cons] at h
      rw [Bool.true_and, Bool.true_and]
      cases hy : e.target == y <;> cases hz : e.target == z <;> rw [hy, hz] at h
      · exact Nat.succ_lt_succ (ih (Nat.lt_of_succ_lt_succ h))
      · exact absurd h (Nat.not_lt_zero _)
      · exact Nat.succ_pos _
      · exact absurd h (Nat.lt_irrefl _)

/-- An id that is met for the first time ranks behind all ids that were met before. -/
lemma firstEdge_lt {d : Document} {a x y : String} {pre post : List String}
    (h : d.successors a = pre ++ x :: post) (hx : x ∉ pre) (hy : y ∈ pre) :
    d.firstEdge a y < d.firstEdge a x := by
  refine findIdx_lt_of_idxOf_lt ?_
  change (d.successors a).idxOf y < (d.successors a).idxOf x
  rw [h, List.idxOf_append_of_mem hy, List.idxOf_append_of_notMem hx]
  exact Nat.lt_of_lt_of_le (List.idxOf_lt_length_iff.2 hy) (Nat.le_add_right _ _)

/-! ## The search -/

/-- What the search from `source` has found out: the trails `found`, in order, and the steps that it
has looked at. -/
structure Explored (d : Document) (source : String) (parents : Parents) (seen : IdSet)
    (found : List Trail) (Looked : Trail → String → Prop) : Prop where
  /-- There is a trail to each id that was seen. -/
  seen_iff : ∀ x, x ∈ seen ↔ ∃ t ∈ found, t.last = x
  source_mem : .stay source ∈ found
  path : ∀ t ∈ found, IsPath d.Leads source t.last t.toList
  remembers : ∀ t ∈ found, Remembers parents source t
  /-- Every trail is a step that was looked at. -/
  origin : ∀ t ∈ found, t = .stay source ∨ ∃ t' x, Looked t' x ∧ t = t'.step x
  /-- No step that was looked at leads to an id in a better way. -/
  best : ∀ t x, Looked t x →
    ∃ t' ∈ found, t'.last = x ∧ NoWorse d.firstEdge t'.toList (t.step x).toList
  ordered : found.Pairwise fun t t' => Better d.firstEdge t.toList t'.toList

/-- The steps that the search has looked at while it leaves the end of a trail: all from the ends
that it has left before, and from there those to the ids `pre`. -/
inductive LookedAt (d : Document) (left : List Trail) (current : Trail) (pre : List String) :
    Trail → String → Prop
  | left {t : Trail} {x : String} (ht : t ∈ left) (hx : d.Leads t.last x) :
    LookedAt d left current pre t x
  | current {x : String} (hx : x ∈ pre) : LookedAt d left current pre current x

lemma lookedAt_nil {d : Document} {left : List Trail} {current t : Trail} {x : String} :
    LookedAt d left current [] t x ↔ t ∈ left ∧ d.Leads t.last x := by
  constructor
  · rintro (⟨ht, hx⟩ | hx)
    · exact ⟨ht, hx⟩
    · cases hx
  · rintro ⟨ht, hx⟩
    exact .left ht hx

lemma lookedAt_concat {d : Document} {left : List Trail} {current t : Trail} {pre : List String}
    {x y : String} : LookedAt d left current (pre ++ [x]) t y ↔
      LookedAt d left current pre t y ∨ t = current ∧ y = x := by
  constructor
  · rintro (⟨ht, hy⟩ | hy)
    · exact .inl (.left ht hy)
    · rw [List.mem_append, List.mem_singleton] at hy
      exact hy.imp .current fun hyx => ⟨rfl, hyx⟩
  · rintro ((⟨ht, hy⟩ | hy) | ⟨rfl, rfl⟩)
    · exact .left ht hy
    · exact .current (List.mem_append_left _ hy)
    · exact .current (by simp)

/-- When all steps from the end of a trail have been looked at, then that end has been left. -/
lemma lookedAt_successors {d : Document} {left : List Trail} {current t : Trail} {x : String} :
    LookedAt d left current (d.successors current.last) t x ↔
      t ∈ left ++ [current] ∧ d.Leads t.last x := by
  rw [List.mem_append, List.mem_singleton]
  constructor
  · rintro (⟨ht, hx⟩ | hx)
    · exact ⟨.inl ht, hx⟩
    · exact ⟨.inr rfl, Document.mem_successors.1 hx⟩
  · rintro ⟨ht | rfl, hx⟩
    · exact .left ht hx
    · exact .current (Document.mem_successors.2 hx)

namespace Explored

variable {d : Document} {source x : String} {parents : Parents} {seen : IdSet} {s : PathSearch}
  {found left queued : List Trail} {Looked Looked' : Trail → String → Prop} {current t : Trail}
  {pre post : List String}

lemma start (d : Document) (source : String) :
    Explored d source (PathSearch.start source).parents (PathSearch.start source).seen
      [.stay source] fun t x => t ∈ [] ∧ d.Leads t.last x where
  seen_iff x := by simp [PathSearch.start]
  source_mem := List.mem_singleton_self _
  path t ht := by
    obtain rfl := List.mem_singleton.1 ht
    exact .stay source
  remembers t ht := by
    obtain rfl := List.mem_singleton.1 ht
    exact .stay
  origin t ht := .inl (List.mem_singleton.1 ht)
  best t x hx := by cases hx.1
  ordered := List.pairwise_singleton _ _

lemma congr (h : Explored d source parents seen found Looked)
    (hlooked : ∀ t x, Looked t x ↔ Looked' t x) : Explored d source parents seen found Looked' := by
  obtain rfl : Looked = Looked' := by
    ext t x
    exact hlooked t x
  exact h

/-- A trail is better than one step from the end that is left just now, or it is an earlier such
step. -/
lemma better_or_step (h : Explored d source parents seen (left ++ current :: queued)
      (LookedAt d left current pre)) (ht : t ∈ left ++ current :: queued) (x : String) :
    Better d.firstEdge t.toList (current.step x).toList ∨ ∃ y ∈ pre, t = current.step y := by
  rcases h.origin t ht with rfl | ⟨t', y, hlooked, rfl⟩
  · have hpos := List.length_pos_iff.2 (h.path current (by simp)).ne_nil
    refine .inl (.inl ?_)
    simp only [Trail.toList_stay, Trail.toList_step, List.length_append, List.length_singleton]
    omega
  · cases hlooked with
    | left hleft _ =>
      have hbetter := (List.pairwise_append.1 h.ordered).2.2 t' hleft current List.mem_cons_self
      rw [Trail.toList_step, Trail.toList_step]
      exact .inl (hbetter.concat y x)
    | current hy => exact .inr ⟨y, hy, rfl⟩

/-- The search looks at a step to an id that it has seen. -/
lemma look (h : Explored d source parents seen (left ++ current :: queued)
      (LookedAt d left current pre)) (hx : x ∈ seen) :
    Explored d source parents seen (left ++ current :: queued)
      (LookedAt d left current (pre ++ [x])) where
  __ := h
  origin t ht := by
    refine (h.origin t ht).imp_right ?_
    rintro ⟨t, y, hlooked, rfl⟩
    exact ⟨t, y, lookedAt_concat.2 (.inl hlooked), rfl⟩
  best t y hlooked := by
    rcases lookedAt_concat.1 hlooked with hlooked | ⟨rfl, rfl⟩
    · exact h.best t y hlooked
    · obtain ⟨t', ht', rfl⟩ := (h.seen_iff y).1 hx
      refine ⟨t', ht', rfl, ?_⟩
      rcases h.better_or_step ht' t'.last with hbetter | ⟨y, -, rfl⟩
      · exact .inr hbetter
      · exact .inl rfl

/-- A step to a new id is the worst up to now. -/
lemma better_step (h : Explored d source parents seen (left ++ current :: queued)
      (LookedAt d left current pre)) (hsuccessors : d.successors current.last = pre ++ x :: post)
    (hx : x ∉ seen) (ht : t ∈ left ++ current :: queued) :
    Better d.firstEdge t.toList (current.step x).toList := by
  rcases h.better_or_step ht x with hbetter | ⟨y, hy, rfl⟩
  · exact hbetter
  · have hpre : x ∉ pre := by
      intro hmem
      obtain ⟨t, ht, hlast, -⟩ := h.best current x (.current hmem)
      exact hx ((h.seen_iff x).2 ⟨t, ht, hlast⟩)
    rw [Trail.toList_step, Trail.toList_step]
    exact .inr ⟨by simp, .of_last current.getLast?_toList (firstEdge_lt hsuccessors hpre hy)⟩

/-- The search makes a step to a new id. -/
lemma discover (hcurrent : current.last ∈ s.seen)
    (h : Explored d source s.parents s.seen (left ++ current :: queued)
      (LookedAt d left current pre)) (hsuccessors : d.successors current.last = pre ++ x :: post)
    (hx : x ∉ s.seen) :
    Explored d source (s.discover current.last x hcurrent hx).parents
      (s.discover current.last x hcurrent hx).seen
      (left ++ current :: (queued ++ [current.step x])) (LookedAt d left current (pre ++ [x])) := by
  have hfound : left ++ current :: (queued ++ [current.step x]) =
      (left ++ current :: queued) ++ [current.step x] := by simp
  have hmem : current ∈ left ++ current :: queued := by simp
  have hkept : ∀ y parent : String, s.parents.before[y]? = some parent →
      (s.discover current.last x hcurrent hx).parents.before[y]? = some parent := by
    intro y parent hparent
    have hne : x ≠ y := fun heq => hx (heq ▸ (s.parent_mem hparent).1)
    exact (Std.HashMap.getElem?_insert.trans (if_neg (by simpa using hne))).trans hparent
  rw [hfound]
  constructor
  case seen_iff =>
    intro y
    change y ∈ s.seen.insert x ↔ _
    rw [Std.HashSet.mem_insert, beq_iff_eq, h.seen_iff, or_comm]
    simp only [List.mem_append (t := [_]), List.mem_singleton, or_and_right, exists_or,
      exists_eq_left, Trail.last_step]
  case source_mem => exact List.mem_append_left _ h.source_mem
  case path =>
    rw [List.forall_mem_append, List.forall_mem_singleton, Trail.toList_step]
    have hleads : d.Leads current.last x := by
      rw [← Document.mem_successors, hsuccessors]
      simp
    exact ⟨h.path, (h.path current hmem).step hleads⟩
  case remembers =>
    rw [List.forall_mem_append, List.forall_mem_singleton]
    refine ⟨fun t ht => (h.remembers t ht).mono hkept, ?_⟩
    refine .step ((h.remembers current hmem).mono hkept) ?_ Std.HashMap.getElem?_insert_self
    rintro rfl
    exact hx ((h.seen_iff x).2 ⟨_, h.source_mem, rfl⟩)
  case origin =>
    rw [List.forall_mem_append, List.forall_mem_singleton]
    refine ⟨fun t ht => (h.origin t ht).imp_right ?_, ?_⟩
    · rintro ⟨t, y, hlooked, rfl⟩
      exact ⟨t, y, lookedAt_concat.2 (.inl hlooked), rfl⟩
    · exact .inr ⟨current, x, lookedAt_concat.2 (.inr ⟨rfl, rfl⟩), rfl⟩
  case best =>
    intro t y hlooked
    rcases lookedAt_concat.1 hlooked with hlooked | ⟨rfl, rfl⟩
    · obtain ⟨t', ht', hnoWorse⟩ := h.best t y hlooked
      exact ⟨t', List.mem_append_left _ ht', hnoWorse⟩
    · exact ⟨_, List.mem_append_right _ (List.mem_singleton_self _), rfl, .inl rfl⟩
  case ordered =>
    refine List.pairwise_append.2 ⟨h.ordered, List.pairwise_singleton _ _, fun t ht => ?_⟩
    rw [List.forall_mem_singleton]
    exact h.better_step hsuccessors hx ht

/-- A step that the search has not looked at yet is no better than the one that comes next. -/
lemma lookedAt_or_noWorse (h : Explored d source parents seen (left ++ current :: queued)
      (LookedAt d left current pre))
    (hsuccessors : d.successors current.last = pre ++ x :: post)
    (ht : t ∈ left ++ current :: queued) {z : String} (hz : d.Leads t.last z) :
    LookedAt d left current pre t z ∨
      NoWorse d.firstEdge (current.step x).toList (t.step z).toList := by
  rw [Trail.toList_step, Trail.toList_step]
  rcases List.mem_append.1 ht with ht | ht
  · exact .inl (.left ht hz)
  rcases List.mem_cons.1 ht with rfl | ht
  · by_cases hpre : z ∈ pre
    · exact .inl (.current hpre)
    have hmem : z ∈ x :: post := by
      rw [← Document.mem_successors, hsuccessors, List.mem_append] at hz
      exact hz.resolve_left hpre
    obtain ⟨before, after, hsplit, hbefore⟩ := List.eq_append_cons_of_mem hmem
    cases before with
    | nil =>
      obtain ⟨rfl, -⟩ := List.cons.inj hsplit
      exact .inr (.inl rfl)
    | cons y before =>
      obtain ⟨rfl, rfl⟩ := List.cons.inj hsplit
      have hsuccessors' : d.successors t.last = (pre ++ x :: before) ++ z :: after := by
        rw [hsuccessors, List.append_assoc]
        rfl
      have hlt : d.firstEdge t.last x < d.firstEdge t.last z := by
        refine firstEdge_lt hsuccessors' ?_ (by simp)
        rw [List.mem_append, not_or]
        exact ⟨hpre, hbefore⟩
      exact .inr (.inr (.inr ⟨by simp, .of_last t.getLast?_toList hlt⟩))
  · have hbetter := (List.pairwise_cons.1 (List.pairwise_append.1 h.ordered).2.1).1 t ht
    exact .inr (.inr (hbetter.concat x z))

/-- Every path is no better than a trail, unless it is late: it takes a step that was not looked
at. -/
theorem noWorse_or_late (h : Explored d source parents seen found Looked)
    (Late : List String → Prop)
    (hlooked : ∀ t ∈ found, ∀ x, d.Leads t.last x → Looked t x ∨ Late (t.step x).toList)
    (hworse : ∀ p q, Late p → NoWorse d.firstEdge p q → Late q)
    (hlonger : ∀ p x, Late p → Late (p ++ [x])) {y : String} {q : List String}
    (hq : IsPath d.Leads source y q) :
    (∃ t ∈ found, t.last = y ∧ NoWorse d.firstEdge t.toList q) ∨ Late q := by
  refine hq.induction (motive := fun y q =>
    (∃ t ∈ found, t.last = y ∧ NoWorse d.firstEdge t.toList q) ∨ Late q) ?_ ?_
  · exact .inl ⟨_, h.source_mem, rfl, .inl rfl⟩
  · rintro x y q - hstep (⟨t, ht, rfl, hnoWorse⟩ | hlate)
    · have hconcat : NoWorse d.firstEdge (t.step y).toList (q ++ [y]) := by
        rw [Trail.toList_step]
        exact hnoWorse.concat y
      rcases hlooked t ht y hstep with hlooked | hlate
      · obtain ⟨t', ht', hlast, hbest⟩ := h.best t y hlooked
        exact .inl ⟨t', ht', hlast, hbest.trans hconcat⟩
      · exact .inr (hworse _ _ hlate hconcat)
    · exact .inr (hlonger q y hlate)

end Explored

end Dialogue
