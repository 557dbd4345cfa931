import Dialogue.Proofs.Nesting
/-!
At most one label is put in when the work is done, in front of all commands.

A node that several edges enter gets its label when the compiler comes to it for the first time.  A
node that one edge enters is come to twice only if that edge is the one behind the start: the
compiler begins there, and may pass the start again.  So the entrance is the only node whose label
can be missing at the end.

What is remembered of the nodes is kept turn by turn (`Work.Recorded`, `Emission.Precedes`), so that
a node which is come to again shows in the last state.
-/

namespace Dialogue

open Relation (ReflTransGen TransGen)

/-! ## From turn to turn -/

/-- What has been visited or needs a label in an earlier state is so in a later one. -/
structure Emission.Precedes (st st' : Emission) : Prop where
  unvisited : ∀ x ∈ st'.unvisited, x ∈ st.unvisited
  wanted : ∀ x ∈ st.wanted, x ∈ st'.wanted

namespace Work

section Turns

variable {index : Index} {options : Options} {w w' : Work} {x : String} {indent : UInt32}

/-- The next task is a visit to `x`. -/
def ComesTo (w : Work) (x : String) (indent : UInt32) : Prop :=
  w.tasks.head? = some (.visit x indent)

lemma rightUnique_turns : Relator.RightUnique (Turns index options) := by
  intro w w₁ w₂ h₁ h₂
  exact Option.some.inj (h₁.symm.trans h₂)

variable (index options) in
lemma ComesTo.exists_turns (h : w.ComesTo x indent) : ∃ w', Turns index options w w' := by
  refine Option.ne_none_iff_exists'.1 fun hnone => ?_
  rw [ComesTo, turn_eq_none_iff.1 hnone] at h
  cases h

/-- A node is entered by the first turn that comes to it and revisited by any other. -/
lemma Turns.done_eq_of_comesTo (h : Turns index options w w') (hx : w.ComesTo x indent)
    (hnode : (index.node? x).isSome) :
    x ∈ w.done.unvisited ∧ w'.done = w.done.enter x indent (index.isConvergence x) ∨
      x ∉ w.done.unvisited ∧ w'.done = w.done.revisit x indent (index.isConvergence x) := by
  cases h.step with
  | emit => cases hx
  | skip hn =>
    obtain ⟨rfl, -⟩ : _ = x ∧ _ = indent := by simpa [ComesTo] using hx
    simp [hn] at hnode
  | enter _ hid =>
    obtain ⟨rfl, rfl⟩ : _ = x ∧ _ = indent := by simpa [ComesTo] using hx
    exact .inl ⟨hid, rfl⟩
  | revisit _ hid =>
    obtain ⟨rfl, rfl⟩ : _ = x ∧ _ = indent := by simpa [ComesTo] using hx
    exact .inr ⟨hid, rfl⟩

lemma Turns.not_mem_unvisited (h : Turns index options w w') (hx : w.ComesTo x indent)
    (hnode : (index.node? x).isSome) : x ∉ w'.done.unvisited := by
  rcases h.done_eq_of_comesTo hx hnode with ⟨-, hdone⟩ | ⟨hid, hdone⟩
  · simp [hdone, Emission.unvisited_enter]
  · rwa [hdone, Emission.unvisited_revisit]

/-- A turn that visits a node comes to it. -/
lemma Turns.comesTo_of_mem_unvisited (h : Turns index options w w') (hbefore : x ∈ w.done.unvisited)
    (hafter : x ∉ w'.done.unvisited) : ∃ indent, w.ComesTo x indent := by
  cases h.step with
  | emit | skip => exact absurd hbefore hafter
  | @enter id n st hn hid indent tasks =>
    obtain rfl : id = x := by
      by_contra hne
      rw [Emission.unvisited_enter] at hafter
      exact hafter (Std.HashSet.mem_erase.2 ⟨by simpa using hne, hbefore⟩)
    exact ⟨indent, rfl⟩
  | revisit =>
    rw [Emission.unvisited_revisit] at hafter
    exact absurd hbefore hafter

lemma Turns.precedes (h : Turns index options w w') : w.done.Precedes w'.done := by
  cases h.step with
  | emit | skip => exact ⟨fun _ => id, fun _ => id⟩
  | @enter id n st hn hid indent tasks =>
    refine ⟨fun x hx => ?_, fun x hx => ?_⟩
    · rw [Emission.unvisited_enter] at hx
      exact Std.HashSet.mem_of_mem_erase hx
    · rw [Emission.wanted_enter]
      split
      · exact Std.HashSet.mem_insert.2 (.inr hx)
      · exact hx
  | revisit =>
    refine ⟨fun x hx => ?_, fun x hx => ?_⟩
    · rwa [Emission.unvisited_revisit] at hx
    · rw [Emission.wanted_revisit]
      split
      · exact hx
      · exact Std.HashSet.mem_insert.2 (.inr hx)

lemma precedes_of_reaches (h : ReflTransGen (Turns index options) w w') :
    w.done.Precedes w'.done := by
  induction h with
  | refl => exact ⟨fun _ => id, fun _ => id⟩
  | tail _ hturn ih =>
    exact ⟨fun x hx => ih.unvisited x (hturn.precedes.unvisited x hx),
      fun x hx => hturn.precedes.wanted x (ih.wanted x hx)⟩

lemma turns_revisit {id : String} {n : Node} {st : Emission} (hn : index.node? id = some n)
    (hid : id ∉ st.unvisited) (indent : UInt32) (tasks : List Task) :
    Turns index options ⟨.visit id indent :: tasks, st⟩
      ⟨tasks, st.revisit id indent (index.isConvergence id)⟩ := by
  simp [Turns, turn, hn, hid]

end Turns

/-- A visited node has an entry, and only a node that several edges enter has a label. -/
structure Recorded (d : Document) (w : Work) : Prop where
  entered : ∀ x, (d.node? x).isSome → x ∉ w.done.unvisited → ∃ e ∈ w.done.entries, e.id = x
  labeled : ∀ x ∈ w.done.labeled, (Index.ofDocument d).isConvergence x

namespace Recorded

variable {d : Document} {options : Options} {w w' : Work}

lemma opening : d.opening.Recorded d where
  entered _ hx hid := absurd (Document.mem_allIds.2 hx) hid
  labeled _ hx := absurd hx Std.HashSet.not_mem_empty

lemma turn (h : w.Recorded d) (hturn : Turns (Index.ofDocument d) options w w') :
    w'.Recorded d := by
  cases hturn.step with
  | emit | skip => exact ⟨h.entered, h.labeled⟩
  | @enter id n st hn hid indent tasks =>
    constructor
    · intro x hx hvisited
      rw [Emission.entries_enter]
      rw [Emission.unvisited_enter] at hvisited
      by_cases hxid : x = id
      · exact ⟨_, Array.mem_push_self, hxid.symm⟩
      · have hbefore : x ∉ st.unvisited := fun hmem =>
          hvisited (Std.HashSet.mem_erase.2 ⟨by simpa using Ne.symm hxid, hmem⟩)
        obtain ⟨e, he, hex⟩ := h.entered x hx hbefore
        exact ⟨e, Array.mem_push_of_mem _ he, hex⟩
    · intro x hx
      rw [Emission.labeled_enter] at hx
      split at hx
      · next hconvergence =>
        rcases Std.HashSet.mem_insert.1 hx with hxid | hx
        · rwa [← eq_of_beq hxid]
        · exact h.labeled x hx
      · exact h.labeled x hx
  | revisit =>
    constructor
    · intro x hx hvisited
      rw [Emission.entries_revisit]
      rw [Emission.unvisited_revisit] at hvisited
      exact h.entered x hx hvisited
    · intro x hx
      rw [Emission.labeled_revisit] at hx
      exact h.labeled x hx

lemma reaches (h : w.Recorded d)
    (hreach : ReflTransGen (Turns (Index.ofDocument d) options) w w') : w'.Recorded d := by
  induction hreach with
  | refl => exact h
  | tail _ hturn ih => exact ih.turn hturn

end Recorded

end Work

/-! ## The first visit to a node -/

namespace Document

open Work (Turns)

variable {d : Document} {options : Options} {w w' : Work} {x : String} {indent : UInt32}

variable (d options) in
/-- The compiler gets to the state `w`. -/
def GetsTo (w : Work) : Prop :=
  ReflTransGen (Turns (Index.ofDocument d) options) d.opening w

variable (d options) in
/-- In the state `w` the compiler comes to `x` for the first time. -/
structure FirstComesTo (x : String) (indent : UInt32) (w : Work) : Prop where
  gets : d.GetsTo options w
  comes : w.ComesTo x indent
  first : ∀ v depth, d.GetsTo options v → v.ComesTo x depth →
    ¬TransGen (Turns (Index.ofDocument d) options) v w

/-- All states lead to the last one. -/
lemma GetsTo.reaches_finished (h : d.GetsTo options w) :
    ReflTransGen (Turns (Index.ofDocument d) options) w ⟨[], d.finished options⟩ := by
  have hend : d.GetsTo options ⟨[], d.finished options⟩ :=
    Work.reaches_run (visitAny d.entrance? 0) (.initial (Index.ofDocument d))
  rcases ReflTransGen.total_of_right_unique Work.rightUnique_turns h hend with h | h
  · exact h
  · rcases h.cases_head with rfl | ⟨v, hv, -⟩
    · exact .refl
    · cases hv

/-- A node that was come to before has been visited. -/
lemma not_mem_unvisited_of_transGen (hnode : (d.node? x).isSome) (hx : w.ComesTo x indent)
    (h : TransGen (Turns (Index.ofDocument d) options) w w') : x ∉ w'.done.unvisited := by
  obtain ⟨v, hturn, hreaches⟩ := TransGen.head'_iff.1 h
  rw [← Index.node?_ofDocument] at hnode
  exact fun hmem => hturn.not_mem_unvisited hx hnode
    ((Work.precedes_of_reaches hreaches).unvisited x hmem)

lemma GetsTo.firstComesTo (h : d.GetsTo options w) (hnode : (d.node? x).isSome)
    (hx : w.ComesTo x indent) (hid : x ∈ w.done.unvisited) : d.FirstComesTo options x indent w :=
  ⟨h, hx, fun _ _ _ hv htrans => not_mem_unvisited_of_transGen hnode hv htrans hid⟩

/-- A node that has been visited was come to, and there was a first time. -/
lemma GetsTo.exists_first (h : d.GetsTo options w) (hnode : (d.node? x).isSome)
    (hid : x ∉ w.done.unvisited) :
    ∃ u u' indent, d.FirstComesTo options x indent u ∧ x ∈ u.done.unvisited ∧
      Turns (Index.ofDocument d) options u u' := by
  induction h with
  | refl => exact absurd (mem_allIds.2 hnode) hid
  | @tail u u' hu hturn ih =>
    by_cases hmem : x ∈ u.done.unvisited
    · -- only a visit to the node takes it from those that are left
      obtain ⟨indent, hcomes⟩ := hturn.comesTo_of_mem_unvisited hmem hid
      exact ⟨u, u', indent, GetsTo.firstComesTo hu hnode hcomes hmem, hmem, hturn⟩
    · exact ih hmem

/-! ## What is missing -/

lemma GetsTo.recorded (h : d.GetsTo options w) : w.Recorded d :=
  Work.Recorded.opening.reaches h

variable (d options) in
/-- At most the label of the entrance is missing. -/
lemma missing_finished : (d.finished options).missing = [] ∨
    ∃ x, d.entrance? = some x ∧ (d.finished options).missing = [⟨x, 0, 0⟩] := by
  rw [finished_eq]
  cases h : d.nodeAt? d.entrance? with
  | none =>
    left
    simp [emission, items_of_dead_entrance h, Emission.missing, Emission.initial]
  | some n =>
    rw [missing_emission h]
    split
    · exact .inr ⟨n.id, (nodeAt?_eq_some h).1, rfl⟩
    · exact .inl rfl

/-- The label of a node that one edge enters is missing if the node is come to again. -/
lemma GetsTo.exists_missing (h : d.GetsTo options w) (hnode : (d.node? x).isSome)
    (hx : w.ComesTo x indent) (hid : x ∉ w.done.unvisited)
    (hconvergence : (Index.ofDocument d).isConvergence x = false) :
    ∃ e ∈ (d.finished options).missing, e.id = x := by
  obtain ⟨w', hturn⟩ := hx.exists_turns (Index.ofDocument d) options
  have hend : d.GetsTo options ⟨[], d.finished options⟩ := h.trans h.reaches_finished
  have hlater : w'.done.Precedes (d.finished options) :=
    Work.precedes_of_reaches (GetsTo.reaches_finished (h.tail hturn))
  have hwanted : x ∈ (d.finished options).wanted := by
    refine hlater.wanted x ?_
    rw [← Index.node?_ofDocument] at hnode
    obtain ⟨hmem, -⟩ | ⟨-, hdone⟩ := hturn.done_eq_of_comesTo hx hnode
    · exact absurd hmem hid
    · simp [hdone, hconvergence]
  have hlabeled : x ∉ (d.finished options).labeled := by
    intro hmem
    have hmany := hend.recorded.labeled x hmem
    rw [hconvergence] at hmany
    cases hmany
  obtain ⟨e, he, rfl⟩ := hend.recorded.entered x hnode
    fun hmem => hid ((Work.precedes_of_reaches h.reaches_finished).unvisited x hmem)
  refine ⟨e, ?_, rfl⟩
  rw [Emission.missing, List.mem_mergeSort, List.mem_filter]
  exact ⟨Array.mem_toList_iff.2 he, by simpa using ⟨hwanted, hlabeled⟩⟩

/-- At most one label is put in at the end, in front of all commands: that of the entrance.  Any
other node that is come to twice is entered by several edges and gets its label the first time. -/
theorem late_label_is_of_entrance (d : Document) (options : Options) :
    ((d.finished options).missing = [] ∧
          (d.finished options).labelled = (d.finished options).commands.toList ∨
        ∃ x, d.entrance? = some x ∧ (d.finished options).missing = [⟨x, 0, 0⟩] ∧
          (d.finished options).labelled = .label 0 x :: (d.finished options).commands.toList) ∧
      ∀ x depth depth' w w', (d.node? x).isSome → d.GetsTo options w → w.ComesTo x depth →
        TransGen (Turns (Index.ofDocument d) options) w w' → w'.ComesTo x depth' →
        d.entrance? = some x ∧ (d.finished options).missing = [⟨x, 0, 0⟩] ∨
          1 < (d.incoming x).length ∧ ∃ u u' indent, d.FirstComesTo options x indent u ∧
            Turns (Index.ofDocument d) options u u' ∧
            u'.done.commands = u.done.commands.push (.label indent x) ∧ x ∈ u'.done.labeled := by
  constructor
  · rcases missing_finished d options with h | ⟨x, hx, h⟩
    · exact .inl ⟨h, by rw [Emission.labelled, h, List.foldl_nil]⟩
    · refine .inr ⟨x, hx, h, ?_⟩
      rw [Emission.labelled, h, List.foldl_cons, List.foldl_nil, List.insertIdx_zero]
  · intro x depth depth' w w' hnode hgets hfirst htrans hsecond
    have hgets' : d.GetsTo options w' := hgets.trans htrans.to_reflTransGen
    have hvisited : x ∉ w'.done.unvisited := not_mem_unvisited_of_transGen hnode hfirst htrans
    cases hconvergence : (Index.ofDocument d).isConvergence x with
    | true =>
      right
      obtain ⟨u, u', indent, hu, hid, hturn⟩ := hgets'.exists_first hnode hvisited
      have hdone : u'.done = u.done.enter x indent true := by
        rw [← Index.node?_ofDocument] at hnode
        obtain ⟨-, hdone⟩ | ⟨hnot, -⟩ := hturn.done_eq_of_comesTo hu.comes hnode
        · rwa [hconvergence] at hdone
        · exact absurd hid hnot
      refine ⟨?_, u, u', indent, hu, hturn, ?_, ?_⟩
      · rwa [Index.isConvergence_ofDocument, decide_eq_true_iff] at hconvergence
      · simp [hdone]
      · simp [hdone]
    | false =>
      left
      obtain ⟨e, he, rfl⟩ := hgets'.exists_missing hnode hsecond hvisited hconvergence
      rcases missing_finished d options with h | ⟨x, hx, h⟩
      · rw [h] at he
        cases he
      · rw [h, List.mem_singleton] at he
        subst he
        exact ⟨hx, h⟩

/-- A gate that leads back to the start or to a place where one waits forever. -/
def crossing : Document where
  nodes := [{ id := "start", kind := .start },
    { id := "gate", kind := .condition (.switch 1 true) },
    { id := "wait", kind := .action [] }]
  edges := [{ id := "e0", source := "start", target := "gate" },
    { id := "e1", source := "gate", target := "start", handle := some "true" },
    { id := "e2", source := "gate", target := "wait", handle := some "false" },
    { id := "e3", source := "wait", target := "wait" }]

/-- What is left to do at the gate while its first block is worked off. -/
def crossingRest : List Task :=
  [.emit (.stop 1), .emit (.conditionalElse 0), .visit "wait" 1, .emit (.stop 1),
    .emit (.conditionalEnd 0)]

theorem late_label_of_crossing :
    (∃ w w', crossing.GetsTo {} w ∧ w.ComesTo "gate" 0 ∧
        TransGen (Turns (Index.ofDocument crossing) {}) w w' ∧ w'.ComesTo "gate" 1 ∧
        (crossing.finished {}).missing = [⟨"gate", 0, 0⟩]) ∧
      ∃ w w', crossing.GetsTo {} w ∧ w.ComesTo "wait" 1 ∧
        TransGen (Turns (Index.ofDocument crossing) {}) w w' ∧ w'.ComesTo "wait" 1 ∧
        ∃ u u' indent, crossing.FirstComesTo {} "wait" indent u ∧
          Turns (Index.ofDocument crossing) {} u u' ∧
          u'.done.commands = u.done.commands.push (.label indent "wait") ∧
          "wait" ∈ u'.done.labeled := by
  -- the gate is entered, and its first block leads through the start back to it
  obtain ⟨st₁, hstart, hleft₁⟩ : ∃ st, TransGen (Turns (Index.ofDocument crossing) {})
      crossing.opening ⟨.visit "start" 1 :: crossingRest, st⟩ ∧
      st.unvisited = crossing.allIds.erase "gate" := by
    have hid : "gate" ∈ (Emission.initial (Index.ofDocument crossing)).unvisited :=
      mem_allIds.2 rfl
    have hgate : Turns (Index.ofDocument crossing) {} crossing.opening ⟨_, _⟩ :=
      Work.turns_enter (Index.node?_ofDocument crossing "gate") hid 0 []
    rw [nodePlan_eq] at hgate
    exact ⟨_, .tail (.single hgate) rfl, Emission.unvisited_enter _ _ _ _⟩
  obtain ⟨st₂, hback, hleft₂⟩ : ∃ st, TransGen (Turns (Index.ofDocument crossing) {})
      crossing.opening ⟨.visit "gate" 1 :: crossingRest, st⟩ ∧
      st.unvisited = (crossing.allIds.erase "gate").erase "start" := by
    have hid : "start" ∈ st₁.unvisited := by
      rw [hleft₁, Std.HashSet.mem_erase]
      exact ⟨by decide, mem_allIds.2 rfl⟩
    have hturns :=
      hstart.tail (Work.turns_enter (Index.node?_ofDocument crossing "start") hid 1 crossingRest)
    rw [nodePlan_eq] at hturns
    exact ⟨_, hturns, by rw [Emission.unvisited_enter, hleft₁]⟩
  -- its second block leads to the place where one waits
  obtain ⟨st₃, hwait, hleft₃⟩ : ∃ st, TransGen (Turns (Index.ofDocument crossing) {})
      crossing.opening ⟨.visit "wait" 1 :: crossingRest.drop 3, st⟩ ∧
      st.unvisited = (crossing.allIds.erase "gate").erase "start" := by
    have hid : "gate" ∉ st₂.unvisited := not_mem_unvisited_of_transGen rfl
      (rfl : crossing.opening.ComesTo "gate" 0) hback
    have hturns :=
      hback.tail (Work.turns_revisit (Index.node?_ofDocument crossing "gate") hid 1 crossingRest)
    exact ⟨_, (hturns.tail rfl).tail rfl, (Emission.unvisited_revisit _ _ _ _).trans hleft₂⟩
  obtain ⟨st₄, hagain⟩ : ∃ st, TransGen (Turns (Index.ofDocument crossing) {})
      ⟨.visit "wait" 1 :: crossingRest.drop 3, st₃⟩
      ⟨.visit "wait" 1 :: crossingRest.drop 3, st⟩ := by
    have hid : "wait" ∈ st₃.unvisited := by
      rw [hleft₃, Std.HashSet.mem_erase, Std.HashSet.mem_erase]
      exact ⟨by decide, by decide, mem_allIds.2 rfl⟩
    have hturns := TransGen.single (r := Turns (Index.ofDocument crossing) {})
      (Work.turns_enter (Index.node?_ofDocument crossing "wait") hid 1 (crossingRest.drop 3))
    rw [nodePlan_eq] at hturns
    exact ⟨_, hturns⟩
  obtain ⟨-, htwice⟩ := late_label_is_of_entrance crossing {}
  refine ⟨⟨_, _, .refl, rfl, hback, rfl, ?_⟩,
    ⟨_, _, hwait.to_reflTransGen, rfl, hagain, rfl, ?_⟩⟩
  · have hgate := htwice "gate" 0 1 _ _ rfl .refl rfl hback rfl
    exact (hgate.resolve_right fun h => absurd h.1 (by decide)).2
  · have hlabel := htwice "wait" 1 1 _ _ rfl hwait.to_reflTransGen rfl hagain rfl
    exact (hlabel.resolve_left fun h => absurd h.1 (by decide)).2

end Document

end Dialogue
