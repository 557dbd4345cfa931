import Dialogue.Proofs.Coverage
/-!
Two compilations side by side.

What the compiler does can be told one task at a time (`Document.workOff`): a command is emitted, a
node is entered and its own tasks come first from then on, a node is visited again, or a visit comes
to nothing because no node has that id.

To compare two documents we choose what to look at: `view` says what is seen of a thing that the
compiler does.  Of a plan we then see the visits that come to something and what is seen of its
commands.  If two dialogues begin at the same place and the same is seen of the plans of each node
that is reached, then the same is seen of all that the compiler does (`Parallel.filterMap_items`).
Of nodes that are not reached we only ask that they exist in both documents or in none.
-/

namespace Dialogue

/-! ## What the compiler does, task by task -/

/-- A task together with the node it belongs to. -/
abbrev Job := String × Task

namespace Document

variable (d : Document) (options : Options)

/-- The jobs of a node that is visited at depth `indent`. -/
def jobs (n : Node) (indent : UInt32) : List Job :=
  (d.layout options n indent).tasks.map (n.id, ·)

/-- What the compiler does to work off a list of jobs, if the nodes of `u` are unvisited. -/
def workOff : List Job → IdSet → List Item
  | [], _ => []
  | (owner, .emit c) :: js, u => .emit owner c :: workOff js u
  | (_, .visit x indent) :: js, u =>
    match d.node? x with
    | none => workOff js u
    | some n =>
      if _h : x ∈ u then .enter x indent :: workOff (d.jobs options n indent ++ js) (u.erase x)
      else .revisit x indent :: workOff js u
termination_by js u => (u.size, js.length)
decreasing_by
  · exact Prod.Lex.right _ (Nat.lt_succ_self _)
  · exact Prod.Lex.right _ (Nat.lt_succ_self _)
  · have hsize := IdSet.size_erase_add_one _h
    exact Prod.Lex.left _ _ (by omega)
  · exact Prod.Lex.right _ (Nat.lt_succ_self _)

variable {d options}

lemma workOff_emits (owner : String) (cs : List Command) (js : List Job) (u : IdSet) :
    d.workOff options ((cs.map .emit).map (owner, ·) ++ js) u =
      cs.map (.emit owner) ++ d.workOff options js u := by
  induction cs with
  | nil => rfl
  | cons c cs ih =>
    simp only [List.map_cons, List.cons_append, workOff]
    rw [ih]

lemma workOff_dead {x : String} (h : d.node? x = none) (owner : String) (indent : UInt32)
    (js : List Job) (u : IdSet) :
    d.workOff options ((owner, .visit x indent) :: js) u = d.workOff options js u := by
  rw [workOff, h]

lemma workOff_enter {x : String} {n : Node} (h : d.node? x = some n) {u : IdSet} (hu : x ∈ u)
    (owner : String) (indent : UInt32) (js : List Job) :
    d.workOff options ((owner, .visit x indent) :: js) u =
      .enter x indent :: d.workOff options (d.jobs options n indent ++ js) (u.erase x) := by
  rw [workOff, h]
  simp only [dif_pos hu]

lemma workOff_jump {x : String} {n : Node} (h : d.node? x = some n) {u : IdSet} (hu : x ∉ u)
    (owner : String) (indent : UInt32) (js : List Job) :
    d.workOff options ((owner, .visit x indent) :: js) u =
      .revisit x indent :: d.workOff options js u := by
  rw [workOff, h]
  simp only [dif_neg hu]

/-- Working off the tasks of some slots does what the forest behind them says. -/
theorem workOff_slots (targets : List (Option String)) (u : IdSet) :
    ∀ (slots : List Slot) (owner : String) (indent : UInt32) (js : List Job),
      slots.map Slot.target = targets →
      d.workOff options ((slots.flatMap (Slot.tasks indent)).map (owner, ·) ++ js) u =
        weave (.emit owner) slots ((d.forest targets u).items d options indent) ++
          d.workOff options js (d.left targets u) := by
  induction targets, u using grow_induction (d := d) with
  | nil u =>
    intro slots owner indent js hslots
    obtain rfl := List.map_eq_nil_iff.1 hslots
    simp [weave]
  | @dead target rest u h ih =>
    intro slots owner indent js hslots
    obtain ⟨s, ss, rfl, rfl, hss⟩ := List.map_eq_cons_iff.1 hslots
    have hvisit : ∀ js', d.workOff options ((visitAny s.target indent).map (owner, ·) ++ js') u =
        d.workOff options js' u := by
      intro js'
      cases htarget : s.target with
      | none => rfl
      | some x =>
        rw [htarget] at h
        exact workOff_dead h owner indent js' u
    rw [forest_dead h, left_dead h]
    simp only [Forest.items, weave, List.flatMap_cons, Slot.tasks, List.map_append,
      List.append_assoc, List.nil_append]
    rw [workOff_emits, hvisit, workOff_emits, ih ss owner indent js hss]
  | @enter target rest u n h hu ih₁ ih₂ =>
    intro slots owner indent js hslots
    obtain ⟨s, ss, rfl, rfl, hss⟩ := List.map_eq_cons_iff.1 hslots
    obtain ⟨htarget, hn⟩ := nodeAt?_eq_some h
    rw [forest_enter h hu, left_enter h hu]
    simp only [Forest.items, weave, List.flatMap_cons, Slot.tasks, List.map_append,
      List.append_assoc, htarget, visitAny, Option.toList_some, List.map_cons, List.map_nil,
      List.cons_append, List.nil_append]
    rw [workOff_emits, workOff_enter hn hu]
    -- the jobs of the node itself come first
    simp only [jobs, Layout.tasks, Layout.fill, List.map_append, List.append_assoc]
    rw [workOff_emits, ih₁ _ n.id (d.layout options n indent).depth _
      (map_target_slots options n indent), workOff_emits, workOff_emits,
      ih₂ ss owner indent js hss]
  | @jump target rest u n h hu ih =>
    intro slots owner indent js hslots
    obtain ⟨s, ss, rfl, rfl, hss⟩ := List.map_eq_cons_iff.1 hslots
    obtain ⟨htarget, hn⟩ := nodeAt?_eq_some h
    rw [forest_jump h hu, left_jump h hu]
    simp only [Forest.items, weave, List.flatMap_cons, Slot.tasks, List.map_append,
      List.append_assoc, htarget, visitAny, Option.toList_some, List.map_cons, List.map_nil,
      List.cons_append, List.nil_append]
    rw [workOff_emits, workOff_jump hn hu, workOff_emits, ih ss owner indent js hss]

/-- The job with which a compilation begins. -/
def firstJobs (d : Document) : List Job :=
  (visitAny d.entrance? 0).map ("", ·)

/-- What the compiler does is what it does to work off the first job. -/
theorem items_eq_workOff : d.items options = d.workOff options d.firstJobs d.allIds := by
  have hslots := @workOff_slots d options [d.entrance?] d.allIds [⟨[], d.entrance?, []⟩] "" 0 []
    rfl
  have hlength : (d.trunk.items d options 0).length = 1 :=
    (Forest.follows_forest [d.entrance?] d.allIds).length_items 0
  obtain ⟨body, hbody⟩ := List.length_eq_one_iff.1 hlength
  rw [← trunk, hbody] at hslots
  simpa [items, hbody, weave, Slot.tasks, workOff, firstJobs] using hslots.symm

end Document

/-! ## What is seen -/

section View

variable {α : Type} (d : Document) (view : Item → Option α)

/-- What is seen of a job: a visit that comes to something, or what is seen of a command. -/
def Job.seen : Job → Option ((String × UInt32) ⊕ α)
  | (_, .visit x indent) => if (d.node? x).isSome then some (.inl (x, indent)) else none
  | (owner, .emit c) => (view (.emit owner c)).map .inr

variable {d view} {options : Options} {owner : String}

lemma seen_visit {x : String} {n : Node} (h : d.node? x = some n) (indent : UInt32) :
    Job.seen d view (owner, .visit x indent) = some (.inl (x, indent)) := by
  simp [Job.seen, h]

lemma seen_dead {x : String} (h : d.node? x = none) (indent : UInt32) :
    Job.seen d view (owner, .visit x indent) = none := by
  simp [Job.seen, h]

/-- What is seen of a job depends on which nodes exist. -/
lemma seen_congr {d' : Document} (h : ∀ x, (d.node? x).isSome = (d'.node? x).isSome) :
    Job.seen d view = Job.seen d' view := by
  funext ⟨owner, t⟩
  cases t with
  | visit x indent => rw [Job.seen, Job.seen, h]
  | emit c => rfl

lemma eq_visit_of_seen {j : Job} {x : String} {indent : UInt32}
    (h : Job.seen d view j = some (.inl (x, indent))) :
    (∃ owner, j = (owner, .visit x indent)) ∧ ∃ n, d.node? x = some n := by
  obtain ⟨owner, _ | c⟩ := j
  · rw [Job.seen] at h
    split at h
    · next hsome =>
      obtain ⟨rfl, rfl⟩ := Prod.mk.inj (Sum.inl.inj (Option.some.inj h))
      exact ⟨⟨owner, rfl⟩, Option.isSome_iff_exists.1 hsome⟩
    · cases h
  · obtain ⟨a, -, ha⟩ := Option.map_eq_some_iff.1 h
    cases ha

lemma eq_emit_of_seen {j : Job} {a : α} (h : Job.seen d view j = some (.inr a)) :
    ∃ owner c, j = (owner, .emit c) ∧ view (.emit owner c) = some a := by
  obtain ⟨owner, _ | c⟩ := j
  · rw [Job.seen] at h
    split at h <;> cases h
  · obtain ⟨a', hview, ha⟩ := Option.map_eq_some_iff.1 h
    obtain rfl := Sum.inr.inj ha
    exact ⟨owner, c, rfl, hview⟩

/-- Jobs of which nothing is seen can be left out. -/
lemma filterMap_workOff_unseen {pre : List Job} (h : ∀ j ∈ pre, Job.seen d view j = none)
    (js : List Job) (u : IdSet) :
    (d.workOff options (pre ++ js) u).filterMap view = (d.workOff options js u).filterMap view := by
  induction pre with
  | nil => rfl
  | cons j pre ih =>
    have hj := h j List.mem_cons_self
    have ih := ih fun j' hj' => h j' (List.mem_cons_of_mem _ hj')
    obtain ⟨owner, x | c⟩ := j
    · have hnone : d.node? x = none := by simpa [Job.seen] using hj
      rw [List.cons_append, Document.workOff_dead hnone, ih]
    · have hview : view (.emit owner c) = none := by simpa [Job.seen] using hj
      rw [List.cons_append, Document.workOff, List.filterMap_cons_none hview, ih]

end View

/-! ## Parallel documents -/

namespace Document

variable {α : Type}

/-- Two dialogues have the same ids and begin at the same place, and the same is seen of the plans
of each node that is reached. -/
structure Parallel (view : Item → Option α) (options options' : Options) (d d' : Document) :
    Prop where
  nodes : ∀ x, (d.node? x).isSome = (d'.node? x).isSome
  entrance : d.entrance? = d'.entrance?
  reached : ∀ x, d.Reached x → ∃ n n', d.node? x = some n ∧ d'.node? x = some n' ∧
    ∀ indent, (d.jobs options n indent).filterMap (Job.seen d view) =
      (d'.jobs options' n' indent).filterMap (Job.seen d' view)

variable {d d' : Document} {options options' : Options} {view : Item → Option α}

lemma Reached.isSome {x : String} (h : d.Reached x) : (d.node? x).isSome := by
  cases h <;> assumption

lemma exists_slot_of_visit {x : String} {k : UInt32} {l : Layout} (h : .visit x k ∈ l.tasks) :
    ∃ s ∈ l.slots, s.target = some x := by
  have hemit : ∀ cs : List Command, Task.visit x k ∉ cs.map .emit := by
    intro cs hmem
    obtain ⟨c, -, hc⟩ := List.mem_map.1 hmem
    cases hc
  simp only [Layout.tasks, List.mem_append, hemit, false_or, or_false, List.mem_flatMap] at h
  obtain ⟨s, hs, h⟩ := h
  simp only [Slot.tasks, List.mem_append, hemit, false_or, or_false] at h
  refine ⟨s, hs, ?_⟩
  obtain ⟨y, hy, heq⟩ := List.mem_map.1 h
  cases heq
  exact Option.mem_toList.1 hy

/-- The nodes that the jobs of a list visit are reached, as far as they exist. -/
def StayReached (d : Document) (js : List Job) : Prop :=
  ∀ owner x k, (owner, .visit x k) ∈ js → (d.node? x).isSome → d.Reached x

lemma StayReached.tail {j : Job} {js : List Job} (h : d.StayReached (j :: js)) :
    d.StayReached js :=
  fun owner x k hmem => h owner x k (List.mem_cons_of_mem _ hmem)

lemma StayReached.enter {x : String} {n : Node} (hn : d.node? x = some n) (hx : d.Reached x)
    (indent : UInt32) {js : List Job} (hjs : d.StayReached js) :
    d.StayReached (d.jobs options n indent ++ js) := by
  intro owner y k hmem hsome
  rcases List.mem_append.1 hmem with hmem | hmem
  · obtain ⟨t, ht, heq⟩ := List.mem_map.1 hmem
    obtain rfl : t = .visit y k := (Prod.mk.inj heq).2
    obtain ⟨s, hs, htarget⟩ := exists_slot_of_visit ht
    obtain rfl := id_of_node? hn
    refine hx.outlet ((mem_followed hn).2 ?_) hsome
    rw [← map_target_slots options n indent, ← htarget]
    exact List.mem_map_of_mem hs
  · exact hjs owner y k hmem hsome

lemma stayReached_firstJobs : d.StayReached d.firstJobs := by
  intro owner x k hmem hsome
  obtain ⟨t, ht, heq⟩ := List.mem_map.1 hmem
  obtain rfl : t = .visit x k := (Prod.mk.inj heq).2
  obtain ⟨y, hy, heq⟩ := List.mem_map.1 ht
  cases heq
  exact .entrance (Option.mem_toList.1 hy) hsome

namespace Parallel

/-- By the recursion of `workOff`: the same is seen of two lists of jobs that look the same, as long
as the same of the nodes that are reached are unvisited. -/
theorem filterMap_workOff (h : Parallel view options options' d d') (js : List Job) (u : IdSet) :
    ∀ (js' : List Job) (u' : IdSet), d.StayReached js →
      js.filterMap (Job.seen d view) = js'.filterMap (Job.seen d' view) →
      (∀ x, d.Reached x → (x ∈ u ↔ x ∈ u')) →
      (d.workOff options js u).filterMap view = (d'.workOff options' js' u').filterMap view := by
  fun_induction d.workOff options js u with
  | case1 u =>
    intro js' u' _ hseen _
    have hunseen : ∀ j ∈ js', Job.seen d' view j = none :=
      List.filterMap_eq_nil_iff.1 hseen.symm
    have hnil := @filterMap_workOff_unseen _ d' view options' _ hunseen [] u'
    rw [List.append_nil] at hnil
    rw [hnil, workOff]
  | case2 owner c js u ih =>
    intro js' u' hreached hseen hu
    cases hview : view (.emit owner c) with
    | none =>
      rw [List.filterMap_cons_none (by simp [Job.seen, hview])] at hseen
      rw [List.filterMap_cons_none hview]
      exact ih js' u' hreached.tail hseen hu
    | some a =>
      have hjob : Job.seen d view (owner, .emit c) = some (.inr a) := by simp [Job.seen, hview]
      rw [List.filterMap_cons_some hjob] at hseen
      obtain ⟨pre, j, post, rfl, hpre, hj, hpost⟩ := List.filterMap_eq_cons_iff.1 hseen.symm
      obtain ⟨owner', c', rfl, hview'⟩ := eq_emit_of_seen hj
      rw [filterMap_workOff_unseen hpre, workOff, List.filterMap_cons_some hview,
        List.filterMap_cons_some hview', ih post u' hreached.tail hpost.symm hu]
  | case3 owner x indent js u hnone ih =>
    intro js' u' hreached hseen hu
    rw [List.filterMap_cons_none (seen_dead hnone indent)] at hseen
    exact ih js' u' hreached.tail hseen hu
  | case4 owner x indent js u n hn hmem ih =>
    intro js' u' hreached hseen hu
    rw [List.filterMap_cons_some (seen_visit hn indent)] at hseen
    -- the other list comes to the same visit after jobs of which nothing is seen
    obtain ⟨pre, j, post, rfl, hpre, hj, hpost⟩ := List.filterMap_eq_cons_iff.1 hseen.symm
    obtain ⟨⟨owner', rfl⟩, -⟩ := eq_visit_of_seen hj
    have hx : d.Reached x := hreached owner x indent List.mem_cons_self (by rw [hn]; rfl)
    obtain ⟨m, n', hm, hn', hjobs⟩ := h.reached x hx
    obtain rfl : m = n := Option.some.inj (hm.symm.trans hn)
    have hrest : (d.workOff options (d.jobs options m indent ++ js) (u.erase x)).filterMap view =
        (d'.workOff options' (d'.jobs options' n' indent ++ post) (u'.erase x)).filterMap view := by
      refine ih _ _ (hreached.tail.enter hm hx indent) ?_ ?_
      · rw [List.filterMap_append, List.filterMap_append, hjobs, hpost]
      · intro y hy
        rw [Std.HashSet.mem_erase, Std.HashSet.mem_erase, hu y hy]
    rw [filterMap_workOff_unseen hpre, workOff_enter hn' ((hu x hx).1 hmem), List.filterMap_cons,
      List.filterMap_cons, hrest]
  | case5 owner x indent js u n hn hmem ih =>
    intro js' u' hreached hseen hu
    rw [List.filterMap_cons_some (seen_visit hn indent)] at hseen
    obtain ⟨pre, j, post, rfl, hpre, hj, hpost⟩ := List.filterMap_eq_cons_iff.1 hseen.symm
    obtain ⟨⟨owner', rfl⟩, n', hn'⟩ := eq_visit_of_seen hj
    have hx : d.Reached x := hreached owner x indent List.mem_cons_self (by rw [hn]; rfl)
    rw [filterMap_workOff_unseen hpre, workOff_jump hn' (mt (hu x hx).2 hmem), List.filterMap_cons,
      List.filterMap_cons, ih post u' hreached.tail hpost.symm hu]

/-- The same is seen of all that the compiler does. -/
theorem filterMap_items (h : Parallel view options options' d d') :
    (d.items options).filterMap view = (d'.items options').filterMap view := by
  rw [items_eq_workOff, items_eq_workOff]
  refine h.filterMap_workOff _ _ _ _ stayReached_firstJobs ?_ ?_
  · rw [firstJobs, firstJobs, ← h.entrance, seen_congr h.nodes]
  · intro x _
    rw [mem_allIds, mem_allIds, h.nodes]

/-- What can be told from the things that are seen is the same. -/
lemma filterMap_items_bind (h : Parallel view options options' d d') {β : Type}
    (tell : α → Option β) :
    (d.items options).filterMap (fun i => (view i).bind tell) =
      (d'.items options').filterMap fun i => (view i).bind tell := by
  rw [← List.filterMap_filterMap, ← List.filterMap_filterMap, h.filterMap_items]

/-- If the visits can be told from what is seen, the same nodes need a label. -/
lemma needsLabel_eq (h : Parallel view options options' d d') {tell : α → Option String}
    (htell : ∀ i, (view i).bind tell = i.revisited?) {x : String}
    (hx : (d.incoming x).length = (d'.incoming x).length) : d.needsLabel x = d'.needsLabel x := by
  have hjumps : d.trunk.jumps = d'.trunk.jumps := by
    have hbind := h.filterMap_items_bind tell
    simp only [htell] at hbind
    rwa [filterMap_revisited?_items, filterMap_revisited?_items] at hbind
  rw [needsLabel, needsLabel, Index.isConvergence_ofDocument, Index.isConvergence_ofDocument, hx,
    hjumps]

/-- If everything is seen and the same number of edges enters each node that is reached, then the
programs are the same. -/
theorem compile_eq (h : Parallel some options options' d d')
    (hstart : d.start?.isSome = d'.start?.isSome)
    (hincoming : ∀ x, d.Reached x → (d.incoming x).length = (d'.incoming x).length) :
    d.compile options = d'.compile options' := by
  have hitems : d.items options = d'.items options' := by simpa using h.filterMap_items
  have hcommands : ∀ i ∈ d.items options,
      i.commands d.needsLabel = i.commands d'.needsLabel := by
    intro i hi
    cases i with
    | enter x k =>
      have hx : d.Reached x := by
        rw [← mem_enteredIds_iff, ← filterMap_entered?_items options]
        exact List.mem_filterMap.2 ⟨_, hi, rfl⟩
      rw [Item.commands, Item.commands, h.needsLabel_eq (fun i => rfl) (hincoming x hx)]
    | revisit x k => rfl
    | emit owner c => rfl
  rw [compile_eq_ite, compile_eq_ite, ← hstart, ← hitems, List.flatMap_congr hcommands]

end Parallel

end Document

end Dialogue
