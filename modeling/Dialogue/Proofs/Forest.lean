import Dialogue.Proofs.Layout
/-!
The forest of a compilation.

The compiler works off a list of tasks.  Which nodes it enters, and where it jumps instead, depends
on the graph alone, so it can be told as a recursion: `grow` follows a list of outlets one after
the other, and inside each node that it enters for the first time the outlets of that node.  What
it finds is a forest with one tree for each outlet.

What the compiler does to its state is then read off the forest (`Forest.items`), and working off
the tasks of a layout is the same as doing these things in order (`run_slots`).
-/

namespace Dialogue

/-- What is found behind a list of outlets, the first one first. -/
inductive Forest
  /-- There are no more outlets. -/
  | nil
  /-- The first outlet leads to no node. -/
  | dead (rest : Forest)
  /-- The first outlet leads to a node that was entered before. -/
  | jump (id : String) (rest : Forest)
  /-- The first outlet leads to a new node; `inside` is what is found behind its outlets. -/
  | enter (node : Node) (inside rest : Forest)

namespace Document

variable (d : Document)

/-- Follows a list of outlets: what is found behind them, and the nodes that are left. -/
def grow (targets : List (Option String)) (u : IdSet) :
    Forest × {v : IdSet // v.size ≤ u.size} :=
  match targets with
  | [] => (.nil, ⟨u, Nat.le_refl _⟩)
  | target :: rest =>
    match d.nodeAt? target with
    | none =>
      let (behind, left) := grow rest u
      (.dead behind, left)
    | some n =>
      if h : n.id ∈ u then
        have hsize := IdSet.size_erase_add_one h
        let (inside, ⟨v, hv⟩) := grow (d.outlets n) (u.erase n.id)
        let (behind, ⟨w, hw⟩) := grow rest v
        (.enter n inside behind, ⟨w, by omega⟩)
      else
        let (behind, left) := grow rest u
        (.jump n.id behind, left)
termination_by (u.size, targets.length)
decreasing_by
  · exact Prod.Lex.right _ (Nat.lt_succ_self _)
  · exact Prod.Lex.left _ _ (by omega)
  · exact Prod.Lex.left _ _ (by omega)
  · exact Prod.Lex.right _ (Nat.lt_succ_self _)

/-- What is found behind a list of outlets. -/
def forest (targets : List (Option String)) (u : IdSet) : Forest :=
  (d.grow targets u).1

/-- The nodes that are left after following a list of outlets. -/
def left (targets : List (Option String)) (u : IdSet) : IdSet :=
  (d.grow targets u).2.1

variable {d}

@[simp] lemma forest_nil (u : IdSet) : d.forest [] u = .nil := by
  simp [forest, grow]

@[simp] lemma left_nil (u : IdSet) : d.left [] u = u := by
  simp [left, grow]

lemma forest_dead {target : Option String} (h : d.nodeAt? target = none)
    (rest : List (Option String)) (u : IdSet) :
    d.forest (target :: rest) u = .dead (d.forest rest u) := by
  rw [forest, grow, h]
  rfl

lemma left_dead {target : Option String} (h : d.nodeAt? target = none)
    (rest : List (Option String)) (u : IdSet) :
    d.left (target :: rest) u = d.left rest u := by
  rw [left, grow, h]
  rfl

lemma forest_enter {target : Option String} {n : Node} (h : d.nodeAt? target = some n)
    {u : IdSet} (hu : n.id ∈ u) (rest : List (Option String)) :
    d.forest (target :: rest) u = .enter n (d.forest (d.outlets n) (u.erase n.id))
      (d.forest rest (d.left (d.outlets n) (u.erase n.id))) := by
  rw [forest, grow, h]
  simp only [dif_pos hu]
  rfl

lemma left_enter {target : Option String} {n : Node} (h : d.nodeAt? target = some n)
    {u : IdSet} (hu : n.id ∈ u) (rest : List (Option String)) :
    d.left (target :: rest) u = d.left rest (d.left (d.outlets n) (u.erase n.id)) := by
  rw [left, grow, h]
  simp only [dif_pos hu]
  rfl

lemma forest_jump {target : Option String} {n : Node} (h : d.nodeAt? target = some n)
    {u : IdSet} (hu : n.id ∉ u) (rest : List (Option String)) :
    d.forest (target :: rest) u = .jump n.id (d.forest rest u) := by
  rw [forest, grow, h]
  simp only [dif_neg hu]
  rfl

lemma left_jump {target : Option String} {n : Node} (h : d.nodeAt? target = some n)
    {u : IdSet} (hu : n.id ∉ u) (rest : List (Option String)) :
    d.left (target :: rest) u = d.left rest u := by
  rw [left, grow, h]
  simp only [dif_neg hu]
  rfl

/-- What holds of every list of outlets and every set of nodes, by the recursion of `grow`. -/
@[elab_as_elim]
theorem grow_induction {motive : List (Option String) → IdSet → Prop}
    (nil : ∀ u, motive [] u)
    (dead : ∀ {target rest u}, d.nodeAt? target = none → motive rest u → motive (target :: rest) u)
    (enter : ∀ {target rest u n}, d.nodeAt? target = some n → n.id ∈ u →
      motive (d.outlets n) (u.erase n.id) → motive rest (d.left (d.outlets n) (u.erase n.id)) →
      motive (target :: rest) u)
    (jump : ∀ {target rest u n}, d.nodeAt? target = some n → n.id ∉ u → motive rest u →
      motive (target :: rest) u)
    (targets : List (Option String)) (u : IdSet) : motive targets u := by
  fun_induction d.grow targets u with
  | case1 u => exact nil u
  | case2 u target rest h _ _ _ ih => exact dead h ih
  | case3 u target rest n h hu _ inside v hv hinside behind w hw _ ih₁ ih₂ =>
    have hv' : d.left (d.outlets n) (u.erase n.id) = v := by rw [left, hinside]
    refine enter h hu ih₁ ?_
    rw [hv']
    exact ih₂
  | case4 u target rest n h hu _ _ _ ih => exact jump h hu ih

end Document

namespace Forest

variable (d : Document)

/-- The trees of a forest are what is found behind a list of outlets of a document, as far as the
document alone decides that. -/
inductive Follows : List (Option String) → Forest → Prop
  | nil : Follows [] .nil
  | dead {target targets f} : d.nodeAt? target = none → Follows targets f →
      Follows (target :: targets) (.dead f)
  | jump {target targets n f} : d.nodeAt? target = some n → Follows targets f →
      Follows (target :: targets) (.jump n.id f)
  | enter {target targets n g f} : d.nodeAt? target = some n → Follows (d.outlets n) g →
      Follows targets f → Follows (target :: targets) (.enter n g f)

variable {d}

theorem follows_forest (targets : List (Option String)) (u : IdSet) :
    Follows d targets (d.forest targets u) := by
  induction targets, u using Document.grow_induction (d := d) with
  | nil u => simpa using Follows.nil
  | dead h ih => rw [Document.forest_dead h]; exact .dead h ih
  | enter h hu ih₁ ih₂ => rw [Document.forest_enter h hu]; exact .enter h ih₁ ih₂
  | jump h hu ih => rw [Document.forest_jump h hu]; exact .jump h ih

end Forest

/-! ## What is done at a forest -/

/-- One thing that is done to the state of a compilation. -/
inductive Item
  /-- Node `id` is visited for the first time. -/
  | enter (id : String) (indent : UInt32)
  /-- Node `id` is visited again. -/
  | revisit (id : String) (indent : UInt32)
  /-- A command of node `owner` is emitted. -/
  | emit (owner : String) (command : Command)

/-- Does one thing. -/
def Emission.perform (index : Index) (st : Emission) : Item → Emission
  | .enter id indent => st.enter id indent (index.isConvergence id)
  | .revisit id indent => st.revisit id indent (index.isConvergence id)
  | .emit _ c => st.emit c

section Fill

variable {α : Type} (wrap : Command → α)

/-- Slots with what fills them. -/
def weave : List Slot → List (List α) → List α
  | s :: ss, body :: bodies =>
    s.before.map wrap ++ body ++ s.after.map wrap ++ weave ss bodies
  | _, _ => []

/-- A layout with what fills its slots. -/
def Layout.fill (l : Layout) (bodies : List (List α)) : List α :=
  l.head.map wrap ++ weave wrap l.slots bodies ++ l.last.map wrap

lemma weave_append {ss : List Slot} {bodies : List (List α)} (h : bodies.length = ss.length)
    (ss' : List Slot) (bodies' : List (List α)) :
    weave wrap (ss ++ ss') (bodies ++ bodies') =
      weave wrap ss bodies ++ weave wrap ss' bodies' := by
  induction ss generalizing bodies with
  | nil =>
    obtain rfl := List.length_eq_zero_iff.1 h
    rfl
  | cons s ss ih =>
    cases bodies with
    | nil => cases h
    | cons body bodies =>
      simp only [List.cons_append, weave, ih (Nat.succ.inj h), List.append_assoc]

end Fill

/-- What is done at each tree of a forest that is visited at depth `indent`. -/
def Forest.items (d : Document) (options : Options) : Forest → UInt32 → List (List Item)
  | .nil, _ => []
  | .dead f, indent => [] :: f.items d options indent
  | .jump id f, indent => [.revisit id indent] :: f.items d options indent
  | .enter n g f, indent =>
    let l := d.layout options n indent
    (.enter n.id indent :: l.fill (.emit n.id) (g.items d options l.depth)) ::
      f.items d options indent

/-- Each outlet has a tree. -/
lemma Forest.Follows.length_items {d : Document} {options : Options}
    {targets : List (Option String)} {f : Forest} (h : Follows d targets f) (indent : UInt32) :
    (f.items d options indent).length = targets.length := by
  induction h <;> simp_all [items]

/-- What is found behind the outlets of a node fills the slots of its layout. -/
lemma Forest.Follows.length_bodies {d : Document} (options : Options) {n : Node} {g : Forest}
    (h : Follows d (d.outlets n) g) (indent : UInt32) :
    (g.items d options (d.layout options n indent).depth).length =
      (d.layout options n indent).slots.length := by
  rw [h.length_items, ← Document.map_target_slots options n indent, List.length_map]

namespace Emission

variable {d : Document} {options : Options}

/-- Does a list of things, one after the other. -/
def performAll (index : Index) (items : List Item) (st : Emission) : Emission :=
  items.foldl (perform index) st

@[simp] lemma performAll_nil (index : Index) (st : Emission) : performAll index [] st = st := rfl

@[simp] lemma performAll_cons (index : Index) (i : Item) (items : List Item) (st : Emission) :
    performAll index (i :: items) st = performAll index items (st.perform index i) := rfl

lemma performAll_append (index : Index) (items items' : List Item) (st : Emission) :
    performAll index (items ++ items') st = performAll index items' (performAll index items st) :=
  List.foldl_append

lemma run_emits (index : Index) (owner : String) (cs : List Command) (tasks : List Task)
    (st : Emission) :
    run index options (cs.map .emit ++ tasks) st =
      run index options tasks (performAll index (cs.map (.emit owner)) st) := by
  induction cs generalizing st with
  | nil => rfl
  | cons c cs ih =>
    simp only [List.map_cons, List.cons_append, run, performAll_cons]
    exact ih _

lemma unvisited_emits (index : Index) (owner : String) (cs : List Command) (st : Emission) :
    (performAll index (cs.map (.emit owner)) st).unvisited = st.unvisited := by
  induction cs generalizing st with
  | nil => rfl
  | cons c cs ih => exact ih _

lemma unvisited_revisit (st : Emission) (id : String) (indent : UInt32) (convergence : Bool) :
    (st.revisit id indent convergence).unvisited = st.unvisited := by
  unfold revisit
  dsimp only
  split <;> rfl

lemma run_visit_dead {target : Option String} (h : d.nodeAt? target = none) (indent : UInt32)
    (tasks : List Task) (st : Emission) :
    run (Index.ofDocument d) options (visitAny target indent ++ tasks) st =
      run (Index.ofDocument d) options tasks st := by
  cases target with
  | none => rfl
  | some id =>
    have hid : (Index.ofDocument d).node? id = none := by simpa [Document.nodeAt?] using h
    simp only [visitAny, Option.toList_some, List.map_cons, List.map_nil, List.singleton_append,
      run, hid]

lemma run_visit_enter {target : Option String} {n : Node} (h : d.nodeAt? target = some n)
    (indent : UInt32) (tasks : List Task) {st : Emission} (hst : n.id ∈ st.unvisited) :
    run (Index.ofDocument d) options (visitAny target indent ++ tasks) st =
      run (Index.ofDocument d) options ((d.layout options n indent).tasks ++ tasks)
        (st.perform (Index.ofDocument d) (.enter n.id indent)) := by
  obtain ⟨rfl, hn⟩ := Document.nodeAt?_eq_some h
  have hid : (Index.ofDocument d).node? n.id = some n := by simpa using hn
  simp only [visitAny, Option.toList_some, List.map_cons, List.map_nil, List.singleton_append]
  rw [run]
  simp only [hid, dif_pos hst, Document.nodePlan_eq]
  rfl

lemma run_visit_jump {target : Option String} {n : Node} (h : d.nodeAt? target = some n)
    (indent : UInt32) (tasks : List Task) {st : Emission} (hst : n.id ∉ st.unvisited) :
    run (Index.ofDocument d) options (visitAny target indent ++ tasks) st =
      run (Index.ofDocument d) options tasks
        (st.perform (Index.ofDocument d) (.revisit n.id indent)) := by
  obtain ⟨rfl, hn⟩ := Document.nodeAt?_eq_some h
  have hid : (Index.ofDocument d).node? n.id = some n := by simpa using hn
  simp only [visitAny, Option.toList_some, List.map_cons, List.map_nil, List.singleton_append]
  rw [run]
  simp only [hid, dif_neg hst]
  rfl

/-- Working off the tasks of some slots does what the forest behind them says, and leaves the nodes
that the forest leaves. -/
theorem run_slots (targets : List (Option String)) (u : IdSet) :
    ∀ (slots : List Slot) (owner : String) (indent : UInt32) (tasks : List Task) (st : Emission),
      slots.map Slot.target = targets → st.unvisited = u →
      let done := performAll (Index.ofDocument d)
        (weave (.emit owner) slots ((d.forest targets u).items d options indent)) st
      run (Index.ofDocument d) options (slots.flatMap (Slot.tasks indent) ++ tasks) st =
          run (Index.ofDocument d) options tasks done ∧
        done.unvisited = d.left targets u := by
  induction targets, u using Document.grow_induction (d := d) with
  | nil u =>
    intro slots owner indent tasks st hslots hst
    obtain rfl := List.map_eq_nil_iff.1 hslots
    simpa [weave] using hst
  | @dead target rest u h ih =>
    intro slots owner indent tasks st hslots hst
    obtain ⟨s, ss, rfl, rfl, hss⟩ := List.map_eq_cons_iff.1 hslots
    rw [Document.forest_dead h, Document.left_dead h]
    simp only [Forest.items, weave, List.flatMap_cons, Slot.tasks, List.append_assoc,
      List.nil_append, performAll_append]
    rw [run_emits _ owner, run_visit_dead h, run_emits _ owner]
    refine ih ss owner indent tasks _ hss ?_
    rw [unvisited_emits, unvisited_emits, hst]
  | @enter target rest u n h hu ih₁ ih₂ =>
    intro slots owner indent tasks st hslots hst
    obtain ⟨s, ss, rfl, rfl, hss⟩ := List.map_eq_cons_iff.1 hslots
    rw [Document.forest_enter h hu, Document.left_enter h hu]
    simp only [Forest.items, weave, List.flatMap_cons, Slot.tasks, List.append_assoc,
      List.cons_append, performAll_append, performAll_cons]
    rw [run_emits _ owner, run_visit_enter h]
    · -- first the commands of the node itself, with what its outlets lead to
      simp only [Layout.tasks, Layout.fill, List.append_assoc, performAll_append]
      rw [run_emits _ n.id]
      obtain ⟨hrun, hleft⟩ := ih₁ (d.layout options n indent).slots n.id
        (d.layout options n indent).depth
        ((d.layout options n indent).last.map .emit ++
          (s.after.map .emit ++ (ss.flatMap (Slot.tasks indent) ++ tasks)))
        (performAll (Index.ofDocument d) ((d.layout options n indent).head.map (.emit n.id))
          ((performAll (Index.ofDocument d) (s.before.map (.emit owner)) st).perform
            (Index.ofDocument d) (.enter n.id indent)))
        (Document.map_target_slots options n indent)
        (by simp only [unvisited_emits, perform, unvisited_enter, hst])
      rw [hrun, run_emits _ n.id, run_emits _ owner]
      -- then the other slots
      refine ih₂ ss owner indent tasks _ hss ?_
      rw [unvisited_emits, unvisited_emits, hleft]
    · rw [unvisited_emits, hst]
      exact hu
  | @jump target rest u n h hu ih =>
    -- no node is entered, so the same nodes are left
    intro slots owner indent tasks st hslots hst
    obtain ⟨s, ss, rfl, rfl, hss⟩ := List.map_eq_cons_iff.1 hslots
    rw [Document.forest_jump h hu, Document.left_jump h hu]
    simp only [Forest.items, weave, List.flatMap_cons, Slot.tasks, List.append_assoc,
      performAll_append, performAll_cons, performAll_nil]
    rw [run_emits _ owner, run_visit_jump h, run_emits _ owner]
    · refine ih ss owner indent tasks _ hss ?_
      rw [unvisited_emits, perform, unvisited_revisit, unvisited_emits, hst]
    · rw [unvisited_emits, hst]
      exact hu

end Emission

namespace Document

variable (d : Document) (options : Options)

/-- The ids of the nodes of a document. -/
def allIds : IdSet :=
  .ofList (Index.ofDocument d).nodes.keys

/-- What the compiler finds from the place where the dialogue begins. -/
def trunk : Forest :=
  d.forest [d.entrance?] d.allIds

/-- What the compiler does, in order. -/
def items : List Item :=
  (d.trunk.items d options 0).flatten

variable {d options}

/-- Working off the first visit does what the forest says. -/
theorem run_entrance :
    Emission.run (Index.ofDocument d) options (visitAny d.entrance? 0)
        (.initial (Index.ofDocument d)) =
      Emission.performAll (Index.ofDocument d) (d.items options)
        (.initial (Index.ofDocument d)) := by
  have hslots := (@Emission.run_slots d options [d.entrance?] d.allIds
    [⟨[], d.entrance?, []⟩] "" 0 [] (.initial (Index.ofDocument d)) rfl rfl).1
  have hlength : (d.trunk.items d options 0).length = 1 :=
    (Forest.follows_forest [d.entrance?] d.allIds).length_items 0
  obtain ⟨body, hbody⟩ := List.length_eq_one_iff.1 hlength
  have hitems : weave (.emit "") [⟨[], d.entrance?, []⟩] (d.trunk.items d options 0) =
      d.items options := by
    simp [items, hbody, weave]
  rw [← trunk, hitems] at hslots
  simpa [Slot.tasks, Emission.run] using hslots

end Document

end Dialogue
