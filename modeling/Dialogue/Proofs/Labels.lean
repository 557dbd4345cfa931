import Dialogue.Proofs.Visits
/-!
Where labels stand.

A node that several edges enter gets its label when it is entered; for the others labels are put in
at the end.  Only one node can be left without a label although there is a jump to it: the one where
the dialogue begins, since the compiler comes to it once more than edges enter it.  It is the first
node that is entered, so its label goes to the front.

A program is therefore the list of things that the compiler does, each turned into commands on its
own, where a node that is entered gives a label if it needs one (`compile_eq`).
-/

namespace Dialogue

/-- The commands of one thing that the compiler does, if the nodes for which `needs` holds get a
label. -/
def Item.commands (needs : String → Bool) : Item → List Command
  | .enter id indent => if needs id then [.label indent id] else []
  | .revisit id indent => [.jumpToLabel indent id]
  | .emit _ c => [c]

/-- The node that is entered. -/
def Item.entered? : Item → Option String
  | .enter id _ => some id
  | .revisit _ _ | .emit _ _ => none

/-- The node that is visited again. -/
def Item.revisited? : Item → Option String
  | .revisit id _ => some id
  | .enter _ _ | .emit _ _ => none

/-! ## Entered and revisited nodes -/

lemma filterMap_weave {α β : Type} {wrap : Command → α} {g : α → Option β}
    (hg : ∀ c, g (wrap c) = none) (slots : List Slot) (bodies : List (List α))
    (hlength : bodies.length = slots.length) :
    (weave wrap slots bodies).filterMap g = bodies.flatten.filterMap g := by
  induction slots generalizing bodies with
  | nil =>
    obtain rfl := List.length_eq_zero_iff.1 hlength
    rfl
  | cons s ss ih =>
    obtain ⟨body, bodies, rfl⟩ := List.exists_cons_of_length_eq_add_one hlength
    simp only [List.length_cons, Nat.add_right_cancel_iff] at hlength
    simp [weave, hg, ih bodies hlength]

namespace Forest.Follows

variable {d : Document} {options : Options} {targets : List (Option String)} {f : Forest}

lemma filterMap_fill {β : Type} {g : Forest} {n : Node} (hg : Follows d (d.outlets n) g)
    (indent : UInt32) {p : Item → Option β} (hp : ∀ owner c, p (.emit owner c) = none) :
    ((d.layout options n indent).fill (.emit n.id)
        (g.items d options (d.layout options n indent).depth)).filterMap p =
      (g.items d options (d.layout options n indent).depth).flatten.filterMap p := by
  rw [Layout.fill, List.filterMap_append, List.filterMap_append,
    filterMap_weave (hp n.id) _ _ (hg.length_bodies options indent)]
  simp [hp]

/-- The nodes that are entered, read off what is done. -/
lemma filterMap_entered? (h : Follows d targets f) (indent : UInt32) :
    (f.items d options indent).flatten.filterMap Item.entered? = f.enteredIds := by
  induction h generalizing indent with
  | nil => rfl
  | dead _ _ ih => simpa [items] using ih indent
  | jump _ _ ih =>
    simp only [items, List.flatten_cons, List.singleton_append, List.filterMap_cons, Item.entered?]
    exact ih indent
  | enter _ hg _ ih₁ ih₂ =>
    simp only [items, List.flatten_cons, List.cons_append, List.filterMap_cons, Item.entered?,
      List.filterMap_append, ih₂, enteredIds_enter]
    rw [hg.filterMap_fill indent (fun _ _ => rfl), ih₁]

/-- The nodes that are visited again, read off what is done. -/
lemma filterMap_revisited? (h : Follows d targets f) (indent : UInt32) :
    (f.items d options indent).flatten.filterMap Item.revisited? = f.jumps := by
  induction h generalizing indent with
  | nil => rfl
  | dead _ _ ih => simpa [items, jumps] using ih indent
  | jump _ _ ih =>
    simp only [items, List.flatten_cons, List.singleton_append, List.filterMap_cons,
      Item.revisited?, jumps, ih indent]
  | enter _ hg _ ih₁ ih₂ =>
    simp only [items, List.flatten_cons, List.cons_append, List.filterMap_cons, Item.revisited?,
      List.filterMap_append, ih₂, jumps]
    rw [hg.filterMap_fill indent (fun _ _ => rfl), ih₁]

end Forest.Follows

/-! ## The state after a list of things -/

namespace Emission

section Fields

variable (st : Emission) (id : String) (indent : UInt32) (convergence : Bool)

@[simp] lemma commands_enter : (st.enter id indent convergence).commands =
    if convergence then st.commands.push (.label indent id) else st.commands := by
  rw [enter]
  cases convergence <;> rfl

@[simp] lemma entries_enter : (st.enter id indent convergence).entries =
    st.entries.push ⟨id, st.commands.size, indent⟩ := by
  rw [enter]
  cases convergence <;> rfl

@[simp] lemma labeled_enter : (st.enter id indent convergence).labeled =
    if convergence then st.labeled.insert id else st.labeled := by
  rw [enter]
  cases convergence <;> rfl

@[simp] lemma wanted_enter : (st.enter id indent convergence).wanted =
    if convergence then st.wanted.insert id else st.wanted := by
  rw [enter]
  cases convergence <;> rfl

@[simp] lemma commands_revisit : (st.revisit id indent convergence).commands =
    st.commands.push (.jumpToLabel indent id) := by
  unfold revisit
  dsimp only
  split <;> rfl

@[simp] lemma entries_revisit : (st.revisit id indent convergence).entries = st.entries := by
  unfold revisit
  dsimp only
  split <;> rfl

@[simp] lemma labeled_revisit : (st.revisit id indent convergence).labeled = st.labeled := by
  unfold revisit
  dsimp only
  split <;> rfl

@[simp] lemma wanted_revisit : (st.revisit id indent convergence).wanted =
    if convergence && 0 < indent then st.wanted else st.wanted.insert id := by
  unfold revisit
  dsimp only
  split <;> rfl

end Fields

variable (index : Index)

/-- The entries that a list of things makes, if `k` commands were emitted before. -/
def entriesFrom : Nat → List Item → List Entry
  | _, [] => []
  | k, .enter id indent :: items =>
    ⟨id, k, indent⟩ :: entriesFrom (k + if index.isConvergence id then 1 else 0) items
  | k, .revisit _ _ :: items => entriesFrom (k + 1) items
  | k, .emit _ _ :: items => entriesFrom (k + 1) items

variable {index}

lemma commands_perform (st : Emission) (i : Item) :
    (st.perform index i).commands.toList =
      st.commands.toList ++ i.commands index.isConvergence := by
  cases i with
  | enter id indent =>
    rw [perform, commands_enter, Item.commands]
    split <;> simp
  | revisit id indent => simp [perform, Item.commands]
  | emit owner c => simp [perform, emit, Item.commands]

lemma commands_performAll (items : List Item) (st : Emission) :
    (performAll index items st).commands.toList =
      st.commands.toList ++ items.flatMap (Item.commands index.isConvergence) := by
  induction items generalizing st with
  | nil => simp
  | cons i items ih =>
    rw [performAll_cons, ih, commands_perform, List.flatMap_cons, List.append_assoc]

lemma entries_perform (st : Emission) (i : Item) (items : List Item) :
    (st.perform index i).entries.toList ++
        entriesFrom index (st.perform index i).commands.size items =
      st.entries.toList ++ entriesFrom index st.commands.size (i :: items) := by
  cases i with
  | enter id indent =>
    rw [perform, commands_enter, entries_enter, entriesFrom]
    split <;> simp
  | revisit id indent => simp [perform, entriesFrom]
  | emit owner c => simp [perform, emit, entriesFrom]

lemma entries_performAll (items : List Item) (st : Emission) :
    (performAll index items st).entries.toList =
      st.entries.toList ++ entriesFrom index st.commands.size items := by
  induction items generalizing st with
  | nil => simp [entriesFrom]
  | cons i items ih => rw [performAll_cons, ih, entries_perform]

lemma id_mem_of_mem_entriesFrom {e : Entry} {k : Nat} {items : List Item}
    (h : e ∈ entriesFrom index k items) : e.id ∈ items.filterMap Item.entered? := by
  induction items generalizing k with
  | nil => simp [entriesFrom] at h
  | cons i items ih =>
    cases i with
    | enter id indent =>
      rw [List.filterMap_cons]
      rcases List.mem_cons.1 h with rfl | h
      · exact List.mem_cons_self
      · exact List.mem_cons_of_mem _ (ih h)
    | revisit id indent => exact ih h
    | emit owner c => exact ih h

lemma mem_labeled_perform (st : Emission) (i : Item) (x : String) :
    x ∈ (st.perform index i).labeled ↔
      x ∈ st.labeled ∨ i.entered? = some x ∧ index.isConvergence x = true := by
  cases i with
  | enter id indent =>
    rw [perform, labeled_enter, Item.entered?]
    split <;> grind
  | revisit id indent => simp [perform, Item.entered?]
  | emit owner c => simp [perform, emit, Item.entered?]

lemma mem_labeled_performAll (items : List Item) (st : Emission) (x : String) :
    x ∈ (performAll index items st).labeled ↔
      x ∈ st.labeled ∨ x ∈ items.filterMap Item.entered? ∧ index.isConvergence x = true := by
  induction items generalizing st with
  | nil => simp
  | cons i items ih =>
    rw [performAll_cons, ih, mem_labeled_perform]
    cases i with
    | enter id indent =>
      simp only [List.filterMap_cons, Item.entered?, Option.some.injEq, List.mem_cons]
      grind
    | revisit id indent => simp [List.filterMap_cons, Item.entered?]
    | emit owner c => simp [List.filterMap_cons, Item.entered?]

lemma mem_wanted_perform (st : Emission) (i : Item) {x : String}
    (hx : index.isConvergence x = false) :
    x ∈ (st.perform index i).wanted ↔ x ∈ st.wanted ∨ i.revisited? = some x := by
  cases i with
  | enter id indent =>
    rw [perform, wanted_enter, Item.revisited?]
    split <;> grind
  | revisit id indent =>
    rw [perform, wanted_revisit, Item.revisited?]
    split <;> grind
  | emit owner c => simp [perform, emit, Item.revisited?]

lemma mem_wanted_performAll (items : List Item) (st : Emission) {x : String}
    (hx : index.isConvergence x = false) :
    x ∈ (performAll index items st).wanted ↔
      x ∈ st.wanted ∨ x ∈ items.filterMap Item.revisited? := by
  induction items generalizing st with
  | nil => simp
  | cons i items ih =>
    rw [performAll_cons, ih, mem_wanted_perform st i hx]
    cases i with
    | enter id indent => simp [List.filterMap_cons, Item.revisited?]
    | revisit id indent =>
      simp only [List.filterMap_cons, Item.revisited?, Option.some.injEq, List.mem_cons]
      grind
    | emit owner c => simp [List.filterMap_cons, Item.revisited?]

end Emission

/-! ## The program -/

namespace Document

variable {d : Document} {options : Options}

/-- Whether a node needs a label: several edges enter it, or there is a jump to it. -/
def needsLabel (d : Document) (x : String) : Bool :=
  (Index.ofDocument d).isConvergence x || d.trunk.jumps.contains x

/-- Whether a node needs a label depends on how many edges enter it and on whether there is a jump to
it. -/
lemma needsLabel_congr {d' : Document} {x y : String}
    (hincoming : (d'.incoming y).length = (d.incoming x).length)
    (hjumps : y ∈ d'.trunk.jumps ↔ x ∈ d.trunk.jumps) : d'.needsLabel y = d.needsLabel x := by
  have hcontains : d'.trunk.jumps.contains y = d.trunk.jumps.contains x := by
    rw [Bool.eq_iff_iff, List.contains_iff_mem, List.contains_iff_mem, hjumps]
  rw [needsLabel, needsLabel, Index.isConvergence_ofDocument, Index.isConvergence_ofDocument,
    hincoming, hcontains]

lemma filterMap_entered?_items (options : Options) :
    (d.items options).filterMap Item.entered? = d.trunk.enteredIds :=
  follows_trunk.filterMap_entered? 0

lemma filterMap_revisited?_items (options : Options) :
    (d.items options).filterMap Item.revisited? = d.trunk.jumps :=
  follows_trunk.filterMap_revisited? 0

lemma items_of_dead_entrance (h : d.nodeAt? d.entrance? = none) : d.items options = [] := by
  rw [items, trunk, forest_dead h]
  simp [Forest.items]

/-- The first thing that the compiler does is to enter the node where the dialogue begins. -/
lemma items_of_entrance (options : Options) {n : Node} (h : d.nodeAt? d.entrance? = some n) :
    ∃ rest, d.items options = .enter n.id 0 :: rest ∧
      n.id ∉ rest.filterMap Item.entered? := by
  have hmem : n.id ∈ d.allIds := by
    rw [mem_allIds, (nodeAt?_eq_some h).2]
    rfl
  have hitems : ∃ rest, d.items options = .enter n.id 0 :: rest := by
    rw [items, trunk, forest_enter h hmem]
    simp [Forest.items]
  obtain ⟨rest, hrest⟩ := hitems
  refine ⟨rest, hrest, ?_⟩
  have hnodup := nodup_trunk (d := d)
  rw [← filterMap_entered?_items options, hrest] at hnodup
  exact (List.nodup_cons.1 hnodup).1

/-- The state when the list of tasks is empty. -/
def emission (d : Document) (options : Options) : Emission :=
  Emission.performAll (Index.ofDocument d) (d.items options) (.initial (Index.ofDocument d))

/-- The entries without a label to which there is a jump. -/
lemma lacksLabel_iff {e : Entry} (he : e ∈ (d.emission options).entries.toList) :
    ((d.emission options).wanted.contains e.id && !(d.emission options).labeled.contains e.id) =
      (!(Index.ofDocument d).isConvergence e.id && d.trunk.jumps.contains e.id) := by
  have hentered : e.id ∈ (d.items options).filterMap Item.entered? := by
    rw [emission, Emission.entries_performAll] at he
    exact Emission.id_mem_of_mem_entriesFrom (by simpa [Emission.initial] using he)
  have hlabeled : (d.emission options).labeled.contains e.id =
      (Index.ofDocument d).isConvergence e.id := by
    rw [Bool.eq_iff_iff, Std.HashSet.contains_iff_mem, emission, Emission.mem_labeled_performAll]
    simp [Emission.initial, hentered]
  rw [hlabeled]
  cases hconv : (Index.ofDocument d).isConvergence e.id with
  | true => simp
  | false =>
    have hwanted : (d.emission options).wanted.contains e.id = d.trunk.jumps.contains e.id := by
      rw [Bool.eq_iff_iff, Std.HashSet.contains_iff_mem, List.contains_iff_mem, emission,
        Emission.mem_wanted_performAll _ _ hconv, filterMap_revisited?_items]
      simp [Emission.initial]
    rw [hwanted, Bool.and_comm]

/-- A node other than the one where the dialogue begins needs a label only if several edges enter
it. -/
lemma needsLabel_of_ne_entrance {x : String} (hx : d.entrance? ≠ some x) :
    d.needsLabel x = (Index.ofDocument d).isConvergence x := by
  rw [needsLabel]
  cases hconv : (Index.ofDocument d).isConvergence x with
  | true => rfl
  | false =>
    rw [Index.isConvergence_ofDocument, decide_eq_false_iff_not] at hconv
    have hjump : x ∉ d.trunk.jumps := fun hmem =>
      hx (eq_entrance_of_mem_jumps hmem (by omega))
    simpa using hjump

/-- At most one label is missing at the end, that of the node where the dialogue begins; it belongs
in front of all commands. -/
theorem missing_emission {n : Node} (h : d.nodeAt? d.entrance? = some n) :
    (d.emission options).missing =
      if !(Index.ofDocument d).isConvergence n.id && d.trunk.jumps.contains n.id
      then [⟨n.id, 0, 0⟩] else [] := by
  obtain ⟨rest, hrest, hnot⟩ := items_of_entrance options h
  -- the first entry is that of the entrance, at position 0, and it has no other
  have hentries : ∃ entries, (d.emission options).entries.toList = ⟨n.id, 0, 0⟩ :: entries ∧
      ∀ e ∈ entries, e.id ≠ n.id := by
    rw [emission, Emission.entries_performAll, hrest]
    refine ⟨_, rfl, fun e he heq => ?_⟩
    exact hnot (heq ▸ Emission.id_mem_of_mem_entriesFrom he)
  obtain ⟨entries, hentries, hne⟩ := hentries
  have hfilter : (d.emission options).entries.toList.filter (fun e =>
      (d.emission options).wanted.contains e.id && !(d.emission options).labeled.contains e.id) =
      (d.emission options).entries.toList.filter fun e =>
        !(Index.ofDocument d).isConvergence e.id && d.trunk.jumps.contains e.id :=
    List.filter_congr fun e he => lacksLabel_iff he
  -- every other node that is jumped to got its label when it was entered
  have hnone : entries.filter (fun e =>
      !(Index.ofDocument d).isConvergence e.id && d.trunk.jumps.contains e.id) = [] := by
    refine List.filter_eq_nil_iff.2 fun e he hlacks => ?_
    have hentrance : d.entrance? ≠ some e.id := by
      rw [(nodeAt?_eq_some h).1]
      exact fun heq => hne e he (Option.some.inj heq).symm
    have hneeds := needsLabel_of_ne_entrance hentrance
    simp only [Bool.and_eq_true, Bool.not_eq_true'] at hlacks
    rw [needsLabel, hlacks.1, hlacks.2] at hneeds
    exact Bool.noConfusion hneeds
  rw [Emission.missing, hfilter, hentries, List.filter_cons, hnone]
  split <;> simp

/-- The labels that are put in at the end. -/
lemma labelled_emission :
    (d.emission options).labelled = (d.items options).flatMap (Item.commands d.needsLabel) := by
  cases h : d.nodeAt? d.entrance? with
  | none =>
    rw [emission, items_of_dead_entrance h]
    simp [Emission.labelled, Emission.missing, Emission.initial]
  | some n =>
    obtain ⟨rest, hrest, hnot⟩ := items_of_entrance options h
    have hcommands : (d.emission options).commands.toList =
        (d.items options).flatMap (Item.commands (Index.ofDocument d).isConvergence) := by
      rw [emission, Emission.commands_performAll]
      rfl
    -- behind the entrance, a node has its label already if it needs one
    have htail : rest.flatMap (Item.commands (Index.ofDocument d).isConvergence) =
        rest.flatMap (Item.commands d.needsLabel) := by
      refine List.flatMap_congr fun i hi => ?_
      cases i with
      | enter id indent =>
        have hid : d.entrance? ≠ some id := by
          rw [(nodeAt?_eq_some h).1]
          rintro ⟨⟩
          exact hnot (List.mem_filterMap.2 ⟨_, hi, rfl⟩)
        rw [Item.commands, Item.commands, needsLabel_of_ne_entrance hid]
      | revisit id indent => rfl
      | emit owner c => rfl
    rw [Emission.labelled, missing_emission h, hcommands, hrest, List.flatMap_cons,
      List.flatMap_cons, htail, Item.commands, Item.commands, needsLabel]
    cases (Index.ofDocument d).isConvergence n.id <;> cases d.trunk.jumps.contains n.id <;>
      simp [List.insertIdx_zero]

/-- A program is the list of things that the compiler does, each turned into commands, and the
end. -/
theorem compile_eq {start : Node} (h : d.start? = some start) :
    d.compile options = (d.items options).flatMap (Item.commands d.needsLabel) ++ [.stop 0] := by
  have hentrance : (Index.ofDocument d).firstTarget? start.id = d.entrance? := by
    simp [entrance?, h]
  have hstart : (Index.ofDocument d).start? = some start := h
  rw [compile, Index.program, hstart]
  dsimp only
  rw [hentrance, run_entrance, ← emission, labelled_emission]

lemma compile_of_start_eq_none (h : d.start? = none) : d.compile options = [] := by
  have hstart : (Index.ofDocument d).start? = none := h
  rw [compile, Index.program, hstart]

/-- The program of any document, with or without a beginning. -/
lemma compile_eq_ite :
    d.compile options =
      if d.start?.isSome then
        (d.items options).flatMap (Item.commands d.needsLabel) ++ [.stop 0]
      else [] := by
  cases h : d.start? with
  | none => exact compile_of_start_eq_none h
  | some start => exact compile_eq h

end Document

/-! ## The commands of trees -/

/-- The label of a node, if it needs one. -/
def Document.labelAt (d : Document) (indent : UInt32) (id : String) : List Command :=
  if d.needsLabel id then [.label indent id] else []

/-- The commands of each tree of a forest that is visited at depth `indent`. -/
def Forest.codes (d : Document) (options : Options) (f : Forest) (indent : UInt32) :
    List (List Command) :=
  (f.items d options indent).map (List.flatMap (Item.commands d.needsLabel))

section Unpack

variable {α : Type} {unpack : Item → List α} {owner : String} {wrap : Command → α}
  (hemit : ∀ c, unpack (.emit owner c) = [wrap c])

include hemit

lemma flatMap_emits (cs : List Command) :
    (cs.map (Item.emit owner)).flatMap unpack = cs.map wrap := by
  rw [List.flatMap_map, ← List.flatMap_pure_eq_map]
  exact List.flatMap_congr fun c _ => hemit c

lemma flatMap_weave (slots : List Slot) (bodies : List (List Item)) :
    (weave (.emit owner) slots bodies).flatMap unpack =
      weave wrap slots (bodies.map (List.flatMap unpack)) := by
  induction slots generalizing bodies with
  | nil => rfl
  | cons s ss ih =>
    cases bodies with
    | nil => rfl
    | cons body bodies =>
      simp only [weave, List.flatMap_append, flatMap_emits hemit, ih, List.map_cons]

lemma flatMap_fill (l : Layout) (bodies : List (List Item)) :
    (l.fill (.emit owner) bodies).flatMap unpack =
      l.fill wrap (bodies.map (List.flatMap unpack)) := by
  simp only [Layout.fill, List.flatMap_append, flatMap_emits hemit, flatMap_weave hemit]

end Unpack

namespace Forest

variable {d : Document} {options : Options} (indent : UInt32)

@[simp] lemma codes_nil : codes d options .nil indent = [] := rfl

@[simp] lemma codes_dead (f : Forest) :
    codes d options (.dead f) indent = [] :: f.codes d options indent := rfl

@[simp] lemma codes_jump (id : String) (f : Forest) :
    codes d options (.jump id f) indent = [.jumpToLabel indent id] :: f.codes d options indent :=
  rfl

@[simp] lemma codes_enter (n : Node) (g f : Forest) :
    codes d options (.enter n g f) indent =
      (d.labelAt indent n.id ++ (d.layout options n indent).fill id
        (g.codes d options (d.layout options n indent).depth)) :: f.codes d options indent := by
  have hfill := @flatMap_fill Command (Item.commands d.needsLabel) n.id id (fun c => rfl)
    (d.layout options n indent) (g.items d options (d.layout options n indent).depth)
  simp [codes, items, hfill, Item.commands, Document.labelAt]

end Forest

/-- A program is the commands of its forest, and the end. -/
theorem Document.compile_eq_codes {d : Document} {options : Options} {start : Node}
    (h : d.start? = some start) :
    d.compile options = (d.trunk.codes d options 0).flatten ++ [.stop 0] := by
  have hflatten : (d.items options).flatMap (Item.commands d.needsLabel) =
      (d.trunk.codes d options 0).flatten := by
    rw [items, Forest.codes, ← List.flatMap_id, List.flatMap_assoc, ← List.flatMap_def]
    rfl
  rw [compile_eq h, hflatten]

end Dialogue
