import Dialogue.Proofs.Places
/-!
Labels and jumps.

A jump is what the compiler leaves behind when it comes to a node again, and it comes to a node
again only if it has entered it before; so every jump leads back to a label that stands further up.
The label of a node stands where its body begins: behind everything that was emitted before the node
was entered, in front of its own commands, and at the depth at which it was entered.

Everything is read off the list of things that the compiler does (`Document.items`).  The positions
that it notes down on the way are positions among the commands without the labels that are put in at
the end; how far these move a body is counted by `Emission.placeOf`.
-/

namespace Dialogue

/-- Whether a command jumps to node `id`. -/
def Command.isJumpTo (id : String) (c : Command) : Bool :=
  c.opcode == .jumpToLabel && c.parameters == [.str (labelName id)]

/-- A member of two lists, one behind the other, stands in the first or in the second. -/
lemma append_eq_append_cons {α : Type} {xs ys pre post : List α} {a : α}
    (h : xs ++ ys = pre ++ a :: post) :
    (∃ post', xs = pre ++ a :: post' ∧ post = post' ++ ys) ∨
      ∃ pre', pre = xs ++ pre' ∧ ys = pre' ++ a :: post := by
  rcases List.append_eq_append_iff.1 h with ⟨pre', rfl, hys⟩ | ⟨mid, hxs, hmid⟩
  · exact .inr ⟨pre', rfl, hys⟩
  · rcases List.cons_eq_append_iff.1 hmid with ⟨rfl, hys⟩ | ⟨post', rfl, hpost⟩
    · exact .inr ⟨[], by simpa using hxs.symm, hys⟩
    · exact .inl ⟨post', hxs, hpost⟩

/-- What is found once is found at one index. -/
lemma getElem?_unique {α : Type} {p : α → Bool} {xs : List α} (h : xs.countP p ≤ 1) {i j : ℕ}
    {a b : α} (ha : xs[i]? = some a) (hpa : p a) (hb : xs[j]? = some b) (hpb : p b) : i = j := by
  wlog hij : i < j generalizing i j a b
  · rcases Nat.lt_or_eq_of_le (Nat.le_of_not_lt hij) with hji | rfl
    · exact (this hb hpb ha hpa hji).symm
    · rfl
  have hfront : 0 < (xs.take j).countP p :=
    List.countP_pos_iff.2 ⟨a, List.mem_of_getElem? (by rwa [List.getElem?_take_of_lt hij]), hpa⟩
  have hback : 0 < (xs.drop j).countP p :=
    List.countP_pos_iff.2 ⟨b, List.mem_of_getElem? (i := 0) (by rwa [List.getElem?_drop]), hpb⟩
  rw [← List.take_append_drop j xs, List.countP_append] at h
  omega

/-! ## A node is entered before it is visited again -/

/-- A visit of the compiler to a node. -/
inductive Visit
  /-- The node is visited for the first time. -/
  | first (id : String)
  /-- The node is visited again. -/
  | again (id : String)

/-- The visit that a thing done by the compiler is. -/
def Item.visit? : Item → Option Visit
  | .enter id _ => some (.first id)
  | .revisit id _ => some (.again id)
  | .emit _ _ => none

namespace Forest

/-- The visits of a forest, in order. -/
def visits : Forest → List Visit
  | .nil => []
  | .dead f => f.visits
  | .jump id f => .again id :: f.visits
  | .enter n g f => .first n.id :: (g.visits ++ f.visits)

lemma first_mem_visits {f : Forest} {x : String} (h : x ∈ f.enteredIds) :
    Visit.first x ∈ f.visits := by
  induction f with
  | nil => cases h
  | dead f ih => exact ih h
  | jump id f ih => exact List.mem_cons_of_mem _ (ih h)
  | enter n g f ih₁ ih₂ =>
    rw [enteredIds_enter, List.mem_cons, List.mem_append] at h
    rw [visits, List.mem_cons, List.mem_append]
    rcases h with rfl | h | h
    · exact .inl rfl
    · exact .inr (.inl (ih₁ h))
    · exact .inr (.inr (ih₂ h))

/-- The visits, read off what is done. -/
lemma Follows.filterMap_visit? {d : Document} {options : Options} {targets : List (Option String)}
    {f : Forest} (h : Follows d targets f) (indent : UInt32) :
    (f.items d options indent).flatten.filterMap Item.visit? = f.visits := by
  induction h generalizing indent with
  | nil => rfl
  | dead _ _ ih => simpa [items, visits] using ih indent
  | jump _ _ ih =>
    simp only [items, List.flatten_cons, List.singleton_append, List.filterMap_cons, Item.visit?,
      visits, ih indent]
  | enter _ hg _ ih₁ ih₂ =>
    simp only [items, List.flatten_cons, List.cons_append, List.filterMap_cons, Item.visit?,
      List.filterMap_append, ih₂, visits]
    rw [hg.filterMap_fill indent (fun _ _ => rfl), ih₁]

end Forest

namespace Document

variable {d : Document} {options : Options}

/-- A node that is visited again was entered before, unless it was gone from the beginning. -/
lemma first_before_again (targets : List (Option String)) (u : IdSet) {x : String} :
    ∀ {pre post : List Visit}, (d.forest targets u).visits = pre ++ .again x :: post →
      x ∉ u ∨ .first x ∈ pre := by
  induction targets, u using grow_induction (d := d) with
  | nil u =>
    intro pre post h
    rw [forest_nil, Forest.visits] at h
    simp at h
  | dead h ih =>
    intro pre post hvisits
    rw [forest_dead h] at hvisits
    exact ih hvisits
  | @enter target rest u n h hu ih₁ ih₂ =>
    intro pre post hvisits
    rw [forest_enter h hu, Forest.visits] at hvisits
    rcases List.cons_eq_append_iff.1 hvisits with ⟨-, heq⟩ | ⟨pre, rfl, hinner⟩
    · cases heq
    rw [List.mem_cons, Visit.first.injEq]
    by_cases hx : x = n.id
    · exact .inr (.inl hx)
    -- otherwise `x` is among the unvisited nodes if and only if it was before
    have hin : x ∉ u.erase n.id → x ∉ u := by
      intro hnot hmem
      exact hnot (Std.HashSet.mem_erase.2 ⟨by simpa using Ne.symm hx, hmem⟩)
    rcases append_eq_append_cons hinner with ⟨post', hinside, -⟩ | ⟨pre', rfl, hbehind⟩
    · exact (ih₁ hinside).imp hin .inr
    · rcases ih₂ hbehind with hleft | hfirst
      · by_cases hentered : x ∈ (d.forest (d.outlets n) (u.erase n.id)).enteredIds
        · exact .inr (.inr (List.mem_append_left _ (Forest.first_mem_visits hentered)))
        · exact .inl (hin fun hmem => hleft ((mem_left _ _ x).2 ⟨hmem, hentered⟩))
      · exact .inr (.inr (List.mem_append_right _ hfirst))
  | @jump target rest u n h hu ih =>
    intro pre post hvisits
    rw [forest_jump h hu, Forest.visits] at hvisits
    rcases List.cons_eq_append_iff.1 hvisits with ⟨rfl, heq⟩ | ⟨pre', rfl, heq⟩
    · obtain ⟨heq, -⟩ := List.cons.inj heq
      obtain rfl := Visit.again.inj heq
      exact .inl hu
    · exact (ih heq).imp id (List.mem_cons_of_mem _)

/-- What the compiler visits again it has entered before. -/
theorem entered_before_revisited {pre post : List Item} {x : String} {k : UInt32}
    (h : d.items options = pre ++ .revisit x k :: post) : ∃ k', .enter x k' ∈ pre := by
  have hvisits : d.trunk.visits =
      pre.filterMap Item.visit? ++ .again x :: post.filterMap Item.visit? := by
    rw [← @Forest.Follows.filterMap_visit? d options _ _ follows_trunk 0, ← items, h]
    simp [Item.visit?]
  have hfirst : Visit.first x ∈ pre.filterMap Item.visit? := by
    rcases first_before_again _ _ hvisits with hnot | hfirst
    · -- every node of the document can be entered at first
      have hjump : x ∈ d.trunk.jumps := by
        rw [← filterMap_revisited?_items options, h]
        simp [Item.revisited?]
      exact absurd (mem_allIds.2 (follows_trunk.node?_jumps hjump)) hnot
    · exact hfirst
  obtain ⟨i, hi, hvisit⟩ := List.mem_filterMap.1 hfirst
  cases i with
  | enter y k' =>
    obtain rfl := Visit.first.inj (Option.some.inj hvisit)
    exact ⟨k', hi⟩
  | revisit y k' => cases hvisit
  | emit owner c => cases hvisit

/-! ## Labels and jumps among the commands -/

/-- A command stands at one place of what the compiler does. -/
lemma exists_split_of_flatMap {α β : Type} {f : α → List β} {xs : List α} {front back : List β}
    {b : β} (h : xs.flatMap f = front ++ b :: back) :
    ∃ pre x post, xs = pre ++ x :: post ∧ b ∈ f x ∧ pre.flatMap f <+: front := by
  induction xs generalizing front with
  | nil => simp at h
  | cons x xs ih =>
    rw [List.flatMap_cons] at h
    rcases append_eq_append_cons h with ⟨back', hx, -⟩ | ⟨front', rfl, hrest⟩
    · exact ⟨[], x, xs, rfl, by simp [hx], List.nil_prefix⟩
    · obtain ⟨pre, y, post, rfl, hb, hpre⟩ := ih hrest
      exact ⟨x :: pre, y, post, rfl, hb, by simpa using hpre⟩

/-- The own commands of nodes are no labels and no jumps. -/
lemma opcode_of_emit {owner : String} {c : Command} (h : .emit owner c ∈ d.items options) :
    c.opcode ≠ .label ∧ c.opcode ≠ .jumpToLabel := by
  obtain ⟨n, -, -, k, hown⟩ := follows_trunk.mem_own_of_emit h
  refine ⟨opcode_ne_label hown, fun hjump => ?_⟩
  rcases mem_own hown with h | h | ⟨rfl, -⟩
  · rw [hjump] at h
    cases h
  · rw [hjump] at h
    cases h
  · cases hjump

/-- A command that jumps is what a node gives that is visited again. -/
lemma eq_revisit_of_jump {i : Item} (hi : i ∈ d.items options) {c : Command}
    (hc : c ∈ i.commands d.needsLabel) (hjump : c.opcode = .jumpToLabel) :
    ∃ x k, i = .revisit x k ∧ c = .jumpToLabel k x := by
  cases i with
  | enter x k =>
    rw [Item.commands] at hc
    split at hc
    · obtain rfl := List.mem_singleton.1 hc
      cases hjump
    · cases hc
  | revisit x k => exact ⟨x, k, rfl, List.mem_singleton.1 hc⟩
  | emit owner c' =>
    obtain rfl := List.mem_singleton.1 hc
    exact absurd hjump (opcode_of_emit hi).2

/-- A label is what a node gives that is entered and needs one. -/
lemma eq_enter_of_label {i : Item} (hi : i ∈ d.items options) {c : Command}
    (hc : c ∈ i.commands d.needsLabel) (hlabel : c.opcode = .label) :
    ∃ x k, i = .enter x k ∧ d.needsLabel x ∧ c = .label k x := by
  cases i with
  | enter x k =>
    rw [Item.commands] at hc
    split at hc
    · next hneeds => exact ⟨x, k, rfl, hneeds, List.mem_singleton.1 hc⟩
    · cases hc
  | revisit x k =>
    obtain rfl := List.mem_singleton.1 hc
    cases hlabel
  | emit owner c' =>
    obtain rfl := List.mem_singleton.1 hc
    exact absurd hlabel (opcode_of_emit hi).1

/-- A node that there is a jump to gets a label. -/
lemma needsLabel_of_revisit {x : String} {k : UInt32} (h : .revisit x k ∈ d.items options) :
    d.needsLabel x := by
  have hjump : x ∈ d.trunk.jumps := by
    rw [← filterMap_revisited?_items options]
    exact List.mem_filterMap.2 ⟨_, h, rfl⟩
  simp [needsLabel, hjump]

/-- In front of every jump stands the label that it leads to. -/
theorem label_before_jump {front back : List Command} {c : Command}
    (h : d.compile options = front ++ c :: back) (hjump : c.opcode = .jumpToLabel) :
    ∃ l ∈ front, l.opcode = .label ∧ l.parameters = c.parameters := by
  cases hstart : d.start? with
  | none =>
    rw [compile_of_start_eq_none hstart] at h
    simp at h
  | some start =>
    rw [compile_eq hstart] at h
    -- the end is no jump, so the jump stands before it
    rcases append_eq_append_cons h with ⟨back', hitems, -⟩ | ⟨front', -, hend⟩
    swap
    · obtain ⟨-, rfl, -⟩ | ⟨_, -, heq⟩ := List.cons_eq_append_iff.1 hend
      · cases hjump
      · simp at heq
    obtain ⟨pre, i, post, heq, hc, hpre⟩ := exists_split_of_flatMap hitems
    have hi : i ∈ d.items options := by simp [heq]
    obtain ⟨x, k, rfl, rfl⟩ := eq_revisit_of_jump hi hc hjump
    obtain ⟨k', henter⟩ := entered_before_revisited heq
    refine ⟨.label k' x, hpre.subset ?_, rfl, rfl⟩
    refine List.mem_flatMap.2 ⟨_, henter, ?_⟩
    rw [Item.commands, if_pos (needsLabel_of_revisit hi)]
    exact List.mem_singleton_self _

/-- A dialogue that does anything has a beginning. -/
lemma exists_start_of_mem_items {i : Item} (h : i ∈ d.items options) :
    ∃ start, d.start? = some start := by
  cases hstart : d.start? with
  | some start => exact ⟨start, rfl⟩
  | none =>
    have hentrance : d.nodeAt? d.entrance? = none := by simp [entrance?, hstart, nodeAt?]
    rw [items_of_dead_entrance hentrance] at h
    cases h

/-- The commands of a program are those of the things that the compiler does, and the end. -/
lemma mem_compile {c : Command} (hc : c.opcode ≠ .stop) :
    c ∈ d.compile options ↔ ∃ i ∈ d.items options, c ∈ i.commands d.needsLabel := by
  constructor
  · intro h
    cases hstart : d.start? with
    | none => simp [compile_of_start_eq_none hstart] at h
    | some start =>
      rw [compile_eq hstart, List.mem_append, List.mem_flatMap, List.mem_singleton] at h
      rcases h with h | rfl
      · exact h
      · exact absurd rfl hc
  · rintro ⟨i, hi, hic⟩
    obtain ⟨start, hstart⟩ := exists_start_of_mem_items hi
    rw [compile_eq hstart]
    exact List.mem_append_left _ (List.mem_flatMap.2 ⟨i, hi, hic⟩)

lemma exists_enter_iff {x : String} :
    (∃ k, .enter x k ∈ d.items options) ↔ x ∈ d.trunk.enteredIds := by
  rw [← filterMap_entered?_items options, List.mem_filterMap]
  constructor
  · rintro ⟨k, hk⟩
    exact ⟨_, hk, rfl⟩
  · rintro ⟨i, hi, hx⟩
    cases i with
    | enter y k =>
      obtain rfl := Option.some.inj hx
      exact ⟨k, hi⟩
    | revisit y k => cases hx
    | emit owner c => cases hx

lemma exists_revisit_iff {x : String} :
    (∃ k, .revisit x k ∈ d.items options) ↔ x ∈ d.trunk.jumps := by
  rw [← filterMap_revisited?_items options, List.mem_filterMap]
  constructor
  · rintro ⟨k, hk⟩
    exact ⟨_, hk, rfl⟩
  · rintro ⟨i, hi, hx⟩
    cases i with
    | revisit y k =>
      obtain rfl := Option.some.inj hx
      exact ⟨k, hi⟩
    | enter y k => cases hx
    | emit owner c => cases hx

/-- The labels of a program, in order: one for each node that is entered and needs one. -/
lemma labels_compile :
    ((d.compile options).filter (·.opcode = .label)).map Command.parameters =
      (d.trunk.enteredIds.filter d.needsLabel).map fun x => [.str (labelName x)] := by
  have hitems : ∀ items : List Item,
      (∀ owner c, .emit owner c ∈ items → c.opcode ≠ .label) →
      ((items.flatMap (Item.commands d.needsLabel)).filter (·.opcode = .label)).map
          Command.parameters =
        ((items.filterMap Item.entered?).filter d.needsLabel).map fun x =>
          [.str (labelName x)] := by
    intro items hemit
    induction items with
    | nil => rfl
    | cons i items ih =>
      have ih := ih fun owner c hc => hemit owner c (List.mem_cons_of_mem _ hc)
      rw [List.flatMap_cons, List.filter_append, List.map_append, ih, List.filterMap_cons]
      cases i with
      | enter x k =>
        rw [Item.commands, Item.entered?, List.filter_cons]
        split <;> simp [Command.label]
      | revisit x k => simp [Item.commands, Item.entered?, Command.jumpToLabel]
      | emit owner c => simp [Item.commands, Item.entered?, hemit owner c List.mem_cons_self]
  cases hstart : d.start? with
  | none =>
    have hentrance : d.nodeAt? d.entrance? = none := by simp [entrance?, hstart, nodeAt?]
    rw [compile_of_start_eq_none hstart, ← filterMap_entered?_items options,
      items_of_dead_entrance hentrance]
    rfl
  | some start =>
    rw [compile_eq hstart, List.filter_append, List.map_append, hitems _ ?_,
      filterMap_entered?_items]
    · simp [Command.stop]
    · exact fun owner c hc => (opcode_of_emit hc).1

/-- The labels of a program are those of the nodes that are entered and need one. -/
lemma exists_isLabelOf_iff {x : String} :
    (∃ c ∈ d.compile options, c.isLabelOf x) ↔ x ∈ d.trunk.enteredIds ∧ d.needsLabel x := by
  constructor
  · rintro ⟨c, hc, hlabel⟩
    obtain ⟨hopcode, hname⟩ : c.opcode = .label ∧ c.parameters = [.str (labelName x)] := by
      simpa [Command.isLabelOf] using hlabel
    obtain ⟨i, hi, hic⟩ := (mem_compile (by simp [hopcode])).1 hc
    obtain ⟨y, k, rfl, hneeds, rfl⟩ := eq_enter_of_label hi hic hopcode
    obtain rfl : y = x := labelName_injective (by simpa [Command.label] using hname)
    exact ⟨exists_enter_iff.1 ⟨k, hi⟩, hneeds⟩
  · rintro ⟨hentered, hneeds⟩
    obtain ⟨k, hk⟩ := (@exists_enter_iff d options x).2 hentered
    refine ⟨.label k x, (mem_compile (by simp [Command.label])).2 ⟨_, hk, ?_⟩, ?_⟩
    · rw [Item.commands, if_pos hneeds]
      exact List.mem_singleton_self _
    · simp [Command.isLabelOf, Command.label]

/-- The jumps of a program lead to the nodes that are visited again. -/
lemma exists_isJumpTo_iff {x : String} :
    (∃ c ∈ d.compile options, c.isJumpTo x) ↔ x ∈ d.trunk.jumps := by
  constructor
  · rintro ⟨c, hc, hjump⟩
    obtain ⟨hopcode, hname⟩ : c.opcode = .jumpToLabel ∧ c.parameters = [.str (labelName x)] := by
      simpa [Command.isJumpTo] using hjump
    obtain ⟨i, hi, hic⟩ := (mem_compile (by simp [hopcode])).1 hc
    obtain ⟨y, k, rfl, rfl⟩ := eq_revisit_of_jump hi hic hopcode
    obtain rfl : y = x := labelName_injective (by simpa [Command.jumpToLabel] using hname)
    exact exists_revisit_iff.1 ⟨k, hi⟩
  · intro hx
    obtain ⟨k, hk⟩ := (@exists_revisit_iff d options x).2 hx
    refine ⟨.jumpToLabel k x, (mem_compile (by simp [Command.jumpToLabel])).2 ⟨_, hk, ?_⟩, ?_⟩
    · exact List.mem_singleton_self _
    · simp [Command.isJumpTo, Command.jumpToLabel]

end Document

/-! ## Where bodies begin -/

/-- Where the body of a node begins in the program, if the node was entered behind the entries
`before`: every label that is put in at the end for one of these moves it by one. -/
def Emission.placeOf (st : Emission) (before : List Entry) (e : Entry) : Nat :=
  e.position +
    (before.filter fun e => st.wanted.contains e.id && !st.labeled.contains e.id).length

namespace Emission

variable {index : Index}

/-- An entry is made when a node is entered, and holds how much was emitted before. -/
lemma exists_split_of_entriesFrom {k : Nat} {items : List Item} {before after : List Entry}
    {e : Entry} (h : entriesFrom index k items = before ++ e :: after) :
    ∃ pre post, items = pre ++ .enter e.id e.indent :: post ∧
      before = entriesFrom index k pre ∧
      e.position = k + (pre.flatMap (Item.commands index.isConvergence)).length := by
  induction items generalizing k before with
  | nil => simp [entriesFrom] at h
  | cons i items ih =>
    cases i with
    | enter id indent =>
      rw [entriesFrom] at h
      rcases List.cons_eq_append_iff.1 h with ⟨rfl, heq⟩ | ⟨before', rfl, hrest⟩
      · obtain ⟨rfl, -⟩ := List.cons.inj heq
        exact ⟨[], items, rfl, rfl, rfl⟩
      · obtain ⟨pre, post, rfl, rfl, hposition⟩ := ih hrest
        refine ⟨.enter id indent :: pre, post, rfl, rfl, ?_⟩
        rw [hposition, List.flatMap_cons, List.length_append, Item.commands]
        split <;> simp [Nat.add_assoc]
    | revisit id indent =>
      obtain ⟨pre, post, rfl, rfl, hposition⟩ := ih h
      refine ⟨.revisit id indent :: pre, post, rfl, rfl, ?_⟩
      rw [hposition, List.flatMap_cons, List.length_append, Item.commands, List.length_singleton]
      omega
    | emit owner c =>
      obtain ⟨pre, post, rfl, rfl, hposition⟩ := ih h
      refine ⟨.emit owner c :: pre, post, rfl, rfl, ?_⟩
      rw [hposition, List.flatMap_cons, List.length_append, Item.commands, List.length_singleton]
      omega

lemma map_id_entriesFrom (k : Nat) (items : List Item) :
    (entriesFrom index k items).map Entry.id = items.filterMap Item.entered? := by
  induction items generalizing k with
  | nil => rfl
  | cons i items ih =>
    cases i with
    | enter id indent =>
      rw [entriesFrom, List.map_cons, ih, List.filterMap_cons, Item.entered?]
    | revisit id indent =>
      rw [entriesFrom, ih, List.filterMap_cons, Item.entered?]
    | emit owner c =>
      rw [entriesFrom, ih, List.filterMap_cons, Item.entered?]

/-- The labels that are put in later, counted by the entries. -/
lemma length_flatMap_commands (later : String → Bool) (k : Nat) (items : List Item) :
    (items.flatMap (Item.commands fun x => index.isConvergence x || later x)).length =
      (items.flatMap (Item.commands index.isConvergence)).length +
        ((entriesFrom index k items).filter fun e =>
          !index.isConvergence e.id && later e.id).length := by
  induction items generalizing k with
  | nil => simp [entriesFrom]
  | cons i items ih =>
    cases i with
    | enter id indent =>
      have ih' := ih (k + if index.isConvergence id then 1 else 0)
      rw [List.flatMap_cons, List.flatMap_cons, List.length_append, List.length_append,
        Item.commands, Item.commands, entriesFrom, List.filter_cons, ih']
      by_cases hconv : index.isConvergence id
      · simp only [hconv, Bool.true_or, Bool.not_true, Bool.false_and, if_true, Bool.false_eq_true,
          if_false]
        omega
      · by_cases hlater : later id
        · simp only [hconv, hlater, Bool.or_true, Bool.not_false, Bool.and_true, if_true,
            Bool.false_eq_true, if_false, List.length_cons, List.length_nil]
          omega
        · simp only [hconv, hlater, Bool.or_false, Bool.and_false, Bool.false_eq_true, if_false,
            List.length_nil, Nat.zero_add]
    | revisit id indent =>
      have ih' := ih (k + 1)
      simp only [List.flatMap_cons, List.length_append, Item.commands, entriesFrom]
      omega
    | emit owner c =>
      have ih' := ih (k + 1)
      simp only [List.flatMap_cons, List.length_append, Item.commands, entriesFrom]
      omega

end Emission

/-! ## What stands at the beginning of a body -/

/-- Behind every entry into a node stands what is done at the node. -/
def Opens (d : Document) (options : Options) (items : List Item) : Prop :=
  ∀ pre x k post, items = pre ++ .enter x k :: post →
    ∃ n g rest, d.node? x = some n ∧ Forest.Follows d (d.outlets n) g ∧
      post = (d.layout options n k).fill (.emit n.id)
        (g.items d options (d.layout options n k).depth) ++ rest

namespace Opens

variable {d : Document} {options : Options}

lemma append {items items' : List Item} (h : Opens d options items) (h' : Opens d options items') :
    Opens d options (items ++ items') := by
  intro pre x k post heq
  rcases append_eq_append_cons heq with ⟨post', hitems, rfl⟩ | ⟨pre', -, hitems'⟩
  · obtain ⟨n, g, rest, hn, hg, rfl⟩ := h _ _ _ _ hitems
    exact ⟨n, g, rest ++ items', hn, hg, List.append_assoc _ _ _⟩
  · exact h' _ _ _ _ hitems'

lemma emits (owner : String) (cs : List Command) : Opens d options (cs.map (.emit owner)) := by
  intro pre x k post heq
  have hmem : .enter x k ∈ cs.map (Item.emit owner) := by simp [heq]
  obtain ⟨c, -, hc⟩ := List.mem_map.1 hmem
  cases hc

lemma weave (owner : String) (slots : List Slot) (bodies : List (List Item))
    (h : ∀ body ∈ bodies, Opens d options body) :
    Opens d options (Dialogue.weave (.emit owner) slots bodies) := by
  induction slots generalizing bodies with
  | nil => exact emits owner []
  | cons s slots ih =>
    cases bodies with
    | nil => exact emits owner []
    | cons body bodies =>
      have hbody := h body List.mem_cons_self
      have hrest := ih bodies fun body' hbody' => h body' (List.mem_cons_of_mem _ hbody')
      exact (((emits owner s.before).append hbody).append (emits owner s.after)).append hrest

lemma flatten {bodies : List (List Item)} (h : ∀ body ∈ bodies, Opens d options body) :
    Opens d options bodies.flatten := by
  induction bodies with
  | nil => exact emits "" []
  | cons body bodies ih =>
    rw [List.flatten_cons]
    exact (h body List.mem_cons_self).append (ih fun b hb => h b (List.mem_cons_of_mem _ hb))

end Opens

namespace Document

variable {d : Document} {options : Options}

lemma opens_of_follows {targets : List (Option String)} {f : Forest}
    (h : Forest.Follows d targets f) (indent : UInt32) :
    ∀ body ∈ f.items d options indent, Opens d options body := by
  induction h generalizing indent with
  | nil => nofun
  | dead _ _ ih =>
    intro body hbody
    rcases List.mem_cons.1 hbody with rfl | hbody
    · exact .emits "" []
    · exact ih indent body hbody
  | jump _ _ ih =>
    intro body hbody
    rcases List.mem_cons.1 hbody with rfl | hbody
    · intro pre x k post heq
      have hmem := congrArg (Item.enter x k ∈ ·) heq
      simp at hmem
    · exact ih indent body hbody
  | @enter target targets n g f hn hg _ ih₁ ih₂ =>
    intro body hbody
    rcases List.mem_cons.1 hbody with rfl | hbody
    · intro pre x k post heq
      rcases List.cons_eq_append_iff.1 heq with ⟨-, heq⟩ | ⟨pre', -, hfill⟩
      · -- the node itself
        obtain ⟨hitem, rfl⟩ := List.cons.inj heq
        obtain ⟨rfl, rfl⟩ := Item.enter.inj hitem
        exact ⟨n, g, [], (nodeAt?_eq_some hn).2, hg, (List.append_nil _).symm⟩
      · -- a node inside of it
        have hopens : Opens d options ((d.layout options n indent).fill (.emit n.id)
            (g.items d options (d.layout options n indent).depth)) :=
          ((Opens.emits n.id _).append (.weave n.id _ _ (ih₁ _))).append (.emits n.id _)
        exact hopens _ _ _ _ hfill
    · exact ih₂ indent body hbody

lemma opens_items : Opens d options (d.items options) :=
  .flatten (opens_of_follows follows_trunk 0)

/-! ## The program -/

/-- The state of the compiler when its tasks are done. -/
def finished (d : Document) (options : Options) : Emission :=
  Emission.run (Index.ofDocument d) options (visitAny d.entrance? 0)
    (.initial (Index.ofDocument d))

lemma finished_eq : d.finished options = d.emission options :=
  run_entrance

/-- A program, cut where the body of a node begins. -/
theorem drop_placeOf {before after : List Entry} {e : Entry}
    (h : (d.finished options).entries.toList = before ++ e :: after) :
    ∃ n bodies rest, d.node? e.id = some n ∧
      bodies.length = (d.layout options n e.indent).slots.length ∧
      (d.compile options).drop ((d.finished options).placeOf before e) =
        d.labelAt e.indent e.id ++ (d.layout options n e.indent).fill id bodies ++ rest := by
  rw [finished_eq] at h ⊢
  have hentries : Emission.entriesFrom (Index.ofDocument d) 0 (d.items options) =
      before ++ e :: after := by
    rw [← h, emission, Emission.entries_performAll]
    simp [Emission.initial]
  obtain ⟨pre, post, hitems, hbefore, hposition⟩ := Emission.exists_split_of_entriesFrom hentries
  obtain ⟨n, g, rest, hn, hg, hpost⟩ := opens_items _ _ _ _ hitems
  have hplace : (d.emission options).placeOf before e =
      (pre.flatMap (Item.commands d.needsLabel)).length := by
    have hlater : before.filter (fun e => (d.emission options).wanted.contains e.id &&
        !(d.emission options).labeled.contains e.id) =
        before.filter fun e =>
          !(Index.ofDocument d).isConvergence e.id && d.trunk.jumps.contains e.id :=
      List.filter_congr fun e' he' => lacksLabel_iff (by simp [h, he'])
    have hlength := @Emission.length_flatMap_commands (Index.ofDocument d) d.trunk.jumps.contains
      0 pre
    rw [Emission.placeOf, hlater, hposition, Nat.zero_add, hbefore]
    exact hlength.symm
  obtain ⟨start, hstart⟩ := exists_start_of_mem_items (i := .enter e.id e.indent) (by
    rw [hitems]
    simp)
  refine ⟨n, g.codes d options (d.layout options n e.indent).depth,
    rest.flatMap (Item.commands d.needsLabel) ++ [.stop 0], hn, ?_, ?_⟩
  · rw [Forest.codes, List.length_map]
    exact hg.length_bodies options e.indent
  · have hfill := @flatMap_fill Command (Item.commands d.needsLabel) n.id id (fun c => rfl)
      (d.layout options n e.indent) (g.items d options (d.layout options n e.indent).depth)
    rw [hplace, compile_eq hstart, hitems, List.flatMap_append, List.append_assoc,
      List.drop_left, List.flatMap_cons, hpost, List.flatMap_append, hfill]
    simp [Forest.codes, Item.commands, labelAt]

lemma map_id_entries :
    (d.finished options).entries.toList.map Entry.id = d.trunk.enteredIds := by
  rw [finished_eq, emission, Emission.entries_performAll, ← filterMap_entered?_items options,
    ← @Emission.map_id_entriesFrom (Index.ofDocument d) 0]
  simp [Emission.initial]

/-- Labels and jumps match.  No label stands twice, and every jump leads back to a label.  The nodes
that are reached are entered, and one of them has a label exactly if several edges enter it or there
is a jump to it; the label stands where the body of the node begins, at the depth at which the node
was entered. -/
theorem labels_match_jumps (d : Document) (options : Options) :
    (((d.compile options).filter (·.opcode = .label)).map Command.parameters).Nodup ∧
      (∀ (j : ℕ) (c : Command), (d.compile options)[j]? = some c → c.opcode = .jumpToLabel →
        ∃ (i : ℕ) (l : Command), i < j ∧ (d.compile options)[i]? = some l ∧ l.opcode = .label ∧
          l.parameters = c.parameters) ∧
      (∀ x, (∃ e ∈ (d.finished options).entries.toList, e.id = x) ↔ d.Reached x) ∧
      ∀ before e after, (d.finished options).entries.toList = before ++ e :: after →
        let place := (d.finished options).placeOf before e
        ((∃ c ∈ d.compile options, c.isLabelOf e.id) ↔
          1 < (d.incoming e.id).length ∨ ∃ c ∈ d.compile options, c.isJumpTo e.id) ∧
        (∀ (i : ℕ) (c : Command), (d.compile options)[i]? = some c → c.isLabelOf e.id →
          i = place) ∧
        ∃ n bodies rest, d.node? e.id = some n ∧
          bodies.length = (d.layout options n e.indent).slots.length ∧
          (d.compile options).drop place =
            (if (d.compile options).any (Command.isLabelOf e.id) then [.label e.indent e.id]
              else []) ++ (d.layout options n e.indent).fill id bodies ++ rest := by
  refine ⟨?_, ?_, ?_, ?_⟩
  · rw [labels_compile]
    refine (nodup_trunk.filter _).map fun x y h => labelName_injective ?_
    simpa using h
  · intro j c hc hjump
    obtain ⟨hj, rfl⟩ := List.getElem?_eq_some_iff.1 hc
    obtain ⟨l, hl, hlabel, hname⟩ := label_before_jump
      ((List.take_append_drop j _).symm.trans (by rw [List.drop_eq_getElem_cons hj])) hjump
    obtain ⟨i, hi, rfl⟩ := List.mem_take_iff_getElem.1 hl
    exact ⟨i, _, by omega, List.getElem?_eq_getElem _, hlabel, hname⟩
  · intro x
    rw [← mem_enteredIds_iff, ← @map_id_entries d options, List.mem_map]
  · intro before e after hentries
    have hentered : e.id ∈ d.trunk.enteredIds := by
      rw [← @map_id_entries d options, hentries]
      simp
    have hlabel : (∃ c ∈ d.compile options, c.isLabelOf e.id) ↔ d.needsLabel e.id := by
      rw [exists_isLabelOf_iff, and_iff_right hentered]
    obtain ⟨n, bodies, rest, hn, hlength, hdrop⟩ := drop_placeOf hentries
    refine ⟨?_, ?_, n, bodies, rest, hn, hlength, ?_⟩
    · rw [hlabel, exists_isJumpTo_iff, needsLabel, Index.isConvergence_ofDocument]
      simp
    · intro i c hc hc'
      have hneeds := hlabel.1 ⟨c, List.mem_of_getElem? hc, hc'⟩
      rw [labelAt, if_pos hneeds] at hdrop
      have hplace : (d.compile options)[(d.finished options).placeOf before e]? =
          some (.label e.indent e.id) := by
        rw [← Nat.add_zero (Emission.placeOf _ _ _), ← List.getElem?_drop, hdrop]
        rfl
      refine getElem?_unique (d.countP_isLabelOf_le_one options e.id) hc hc' hplace ?_
      simp [Command.isLabelOf, Command.label]
    · have hany : (d.compile options).any (Command.isLabelOf e.id) = d.needsLabel e.id := by
        rw [Bool.eq_iff_iff, List.any_eq_true]
        exact hlabel
      rw [hdrop, labelAt, hany]

end Document

end Dialogue
