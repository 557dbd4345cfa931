import Dialogue.Proofs.Walk
/-!
Where the trees of a forest stand in a program.

Each outlet of a node that is entered has a place in the program: the commands of its tree stand
there, and other commands stand behind them.  A place is found by going down from the entrance
through the slots of the nodes on the way (`Place`), and these are the blocks around it (its path).
Every node that is entered has a place, so a jump to its label finds its commands
(`Place.dropWhile_label`).

The commands are taken together with the nodes that they belong to, so that a position in a program
tells its node.
-/

namespace Dialogue

/-! ## Commands with their nodes -/

/-- The node that one thing the compiler does is about. -/
def Item.owner : Item → String
  | .enter id _ => id
  | .revisit id _ => id
  | .emit owner _ => owner

/-- The commands of one thing the compiler does, with their node. -/
def Item.placed (needs : String → Bool) (i : Item) : List (String × Command) :=
  (i.commands needs).map (Prod.mk i.owner)

namespace Forest

variable (d : Document) (options : Options) (indent : UInt32)

/-- The commands of each tree of a forest, with their nodes. -/
def placed (f : Forest) : List (List (String × Command)) :=
  (f.items d options indent).map (List.flatMap (Item.placed d.needsLabel))

variable {d options}

@[simp] lemma placed_nil : placed d options indent .nil = [] := rfl

@[simp] lemma placed_dead (f : Forest) :
    placed d options indent (.dead f) = [] :: f.placed d options indent := rfl

@[simp] lemma placed_jump (id : String) (f : Forest) :
    placed d options indent (.jump id f) =
      [(id, .jumpToLabel indent id)] :: f.placed d options indent := rfl

@[simp] lemma placed_enter (n : Node) (g f : Forest) :
    placed d options indent (.enter n g f) =
      ((d.labelAt indent n.id).map (Prod.mk n.id) ++
        (d.layout options n indent).fill (Prod.mk n.id)
          (g.placed d options (d.layout options n indent).depth)) ::
        f.placed d options indent := by
  have hfill := @flatMap_fill (String × Command) (Item.placed d.needsLabel) n.id (Prod.mk n.id)
    (fun c => rfl) (d.layout options n indent)
    (g.items d options (d.layout options n indent).depth)
  simp [placed, items, hfill, Item.placed, Item.owner, Item.commands, Document.labelAt]

lemma map_snd_placed (f : Forest) :
    (f.placed d options indent).map (List.map Prod.snd) = f.codes d options indent := by
  rw [placed, codes, List.map_map]
  refine List.map_congr_left fun body _ => ?_
  simp only [Function.comp_apply, List.map_flatMap]
  refine List.flatMap_congr fun i _ => ?_
  simp [Item.placed, Function.comp_def]

end Forest

/-- The commands of a program, with their nodes; the end belongs to none. -/
def Document.located (d : Document) (options : Options) : List (String × Command) :=
  match d.start? with
  | none => []
  | some _ => (d.trunk.placed d options 0).flatten ++ [("", .stop 0)]

lemma Document.exists_placed_trunk (d : Document) (options : Options) :
    ∃ code, d.trunk.placed d options 0 = [code] := by
  refine List.length_eq_one_iff.1 ?_
  rw [Forest.placed, List.length_map, follows_trunk.length_items]
  rfl

lemma Document.map_snd_located (d : Document) (options : Options) :
    (d.located options).map Prod.snd = d.compile options := by
  rw [located]
  cases hstart : d.start? with
  | none => rw [compile_of_start_eq_none hstart, List.map_nil]
  | some start =>
    simp only [List.map_append, List.map_flatten, Forest.map_snd_placed, compile_eq_codes hstart,
      List.map_cons, List.map_nil]

lemma snd_comp_mk (owner : String) : Prod.snd ∘ Prod.mk owner = (id : Command → Command) :=
  rfl

/-! ## Behind a slot -/

section Behind

variable {α β : Type} (wrap : Command → α)

/-- What stands behind the slot at `i` of a layout that is filled. -/
def Layout.behind (l : Layout) (bodies : List (List α)) (i : ℕ) : List α :=
  (l.slots[i]?.toList.flatMap Slot.after).map wrap ++
    weave wrap (l.slots.drop (i + 1)) (bodies.drop (i + 1)) ++ l.last.map wrap

lemma weave_split {slots : List Slot} {bodies : List (List α)} {i : ℕ} {s : Slot} {body : List α}
    (hs : slots[i]? = some s) (hbody : bodies[i]? = some body) :
    ∃ before, weave wrap slots bodies = before ++ (body ++ (s.after.map wrap ++
      weave wrap (slots.drop (i + 1)) (bodies.drop (i + 1)))) := by
  induction i generalizing slots bodies with
  | zero =>
    cases slots with
    | nil => cases hs
    | cons s' ss =>
      cases bodies with
      | nil => cases hbody
      | cons b bs =>
        obtain rfl : s' = s := by simpa using hs
        obtain rfl : b = body := by simpa using hbody
        exact ⟨s'.before.map wrap, by simp [weave]⟩
  | succ i ih =>
    cases slots with
    | nil => cases hs
    | cons s' ss =>
      cases bodies with
      | nil => cases hbody
      | cons b bs =>
        obtain ⟨before, hbefore⟩ := @ih ss bs (by simpa using hs) (by simpa using hbody)
        exact ⟨s'.before.map wrap ++ b ++ s'.after.map wrap ++ before, by simp [weave, hbefore]⟩

/-- A layout that is filled, cut in front of what fills the slot at `i`. -/
lemma Layout.fill_split {l : Layout} {bodies : List (List α)} {i : ℕ} {body : List α}
    (hi : i < l.slots.length) (hbody : bodies[i]? = some body) :
    ∃ before, l.fill wrap bodies = before ++ (body ++ l.behind wrap bodies i) := by
  obtain ⟨before, hbefore⟩ := weave_split wrap (List.getElem?_eq_getElem hi) hbody
  refine ⟨l.head.map wrap ++ before, ?_⟩
  simp [fill, behind, hbefore, List.getElem?_eq_getElem hi]

lemma map_weave (f : α → β) (slots : List Slot) (bodies : List (List α)) :
    (weave wrap slots bodies).map f = weave (f ∘ wrap) slots (bodies.map (List.map f)) := by
  induction slots generalizing bodies with
  | nil => rfl
  | cons s ss ih =>
    cases bodies with
    | nil => rfl
    | cons body bodies => simp [weave, ih]

lemma Layout.map_fill (f : α → β) (l : Layout) (bodies : List (List α)) :
    (l.fill wrap bodies).map f = l.fill (f ∘ wrap) (bodies.map (List.map f)) := by
  simp [fill, map_weave]

lemma Layout.map_behind (f : α → β) (l : Layout) (bodies : List (List α)) (i : ℕ) :
    (l.behind wrap bodies i).map f = l.behind (f ∘ wrap) (bodies.map (List.map f)) i := by
  simp [behind, map_weave, List.map_drop]

end Behind

/-! ## Places -/

namespace Forest

/-- A forest without its first `i` trees. -/
def drop : ℕ → Forest → Forest
  | 0, f => f
  | _ + 1, .nil => .nil
  | i + 1, .dead f => f.drop i
  | i + 1, .jump _ f => f.drop i
  | i + 1, .enter _ _ f => f.drop i

/-- How many outlets a forest has looked at. -/
def size : Forest → ℕ
  | .nil => 0
  | .dead f => f.size + 1
  | .jump _ f => f.size + 1
  | .enter _ g f => g.size + f.size + 1

/-- How many outlets the first tree of a forest has looked at. -/
def firstSize : Forest → ℕ
  | .nil => 0
  | .dead _ => 1
  | .jump _ _ => 1
  | .enter _ g _ => g.size + 1

variable {d : Document} {options : Options}

lemma placed_drop (i : ℕ) (f : Forest) (indent : UInt32) :
    (f.drop i).placed d options indent = (f.placed d options indent).drop i := by
  induction i generalizing f with
  | zero => rfl
  | succ i ih => cases f <;> simp [drop, ih]

lemma Follows.drop {targets : List (Option String)} {f : Forest} (h : Follows d targets f)
    (i : ℕ) : Follows d (targets.drop i) (f.drop i) := by
  induction i generalizing targets f with
  | zero => exact h
  | succ i ih =>
    cases h with
    | nil => exact .nil
    | dead _ h => exact ih h
    | jump _ h => exact ih h
    | enter _ _ h => exact ih h

lemma jumps_drop_subset (i : ℕ) (f : Forest) : (f.drop i).jumps ⊆ f.jumps := by
  induction i generalizing f with
  | zero => exact List.Subset.refl _
  | succ i ih =>
    cases f with
    | nil => exact List.Subset.refl _
    | dead f => exact ih f
    | jump id f => exact List.subset_cons_of_subset _ (ih f)
    | enter n g f => exact List.subset_append_of_subset_right _ (ih f)

lemma firstSize_drop_le (i : ℕ) (f : Forest) : (f.drop i).firstSize ≤ f.size := by
  induction i generalizing f with
  | zero => cases f <;> simp [drop, firstSize, size]
  | succ i ih =>
    cases f with
    | nil => exact Nat.le_refl _
    | dead f => exact Nat.le_succ_of_le (ih f)
    | jump id f => exact Nat.le_succ_of_le (ih f)
    | enter n g f =>
      have hrest := ih f
      simp only [drop, size]
      omega

end Forest

/-- `Place d options last target f indent after path`: behind node `last`, the outlet `target` has
the first tree of `f`, at depth `indent` and in front of `after`.  The path tells the nodes around
it, from the inside, each with the number of the outlet through which it was left. -/
inductive Place (d : Document) (options : Options) : Option String → Option String → Forest →
    UInt32 → List (String × Command) → List (Node × ℕ) → Prop
  | entrance : Place d options none d.entrance? d.trunk 0 [("", .stop 0)] []
  | slot {last target n g f indent after path i t} :
      Place d options last target (.enter n g f) indent after path → (d.outlets n)[i]? = some t →
      Place d options (some n.id) t (g.drop i) (d.layout options n indent).depth
        ((d.layout options n indent).behind (Prod.mk n.id)
          (g.placed d options (d.layout options n indent).depth) i ++ after)
        ((n, i) :: path)

namespace Place

variable {d : Document} {options : Options} {last target : Option String} {f : Forest}
  {indent : UInt32} {after : List (String × Command)} {path : List (Node × ℕ)}

/-- The first tree at a place is what is found behind the outlet. -/
lemma follows (h : Place d options last target f indent after path) :
    ∃ targets, Forest.Follows d (target :: targets) f := by
  induction h with
  | entrance => exact ⟨[], Document.follows_trunk⟩
  | @slot last target n g f indent after path i t _ ht ih =>
    obtain ⟨targets, hfollows⟩ := ih
    cases hfollows with
    | enter hn hg hf =>
      refine ⟨(d.outlets n).drop (i + 1), ?_⟩
      obtain ⟨hi, rfl⟩ := List.getElem?_eq_some_iff.1 ht
      rw [← List.drop_eq_getElem_cons hi]
      exact hg.drop i

lemma slot_lt {n : Node} {i : ℕ} {t : Option String} (ht : (d.outlets n)[i]? = some t) :
    i < (d.layout options n indent).slots.length := by
  obtain ⟨hi, -⟩ := List.getElem?_eq_some_iff.1 ht
  rwa [← List.length_map Slot.target, Document.map_target_slots]

/-- A place is a place of the program. -/
theorem suffix (h : Place d options last target f indent after path) (hstart : d.start? ≠ none)
    {code : List (String × Command)} (hcode : (f.placed d options indent)[0]? = some code) :
    code ++ after <:+ d.located options := by
  induction h generalizing code with
  | entrance =>
    obtain ⟨start, hstart⟩ := Option.ne_none_iff_exists'.1 hstart
    obtain ⟨code', hcode'⟩ := d.exists_placed_trunk options
    obtain rfl : code' = code := by simpa [hcode'] using hcode
    rw [Document.located, hstart, hcode']
    simp
  | @slot last target n g f indent after path i t _ ht ih =>
    have hcode' : (g.placed d options (d.layout options n indent).depth)[i]? = some code := by
      rw [Forest.placed_drop, List.getElem?_drop, Nat.add_zero] at hcode
      exact hcode
    obtain ⟨before, hfill⟩ := Layout.fill_split (Prod.mk n.id) (slot_lt ht) hcode'
    refine List.IsSuffix.trans ?_ (ih (by rw [Forest.placed_enter]; rfl))
    rw [hfill]
    exact ⟨(d.labelAt indent n.id).map (Prod.mk n.id) ++ before, by simp⟩

/-- Where there is a node, the dialogue has a beginning. -/
lemma start?_ne_none (h : Place d options last target f indent after path) {n : Node}
    (hn : d.nodeAt? target = some n) : d.start? ≠ none := by
  induction h generalizing n with
  | entrance =>
    intro hstart
    simp [Document.entrance?, hstart, Document.nodeAt?] at hn
  | slot hplace _ ih =>
    obtain ⟨targets, hfollows⟩ := hplace.follows
    cases hfollows with
    | enter hn' _ _ => exact ih hn'

lemma nodeAt?_eq {n : Node} {g f : Forest}
    (h : Place d options last target (.enter n g f) indent after path) :
    d.nodeAt? target = some n := by
  obtain ⟨targets, hfollows⟩ := h.follows
  cases hfollows with
  | enter hn _ _ => exact hn

/-- What stands at a node that is entered, behind its label. -/
lemma suffix_fill {n : Node} {g f : Forest}
    (h : Place d options last target (.enter n g f) indent after path) :
    (d.layout options n indent).fill (Prod.mk n.id)
      (g.placed d options (d.layout options n indent).depth) ++ after <:+ d.located options := by
  have hsuffix := h.suffix (h.start?_ne_none h.nodeAt?_eq) (by rw [Forest.placed_enter]; rfl)
  rw [List.append_assoc] at hsuffix
  exact List.IsSuffix.trans (List.suffix_append _ _) hsuffix

/-- What is jumped to at a place is jumped to in the program. -/
lemma jumps_subset (h : Place d options last target f indent after path) :
    f.jumps ⊆ d.trunk.jumps := by
  induction h with
  | entrance => exact List.Subset.refl _
  | @slot _ _ n g f _ _ _ i _ _ _ ih =>
    refine List.Subset.trans (Forest.jumps_drop_subset i g) (List.Subset.trans ?_ ih)
    exact List.subset_append_left _ _

/-- Every node that is entered behind outlets that have a place has a place itself. -/
lemma exists_of_follows {targets : List (Option String)} {f : Forest}
    (h : Forest.Follows d targets f)
    (hplaces : ∀ {j t}, targets[j]? = some t →
      ∃ last indent after path, Place d options last t (f.drop j) indent after path)
    {n : Node} (hn : n ∈ f.entered) :
    ∃ last target g f' indent after path,
      Place d options last target (.enter n g f') indent after path := by
  induction h with
  | nil => cases hn
  | dead _ _ ih => exact ih (fun ht => @hplaces (_ + 1) _ ht) hn
  | jump _ _ ih => exact ih (fun ht => @hplaces (_ + 1) _ ht) hn
  | @enter target targets m g f _ _ _ ih₁ ih₂ =>
    obtain ⟨last, indent, after, path, hplace⟩ := @hplaces 0 target rfl
    simp only [Forest.entered, List.mem_cons, List.mem_append] at hn
    rcases hn with rfl | hn | hn
    · exact ⟨last, target, g, f, indent, after, path, hplace⟩
    · exact ih₁ (fun ht => ⟨_, _, _, _, hplace.slot ht⟩) hn
    · exact ih₂ (fun ht => @hplaces (_ + 1) _ ht) hn

/-- Every node that is entered has a place. -/
theorem exists_of_mem_trunk {n : Node} (hn : n ∈ d.trunk.entered) :
    ∃ last target g f indent after path,
      Place d options last target (.enter n g f) indent after path := by
  refine exists_of_follows Document.follows_trunk ?_ hn
  intro j t ht
  cases j with
  | zero =>
    obtain rfl : d.entrance? = t := by simpa using ht
    exact ⟨none, 0, _, [], .entrance⟩
  | succ j => simp at ht

end Place

/-! ## Paths -/

namespace Forest

/-- The nodes that are entered, each with the nodes around it, from the inside, and the number of
the outlet through which each of these was left; `path i` stands around the tree at `i`. -/
def paths : Forest → (ℕ → List (Node × ℕ)) → List (String × List (Node × ℕ))
  | .nil, _ => []
  | .dead f, path => f.paths fun i => path (i + 1)
  | .jump _ f, path => f.paths fun i => path (i + 1)
  | .enter n g f, path =>
    (n.id, path 0) :: (g.paths (fun i => (n, i) :: path 0) ++ f.paths fun i => path (i + 1))

lemma map_fst_paths (f : Forest) (path : ℕ → List (Node × ℕ)) :
    (f.paths path).map Prod.fst = f.enteredIds := by
  induction f generalizing path with
  | nil => rfl
  | dead f ih => exact ih _
  | jump id f ih => exact ih _
  | enter n g f ih₁ ih₂ => simp [paths, ih₁, ih₂]

lemma paths_drop_subset (i : ℕ) (f : Forest) (path : ℕ → List (Node × ℕ)) :
    (f.drop i).paths (fun j => path (i + j)) ⊆ f.paths path := by
  induction i generalizing f path with
  | zero =>
    simp only [Nat.zero_add]
    exact List.Subset.refl _
  | succ i ih =>
    have hshift : (fun j => path (i + 1 + j)) = fun j => (fun k => path (k + 1)) (i + j) := by
      funext j
      rw [Nat.add_right_comm]
    have hrest := fun f => ih f fun k => path (k + 1)
    rw [hshift]
    cases f with
    | nil => exact List.Subset.refl _
    | dead f => exact hrest f
    | jump id f => exact hrest f
    | enter n g f =>
      exact List.subset_cons_of_subset _ (List.subset_append_of_subset_right _ (hrest f))

/-- Nodes on a path are entered. -/
lemma mem_entered_of_mem_paths {f : Forest} {path : ℕ → List (Node × ℕ)} {x : String}
    {blocks : List (Node × ℕ)} (h : (x, blocks) ∈ f.paths path) {block : Node × ℕ}
    (hblock : block ∈ blocks) : block.1 ∈ f.entered ∨ ∃ i, block ∈ path i := by
  induction f generalizing path with
  | nil => cases h
  | dead f ih =>
    rcases ih h with hentered | ⟨i, hi⟩
    · exact .inl hentered
    · exact .inr ⟨i + 1, hi⟩
  | jump id f ih =>
    rcases ih h with hentered | ⟨i, hi⟩
    · exact .inl hentered
    · exact .inr ⟨i + 1, hi⟩
  | enter n g f ih₁ ih₂ =>
    simp only [paths, List.mem_cons, List.mem_append, Prod.mk.injEq] at h
    -- `x` is the node itself, or inside it, or behind it
    rcases h with ⟨-, rfl⟩ | h | h
    · exact .inr ⟨0, hblock⟩
    · rcases ih₁ h with hentered | ⟨i, hi⟩
      · exact .inl (by simp [entered, hentered])
      · rcases List.mem_cons.1 hi with rfl | hi
        · exact .inl (by simp [entered])
        · exact .inr ⟨0, hi⟩
    · rcases ih₂ h with hentered | ⟨i, hi⟩
      · exact .inl (by simp [entered, hentered])
      · exact .inr ⟨i + 1, hi⟩

end Forest

namespace Document

variable {d : Document} {x : String} {path path' : List (Node × ℕ)}

/-- The nodes of a program, each with its path. -/
def paths (d : Document) : List (String × List (Node × ℕ)) :=
  d.trunk.paths fun _ => []

/-- A node has one path. -/
lemma eq_of_mem_paths (h : (x, path) ∈ d.paths) (h' : (x, path') ∈ d.paths) : path = path' := by
  have hnodup : (d.paths.map Prod.fst).Nodup := by
    rw [paths, Forest.map_fst_paths]
    exact nodup_trunk
  have heq := List.inj_on_of_nodup_map hnodup h h' rfl
  exact (Prod.mk.inj heq).2

lemma mem_nodes_of_mem_paths (h : (x, path) ∈ d.paths) {block : Node × ℕ} (hblock : block ∈ path) :
    block.1 ∈ d.nodes := by
  rcases Forest.mem_entered_of_mem_paths h hblock with hentered | ⟨i, hi⟩
  · exact mem_nodes_of_node? (follows_trunk.node?_entered hentered)
  · cases hi

end Document

namespace Place

variable {d : Document} {options : Options} {last target : Option String} {f : Forest}
  {indent : UInt32} {after : List (String × Command)} {path : List (Node × ℕ)}

lemma exists_paths_subset (h : Place d options last target f indent after path) :
    ∃ around : ℕ → List (Node × ℕ), around 0 = path ∧ f.paths around ⊆ d.paths := by
  induction h with
  | entrance => exact ⟨fun _ => [], rfl, List.Subset.refl _⟩
  | @slot _ _ n g f _ _ path i t _ _ ih =>
    obtain ⟨around, rfl, hsubset⟩ := ih
    refine ⟨fun j => (n, i + j) :: around 0, rfl, ?_⟩
    refine List.Subset.trans (Forest.paths_drop_subset i g fun j => (n, j) :: around 0) ?_
    refine List.Subset.trans ?_ hsubset
    exact List.subset_cons_of_subset _ (List.subset_append_left _ _)

/-- The path of a place is the path of the node that is entered there. -/
lemma mem_paths {n : Node} {g f : Forest}
    (h : Place d options last target (.enter n g f) indent after path) :
    (n.id, path) ∈ d.paths := by
  obtain ⟨around, rfl, hsubset⟩ := h.exists_paths_subset
  exact hsubset (by simp [Forest.paths])

end Place

/-! ## Labels are found -/

/-- Whether a command is the label of node `id`. -/
def Command.isLabelOf (id : String) (c : Command) : Bool :=
  c.opcode == .label && c.parameters == [.str (labelName id)]

lemma labelName_injective : Function.Injective labelName := by
  intro x y h
  simpa [labelName] using h

/-- Each node has one label at most among the commands of some items. -/
lemma countP_isLabelOf_le (needs : String → Bool) (id : String) (items : List Item)
    (hemit : ∀ owner c, .emit owner c ∈ items → c.opcode ≠ .label) :
    (items.flatMap (Item.commands needs)).countP (Command.isLabelOf id) ≤
      (items.filterMap Item.entered?).count id := by
  induction items with
  | nil => exact Nat.le_refl _
  | cons i items ih =>
    have ih := ih fun owner c hc => hemit owner c (List.mem_cons_of_mem _ hc)
    rw [List.flatMap_cons, List.countP_append]
    cases i with
    | enter x indent =>
      have hlabel : (Item.commands needs (.enter x indent)).countP (Command.isLabelOf id) ≤
          if x = id then 1 else 0 := by
        rw [Item.commands]
        split
        · by_cases hx : x = id
          · rw [if_pos hx]
            exact List.countP_le_length
          · have hne : labelName x ≠ labelName id := fun h => hx (labelName_injective h)
            simp [Command.isLabelOf, Command.label, hx, hne]
        · simp
      simp only [List.filterMap_cons, Item.entered?, List.count_cons, beq_iff_eq]
      omega
    | revisit x indent =>
      have hnone : (Item.commands needs (.revisit x indent)).countP (Command.isLabelOf id) = 0 := by
        simp [Item.commands, Command.isLabelOf, Command.jumpToLabel]
      rw [hnone, Nat.zero_add]
      exact ih
    | emit owner c =>
      have hnone : (Item.commands needs (.emit owner c)).countP (Command.isLabelOf id) = 0 := by
        simp [Item.commands, Command.isLabelOf, hemit owner c (by simp)]
      rw [hnone, Nat.zero_add]
      exact ih

lemma Document.countP_isLabelOf_le_one (d : Document) (options : Options) (id : String) :
    (d.compile options).countP (Command.isLabelOf id) ≤ 1 := by
  cases hstart : d.start? with
  | none => simp [compile_of_start_eq_none hstart]
  | some start =>
    have hitems : ((d.items options).flatMap (Item.commands d.needsLabel)).countP
        (Command.isLabelOf id) ≤ 1 := by
      refine Nat.le_trans (countP_isLabelOf_le _ id _ ?_) ?_
      · intro owner c hc
        obtain ⟨n, -, -, k, hown⟩ := follows_trunk.mem_own_of_emit hc
        exact opcode_ne_label hown
      · rw [filterMap_entered?_items]
        exact List.nodup_iff_count_le_one.1 nodup_trunk id
    rw [compile_eq hstart, List.countP_append]
    simpa [Command.isLabelOf, Command.stop] using hitems

/-- A jump to a node that has a label finds the place of the node. -/
theorem Place.dropWhile_label {d : Document} {options : Options} {last target : Option String}
    {n : Node} {g f : Forest} {indent : UInt32} {after : List (String × Command)}
    {path : List (Node × ℕ)} (h : Place d options last target (.enter n g f) indent after path)
    (hneeds : d.needsLabel n.id) {code : List (String × Command)}
    (hcode : ((Forest.enter n g f).placed d options indent)[0]? = some code) :
    (d.compile options).dropWhile (fun c => !c.isLabelOf n.id) = (code ++ after).map Prod.snd := by
  obtain ⟨before, hbefore⟩ := h.suffix (h.start?_ne_none h.nodeAt?_eq) hcode
  have hhead : ∃ rest, (code ++ after).map Prod.snd = .label indent n.id :: rest := by
    rw [Forest.placed_enter] at hcode
    obtain rfl := Option.some.inj hcode
    simp [Document.labelAt, hneeds]
  obtain ⟨rest, hrest⟩ := hhead
  have hlabel : (Command.label indent n.id).isLabelOf n.id := by
    simp [Command.isLabelOf, Command.label]
  have hcompile : d.compile options = before.map Prod.snd ++ .label indent n.id :: rest := by
    rw [← d.map_snd_located, ← hbefore, List.map_append, hrest]
  -- the label stands at the place, so none stands before
  have hnone : ∀ c ∈ before.map Prod.snd, (!c.isLabelOf n.id) = true := by
    intro c hc
    by_contra hfound
    have hone := d.countP_isLabelOf_le_one options n.id
    have hpos : 0 < (before.map Prod.snd).countP (Command.isLabelOf n.id) :=
      List.countP_pos_iff.2 ⟨c, hc, by simpa using hfound⟩
    rw [hcompile, List.countP_append, List.countP_cons_of_pos hlabel] at hone
    omega
  rw [hcompile, List.dropWhile_append_of_pos hnone, hrest]
  exact List.dropWhile_cons_of_neg (by simpa using hlabel)

end Dialogue