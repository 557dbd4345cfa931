import Mathlib.Algebra.BigOperators.Group.Finset.Basic
import Mathlib.Algebra.Order.BigOperators.Group.Multiset
import Mathlib.Data.List.ReduceOption
import Mathlib.Tactic.Abel
import Dialogue.Proofs.Labels
/-!
A program holds each node once.

The nodes that a dialogue can reach are the least set that holds the node where it begins and, with
a node, the nodes to which its outlets lead.  Up to order and depth, the program consists of the own
commands of these nodes, each once, of labels, and of one jump for each outlet that leads to a node
without being the first to do so (`compile_eq_own_commands_and_jumps`).
-/

namespace Dialogue

/-! ## The own commands of a node -/

/-- A command without its depth. -/
def Command.flat (c : Command) : Command :=
  { c with indent := 0 }

/-- The own commands of a menu. -/
def Menu.ownCommands (options : Options) (m : Menu) : List Command :=
  m.promptCommands 0 ++
    if m.isDynamic then
      Command.script 0 (m.script options.disabledMark) ++ [m.emptyWindow 0] ++
        m.routes.flatMap fun route =>
          [.conditionalBranch 0 (selectionCondition route.1).expression, .stop 0, .conditionalEnd 0]
    else
      [m.window 0] ++
        (m.choices.mapIdx fun i c => [Command.choiceBranch 0 i c.text, .stop 0]).flatten ++
        (match m.cancel with
          | .branch => [.choiceCancel 0, .stop 0]
          | .disallow | .lastChoice => []) ++
        [.choiceBlockEnd 0]

/-- The own commands of a node.  A node that is passed over has none. -/
def Node.ownCommands (options : Options) (n : Node) : List Command :=
  if n.muted && !n.isStart then []
  else match n.kind with
    | .action actions => actions.flatMap (Action.commands 0)
    | .condition condition =>
      [.conditionalBranch 0 condition.expression, .stop 0, .conditionalElse 0, .stop 0,
        .conditionalEnd 0]
    | .menu m => m.ownCommands options
    | .start | .finish | .group | .comment => []

lemma Message.map_flat_commands (message : Message) (indent : UInt32) :
    (message.commands indent).map Command.flat = message.commands 0 := by
  unfold Message.commands
  cases Text.lines message.text with
  | nil => rfl
  | cons line lines => simp [Command.flat, Command.showText, Command.textLine]

lemma Menu.map_flat_promptCommands (m : Menu) (indent : UInt32) :
    (m.promptCommands indent).map Command.flat = m.promptCommands 0 := by
  unfold Menu.promptCommands
  cases m.prompt with
  | none => rfl
  | some message => exact message.map_flat_commands indent

lemma Command.map_flat_script (indent : UInt32) (code : String) :
    (Command.script indent code).map Command.flat = Command.script 0 code := by
  unfold Command.script
  cases Text.lines code with
  | nil => rfl
  | cons line lines => simp [Command.flat]

lemma Action.map_flat_commands (a : Action) (indent : UInt32) :
    (a.commands indent).map Command.flat = a.commands 0 := by
  cases a with
  | script code => exact Command.map_flat_script indent code
  | showText message => exact message.map_flat_commands indent
  | setVariable | setSwitch | commonEvent | pluginCommand => rfl

namespace Document

variable {d : Document} {options : Options}

lemma map_flat_choiceSlots (id : String) (indent : UInt32) (i : Nat) (choices : List Choice) :
    ((d.choiceSlots id indent i choices).flatMap fun s => s.before ++ s.after).map Command.flat =
      (choices.mapIdx fun j c => [Command.choiceBranch 0 (i + j) c.text, .stop 0]).flatten := by
  induction choices generalizing i with
  | nil => rfl
  | cons c cs ih =>
    have ih' := ih (i + 1)
    simp only [Nat.add_assoc, Nat.add_comm 1] at ih'
    simp only [choiceSlots, List.flatMap_cons, List.map_append, ih', List.mapIdx_cons,
      List.flatten_cons, Nat.add_zero]
    rfl

/-- The commands of the layout of a node are its own commands. -/
lemma map_flat_own (n : Node) (indent : UInt32) :
    (d.layout options n indent).own.map Command.flat = n.ownCommands options := by
  rw [layout, Node.ownCommands]
  split
  · rfl
  · cases n.kind with
    | start => rfl
    | action actions =>
      simp [passingLayout, Layout.own, List.map_flatMap, Action.map_flat_commands]
    | condition condition => rfl
    | menu m =>
      dsimp only [Menu.ownCommands]
      split
      · simp only [dynamicMenuLayout, Layout.own, List.map_append, Menu.map_flat_promptCommands,
          Command.map_flat_script, List.flatMap_map, List.map_flatMap]
        simp [selectionSlot, Slot.block, Command.flat, Command.conditionalBranch, Command.stop,
          Command.conditionalEnd, Menu.emptyWindow, Command.showChoices]
      · have hchoices := map_flat_choiceSlots (d := d) n.id indent 0 m.choices
        simp only [Nat.zero_add] at hchoices
        simp only [staticMenuLayout, Layout.own, List.map_append, Menu.map_flat_promptCommands,
          List.flatMap_append, hchoices, cancelSlots]
        cases m.cancel <;>
          simp [Slot.block, Command.flat, Menu.window, Command.showChoices, Command.stop,
            Command.choiceCancel, Command.choiceBlockEnd]
    | finish => rfl
    | group => rfl
    | comment => rfl

end Document

/-! ## What a forest adds up to -/

/-- The commands of one thing that the compiler does, without labels and depths. -/
def Item.bare : Item → List Command
  | .enter _ _ => []
  | .revisit id _ => [.jumpToLabel 0 id]
  | .emit _ c => if c.opcode = .label then [] else [c.flat]

lemma Item.map_flat_commands (needs : String → Bool) (i : Item) :
    ((i.commands needs).filter (·.opcode ≠ .label)).map Command.flat = i.bare := by
  cases i with
  | enter id indent =>
    rw [Item.commands, Item.bare]
    split <;> simp [Command.label]
  | revisit id indent => rfl
  | emit owner c =>
    rw [Item.commands, Item.bare]
    split <;> simp_all

lemma weave_perm {α : Type} (wrap : Command → α) (slots : List Slot) (bodies : List (List α))
    (hlength : bodies.length = slots.length) :
    (weave wrap slots bodies).Perm
      ((slots.flatMap fun s => s.before ++ s.after).map wrap ++ bodies.flatten) := by
  induction slots generalizing bodies with
  | nil =>
    obtain rfl := List.length_eq_zero_iff.1 hlength
    rfl
  | cons s ss ih =>
    obtain ⟨body, bodies, rfl⟩ := List.exists_cons_of_length_eq_add_one hlength
    simp only [List.length_cons, Nat.add_right_cancel_iff] at hlength
    have ih := ih bodies hlength
    simp only [weave, List.flatMap_cons, List.map_append, List.flatten_cons]
    rw [← Multiset.coe_eq_coe] at ih ⊢
    simp only [← Multiset.coe_add] at ih ⊢
    rw [ih]
    abel

lemma fill_perm {α : Type} (wrap : Command → α) (l : Layout) (bodies : List (List α))
    (hlength : bodies.length = l.slots.length) :
    (l.fill wrap bodies).Perm (l.own.map wrap ++ bodies.flatten) := by
  have hweave := weave_perm wrap l.slots bodies hlength
  rw [Layout.fill, Layout.own]
  rw [← Multiset.coe_eq_coe] at hweave ⊢
  simp only [List.map_append, ← Multiset.coe_add] at hweave ⊢
  rw [hweave]
  abel

/-- Up to order, labels and depths, what is done at a forest is the own commands of the nodes that
are entered, and the jumps. -/
theorem Forest.Follows.perm_bare {d : Document} {options : Options}
    {targets : List (Option String)} {f : Forest} (h : Follows d targets f) (indent : UInt32) :
    ((f.items d options indent).flatten.flatMap Item.bare).Perm
      (f.entered.flatMap (Node.ownCommands options) ++ f.jumps.map (.jumpToLabel 0)) := by
  induction h generalizing indent with
  | nil => rfl
  | dead _ _ ih => simpa [items, entered, jumps] using ih indent
  | @jump _ _ n f _ _ ih =>
    simp only [items, List.flatten_cons, List.singleton_append, List.flatMap_cons, Item.bare,
      entered, jumps, List.map_cons]
    exact ((ih indent).cons _).trans List.perm_middle.symm
  | @enter target targets n g f _ hg _ ih₁ ih₂ =>
    -- the bodies stand between the own commands, so they can be moved behind them
    have hfill := (fill_perm (.emit n.id) (d.layout options n indent) _
      (hg.length_bodies options indent)).flatMap_right Item.bare
    have hown : ((d.layout options n indent).own.map (.emit n.id)).flatMap Item.bare =
        n.ownCommands options := by
      have hflat := @Document.map_flat_own d options n indent
      rw [← hflat, List.flatMap_map, ← List.flatMap_pure_eq_map]
      refine List.flatMap_congr fun c hc => ?_
      rw [Item.bare, if_neg (Document.opcode_ne_label hc)]
      rfl
    have ih₁ := ih₁ (d.layout options n indent).depth
    have ih₂ := ih₂ indent
    rw [List.flatMap_append, hown] at hfill
    simp only [items, List.flatten_cons, List.cons_append, List.flatMap_cons, Item.bare,
      List.nil_append, List.flatMap_append, entered, jumps, List.map_append]
    rw [← Multiset.coe_eq_coe] at hfill ih₁ ih₂ ⊢
    simp only [← Multiset.coe_add] at hfill ih₁ ih₂ ⊢
    rw [hfill, ih₁, ih₂]
    abel

/-- A command that is emitted is one of the commands of the node that it belongs to. -/
lemma Forest.Follows.mem_own_of_emit {d : Document} {options : Options}
    {targets : List (Option String)} {f : Forest} (h : Follows d targets f) {indent : UInt32}
    {owner : String} {c : Command} (hc : .emit owner c ∈ (f.items d options indent).flatten) :
    ∃ n ∈ f.entered, owner = n.id ∧ ∃ k, c ∈ (d.layout options n k).own := by
  induction h generalizing indent with
  | nil => simp [items] at hc
  | dead _ _ ih => exact ih (by simpa [items] using hc)
  | jump _ _ ih => exact ih (by simpa [items] using hc)
  | @enter target targets n g f _ hg _ ih₁ ih₂ =>
    simp only [items, List.flatten_cons, List.cons_append, List.mem_cons, reduceCtorEq, false_or,
      List.mem_append, (fill_perm _ _ _ (hg.length_bodies options indent)).mem_iff,
      List.mem_map] at hc
    rcases hc with (⟨c', hc', heq⟩ | hc) | hc
    · cases heq
      exact ⟨n, List.mem_cons_self, rfl, indent, hc'⟩
    · obtain ⟨m, hm, howner⟩ := ih₁ hc
      exact ⟨m, List.mem_cons_of_mem _ (List.mem_append_left _ hm), howner⟩
    · obtain ⟨m, hm, howner⟩ := ih₂ hc
      exact ⟨m, List.mem_cons_of_mem _ (List.mem_append_right _ hm), howner⟩

/-! ## The nodes that a dialogue reaches -/

namespace Document

/-- The nodes to which the outlets of node `x` lead, in order and as often as they do. -/
def followed (d : Document) (x : String) : List String :=
  match d.node? x with
  | none => []
  | some n => (d.outlets n).reduceOption

/-- The own commands of node `x`. -/
def ownCommands (d : Document) (options : Options) (x : String) : List Command :=
  match d.node? x with
  | none => []
  | some n => n.ownCommands options

/-- The nodes that a dialogue can reach: the least set of nodes that holds the one where it begins
and is closed under outlets. -/
inductive Reached (d : Document) : String → Prop
  | entrance {x : String} : d.entrance? = some x → (d.node? x).isSome → Reached d x
  | outlet {x y : String} : Reached d x → y ∈ d.followed x → (d.node? y).isSome → Reached d y

/-- How often the compiler comes to node `x`, if `R` is the set of nodes that are reached: once for
each outlet of these nodes that leads to `x`, and once more if the dialogue begins there. -/
def visitsTo (d : Document) (R : Finset String) (x : String) : Nat :=
  ∑ y ∈ R, (d.followed y).count x + if d.entrance? = some x then 1 else 0

variable {d : Document} {options : Options}

lemma followed_of_node? {n : Node} (h : d.node? n.id = some n) :
    d.followed n.id = (d.outlets n).reduceOption := by
  rw [followed, h]

lemma mem_followed {n : Node} (h : d.node? n.id = some n) {y : String} :
    y ∈ d.followed n.id ↔ some y ∈ d.outlets n := by
  rw [followed_of_node? h, List.reduceOption_mem_iff]

lemma count_followed {n : Node} (h : d.node? n.id = some n) (y : String) :
    (d.followed n.id).count y = (d.outlets n).count (some y) := by
  rw [followed_of_node? h]
  induction d.outlets n with
  | nil => rfl
  | cons target targets ih => cases target <;> simp [List.count_cons, ih]

lemma reached_of_follows {targets : List (Option String)} {f : Forest}
    (h : Forest.Follows d targets f)
    (htargets : ∀ target ∈ targets, ∀ n, d.nodeAt? target = some n → d.Reached n.id) {x : String}
    (hx : x ∈ f.enteredIds) : d.Reached x := by
  induction h with
  | nil => simp at hx
  | dead _ _ ih => exact ih (fun t ht => htargets t (List.mem_cons_of_mem _ ht)) hx
  | jump _ _ ih => exact ih (fun t ht => htargets t (List.mem_cons_of_mem _ ht)) hx
  | @enter target targets n g f hn _ _ ih₁ ih₂ =>
    have hreached : d.Reached n.id := htargets target List.mem_cons_self n hn
    rw [Forest.enteredIds_enter, List.mem_cons, List.mem_append] at hx
    rcases hx with rfl | hx | hx
    · exact hreached
    · refine ih₁ (fun t ht m hm => ?_) hx
      obtain ⟨rfl, hnode⟩ := nodeAt?_eq_some hm
      exact hreached.outlet ((mem_followed (nodeAt?_eq_some hn).2).2 ht) (by rw [hnode]; rfl)
    · exact ih₂ (fun t ht => htargets t (List.mem_cons_of_mem _ ht)) hx

/-- The nodes that are entered are the nodes that are reached. -/
theorem mem_enteredIds_iff {x : String} : x ∈ d.trunk.enteredIds ↔ d.Reached x := by
  constructor
  · refine reached_of_follows follows_trunk fun target htarget n hn => ?_
    obtain rfl := List.mem_singleton.1 htarget
    obtain ⟨hentrance, hnode⟩ := nodeAt?_eq_some hn
    exact .entrance hentrance (by rw [hnode]; rfl)
  · intro hx
    induction hx with
    | @entrance x hentrance hnode =>
      obtain ⟨n, hn⟩ := Option.isSome_iff_exists.1 hnode
      obtain rfl := id_of_node? hn
      refine entrance_mem_trunk ?_
      rw [hentrance]
      exact hn
    | @outlet x y _ hfollowed hnode ih =>
      obtain ⟨m, hm, rfl⟩ := List.mem_map.1 ih
      obtain ⟨n, hn⟩ := Option.isSome_iff_exists.1 hnode
      obtain rfl := id_of_node? hn
      exact outlet_mem_trunk hm ((mem_followed (follows_trunk.node?_entered hm)).1 hfollowed) hn

lemma visitsTo_trunk (x : String) : d.visitsTo d.trunk.enteredIds.toFinset x = d.arrivals x := by
  rw [visitsTo, arrivals, List.sum_toFinset _ nodup_trunk, Forest.enteredIds, List.map_map,
    Nat.add_comm, List.count_singleton]
  congr 1
  · simp
  · refine congrArg List.sum (List.map_congr_left fun n hn => ?_)
    exact count_followed (follows_trunk.node?_entered hn) x

/-! ## The commands of a program -/

/-- Without labels and depths, the commands of a program are those that are left of what the
compiler does. -/
lemma map_flat_compile {start : Node} (h : d.start? = some start) :
    ((d.compile options).filter (·.opcode ≠ .label)).map Command.flat =
      (d.items options).flatMap Item.bare ++ [.stop 0] := by
  rw [compile_eq h, List.filter_append, List.map_append, List.filter_flatMap, List.map_flatMap]
  congr 1
  refine List.flatMap_congr fun i _ => ?_
  exact Item.map_flat_commands _ i

lemma coe_entered :
    (d.trunk.entered.flatMap (Node.ownCommands options) : Multiset Command) =
      ∑ x ∈ d.trunk.enteredIds.toFinset, (d.ownCommands options x : Multiset Command) := by
  rw [List.sum_toFinset _ nodup_trunk, Forest.enteredIds, List.map_map, ← Multiset.coe_bind]
  refine congrArg List.sum (List.map_congr_left fun n hn => ?_)
  simp [ownCommands, follows_trunk.node?_entered hn]

lemma coe_jumps :
    (d.trunk.jumps.map (Command.jumpToLabel 0) : Multiset Command) =
      ∑ x ∈ d.trunk.enteredIds.toFinset,
        Multiset.replicate (d.trunk.jumps.count x) (Command.jumpToLabel 0 x) := by
  have hsubset : (d.trunk.jumps : Multiset String).toFinset ⊆ d.trunk.enteredIds.toFinset := by
    intro x hx
    simpa using mem_trunk_of_mem_jumps (by simpa using hx)
  have hcount := Multiset.toFinset_sum_count_nsmul_eq (d.trunk.jumps : Multiset String)
  rw [← Multiset.map_coe, ← hcount, ← Multiset.coe_mapAddMonoidHom, map_sum,
    Finset.sum_subset hsubset]
  · refine Finset.sum_congr rfl fun x _ => ?_
    simp [Multiset.nsmul_singleton]
  · intro x _ hx
    have hzero : d.trunk.jumps.count x = 0 := List.count_eq_zero.2 (by simpa using hx)
    simp [hzero]

lemma exists_label {c : Command} (hc : c ∈ d.compile options) (hlabel : c.opcode = .label) :
    ∃ x ∈ d.trunk.enteredIds, c.flat = .label 0 x := by
  cases hstart : d.start? with
  | none => simp [compile_of_start_eq_none hstart] at hc
  | some start =>
    rw [compile_eq hstart, List.mem_append, List.mem_flatMap, List.mem_singleton] at hc
    rcases hc with ⟨i, hi, hc⟩ | rfl
    · cases i with
      | enter id indent =>
        rw [Item.commands] at hc
        split at hc
        · obtain rfl := List.mem_singleton.1 hc
          refine ⟨id, ?_, rfl⟩
          rw [← filterMap_entered?_items options]
          exact List.mem_filterMap.2 ⟨_, hi, rfl⟩
        · simp at hc
      | revisit id indent =>
        obtain rfl := List.mem_singleton.1 hc
        simp [Command.jumpToLabel] at hlabel
      | emit owner c' =>
        obtain rfl := List.mem_singleton.1 hc
        obtain ⟨n, -, -, k, hown⟩ := follows_trunk.mem_own_of_emit hi
        exact absurd hlabel (opcode_ne_label hown)
    · simp [Command.stop] at hlabel

/-- Up to order and depth, a program consists of the own commands of each reached node, of labels of
reached nodes, of the end, and of jumps: one for each visit to a reached node but the first. -/
theorem compile_eq_own_commands_and_jumps (d : Document) (options : Options)
    (h : d.start?.isSome) :
    ∃ R : Finset String, (∀ x, x ∈ R ↔ d.Reached x) ∧ (∀ x ∈ R, 0 < d.visitsTo R x) ∧
      (((d.compile options).filter (·.opcode ≠ .label)).map Command.flat : Multiset Command) =
        ∑ x ∈ R, (d.ownCommands options x : Multiset Command) +
          ∑ x ∈ R, Multiset.replicate (d.visitsTo R x - 1) (Command.jumpToLabel 0 x) +
          {Command.stop 0} ∧
      ∀ c ∈ d.compile options, c.opcode = .label → ∃ x ∈ R, c.flat = .label 0 x := by
  obtain ⟨start, hstart⟩ := Option.isSome_iff_exists.1 h
  have hvisits : ∀ x ∈ d.trunk.enteredIds.toFinset,
      d.trunk.jumps.count x + 1 = d.visitsTo d.trunk.enteredIds.toFinset x := by
    intro x hx
    rw [visitsTo_trunk]
    exact count_jumps_add_one (by simpa using hx)
  refine ⟨d.trunk.enteredIds.toFinset, ?_, ?_, ?_, ?_⟩
  · intro x
    rw [List.mem_toFinset, mem_enteredIds_iff]
  · intro x hx
    have hcount := hvisits x hx
    omega
  · have hjumps : ∑ x ∈ d.trunk.enteredIds.toFinset, Multiset.replicate
        (d.visitsTo d.trunk.enteredIds.toFinset x - 1) (Command.jumpToLabel 0 x) =
        (d.trunk.jumps.map (Command.jumpToLabel 0) : Multiset Command) := by
      rw [coe_jumps]
      refine Finset.sum_congr rfl fun x hx => ?_
      rw [← hvisits x hx, Nat.add_sub_cancel]
    have hperm := Multiset.coe_eq_coe.2
      (@Forest.Follows.perm_bare d options _ _ follows_trunk 0)
    rw [map_flat_compile hstart, ← Multiset.coe_add, hjumps, ← coe_entered, items, hperm,
      ← Multiset.coe_add]
    rfl
  · intro c hc hlabel
    simpa using exists_label hc hlabel

/-- A dialogue that comes back to its menu, and to one of its actions from two sides. -/
def bargain : Document where
  nodes := [{ id := "start", kind := .start },
    { id := "ask", kind := .menu
        { choices := [{ id := "a", text := "Buy" }, { id := "b", text := "Leave" }]
          cancel := .branch } },
    { id := "rich", kind := .condition (.switch 1 true) },
    { id := "pay", kind := .action [.commonEvent 3] }]
  edges := [{ id := "e0", source := "start", target := "ask" },
    { id := "e1", source := "ask", target := "rich", handle := some "choice-0" },
    { id := "e2", source := "ask", target := "pay", handle := some "choice-1" },
    { id := "e3", source := "ask", target := "ask", handle := some "cancel" },
    { id := "e4", source := "rich", target := "pay", handle := some "true" },
    { id := "e5", source := "rich", target := "ask", handle := some "false" }]

theorem compile_bargain_eq_own_commands_and_jumps :
    bargain.start?.isSome ∧
      ∃ R : Finset String, (∀ x, x ∈ R ↔ bargain.Reached x) ∧
        (∀ x ∈ R, 0 < bargain.visitsTo R x) ∧
        (((bargain.compile {}).filter (·.opcode ≠ .label)).map Command.flat : Multiset Command) =
          ∑ x ∈ R, (bargain.ownCommands {} x : Multiset Command) +
            ∑ x ∈ R, Multiset.replicate (bargain.visitsTo R x - 1) (Command.jumpToLabel 0 x) +
            {Command.stop 0} ∧
        ∀ c ∈ bargain.compile {}, c.opcode = .label → ∃ x ∈ R, c.flat = .label 0 x :=
  ⟨rfl, compile_eq_own_commands_and_jumps bargain {} rfl⟩

end Document

end Dialogue
