import Mathlib.Data.Nat.Find
import Dialogue.Proofs.Steps
/-!
Menus whose choices a script sets up.

Such a menu says its prompt, runs its script and shows its window; then a table of tests follows,
one for each choice.  The first test that holds is found and its block is entered
(`Engine.reaches_entered`).  Behind a block nothing leads past the rest of the table: the tests that
follow are made as well (`Engine.reaches_table`).
-/

namespace Dialogue

/-- The menu of a node, if a script sets up its choices. -/
def Document.dynamicMenu? (d : Document) (id : String) : Option (String × Menu) :=
  (d.node? id).bind fun n =>
    match n.kind with
    | .menu m => if m.isDynamic then some (n.id, m) else none
    | .start | .action _ | .condition _ | .finish | .group | .comment => none

/-- The menu of a node, if a script sets up its choices and the node is not passed over: such a node
ends in a table of tests. -/
def Node.table? (n : Node) : Option Menu :=
  if n.muted then none
  else match n.kind with
    | .menu m => if m.isDynamic then some m else none
    | .start | .action _ | .condition _ | .finish | .group | .comment => none

section Table

variable {n : Node} {m : Menu}

lemma Node.table?_eq_some :
    n.table? = some m ↔ n.muted = false ∧ n.kind = .menu m ∧ m.isDynamic := by
  rw [Node.table?]
  cases n.muted with
  | true => simp
  | false =>
    cases n.kind with
    | menu m' =>
      by_cases hm : m'.isDynamic
      · simp only [hm, if_true, Bool.false_eq_true, if_false, Option.some_inj, NodeKind.menu.injEq]
        grind
      · simp only [hm, if_false, Bool.false_eq_true, NodeKind.menu.injEq]
        grind
    | start | action _ | condition _ | finish | group | comment => simp

lemma Node.table?_of_menu (hmuted : ¬(n.muted && !n.isStart) = true) (hkind : n.kind = .menu m)
    (hm : m.isDynamic) : n.table? = some m := by
  refine Node.table?_eq_some.2 ⟨?_, hkind, hm⟩
  simpa [Node.isStart, hkind] using hmuted

variable (h : n.table? = some m)

include h

lemma Node.not_passed_over : ¬(n.muted && !n.isStart) = true := by
  obtain ⟨hmuted, -, -⟩ := Node.table?_eq_some.1 h
  simp [hmuted]

namespace Document

variable {d : Document}

lemma layout_of_table? (options : Options) (indent : UInt32) :
    d.layout options n indent = d.dynamicMenuLayout options n.id m indent := by
  obtain ⟨-, hkind, hm⟩ := Node.table?_eq_some.1 h
  rw [layout, if_neg (Node.not_passed_over h), hkind]
  exact if_pos hm

lemma outlets_of_table? : d.outlets n = m.routes.map fun route => d.targetAt? n.id route.2 := by
  obtain ⟨-, hkind, -⟩ := Node.table?_eq_some.1 h
  rw [outlets, if_neg (Node.not_passed_over h), hkind]

lemma dynamicMenu?_of_table? (hnode : d.node? n.id = some n) :
    d.dynamicMenu? n.id = some (n.id, m) := by
  obtain ⟨-, hkind, hm⟩ := Node.table?_eq_some.1 h
  simp [dynamicMenu?, hnode, hkind, hm]

end Document

end Table

/-! ## What is chosen -/

namespace Menu

variable {m : Menu}

lemma getElem?_routes_choice {i : ℕ} (hi : i < m.choices.length) :
    m.routes[i]? = some (Int64.ofNat i, choiceHandle i) := by
  rw [routes, List.getElem?_append_left (by simpa using hi)]
  simp [hi]

lemma getElem?_routes_cancel (h : m.cancel = .branch) :
    m.routes[m.choices.length]? = some (cancelledChoice, cancelHandle) := by
  rw [routes, List.getElem?_append_right (by simp), h]
  simp

/-- What the player does in a menu is one of its routes. -/
lemma exists_getElem?_routes {a : Answer} {route : Int64 × String} (h : m.route? a = some route) :
    ∃ k : ℕ, m.routes[k]? = some route := by
  cases a with
  | choice i =>
    by_cases hi : i < m.choices.length
    · have hroute : m.route? (.choice i) = some (Int64.ofNat i, choiceHandle i) := if_pos hi
      rw [← h, hroute]
      exact ⟨i, getElem?_routes_choice hi⟩
    · have hroute : m.route? (.choice i) = none := if_neg hi
      rw [hroute] at h
      cases h
  | cancel =>
    by_cases hcancel : m.cancel = .branch
    · have hroute : m.route? .cancel = some (cancelledChoice, cancelHandle) := if_pos hcancel
      rw [← h, hroute]
      exact ⟨m.choices.length, getElem?_routes_cancel hcancel⟩
    · have hroute : m.route? .cancel = none := if_neg hcancel
      rw [hroute] at h
      cases h
  | truth b => cases h
  | nothing => cases h

lemma routes_ne_nil (h : m.isDynamic) : m.routes ≠ [] := by
  obtain ⟨c, hc, -⟩ := List.any_eq_true.1 h
  have hlength : 0 < m.choices.length := List.length_pos_of_mem hc
  refine List.ne_nil_of_length_pos ?_
  simp only [routes, List.length_append, List.length_map, List.length_range]
  omega

/-- The routes of a menu of countable size have different values. -/
lemma nodup_values (h : m.choices.length < 2 ^ 63) : (m.routes.map Prod.fst).Nodup := by
  have hvalue : ∀ i < m.choices.length, (Int64.ofNat i).toInt = i := by
    intro i hi
    exact Int64.toInt_ofNat_of_lt (by omega)
  have hcancelled : cancelledChoice.toInt = -1 := by decide
  have hchoices : ((List.range m.choices.length).map Int64.ofNat).Nodup := by
    refine List.Nodup.map_on ?_ List.nodup_range
    intro i hi j hj heq
    have hi' := hvalue i (List.mem_range.1 hi)
    have hj' := hvalue j (List.mem_range.1 hj)
    rw [heq] at hi'
    omega
  have hdisjoint : cancelledChoice ∉ (List.range m.choices.length).map Int64.ofNat := by
    intro hmem
    obtain ⟨i, hi, heq⟩ := List.mem_map.1 hmem
    have hi' := hvalue i (List.mem_range.1 hi)
    rw [heq] at hi'
    omega
  rw [routes]
  rw [List.map_append, List.map_map]
  cases m.cancel with
  | disallow => simpa [Function.comp_def] using hchoices
  | branch =>
    refine List.nodup_append.2 ⟨hchoices, List.nodup_singleton _, ?_⟩
    rintro v hv _ hv' rfl
    obtain rfl : v = cancelledChoice := List.mem_singleton.1 hv'
    exact hdisjoint hv
  | lastChoice => simpa [Function.comp_def] using hchoices

end Menu

/-- The choices of a menu that a script sets up can be told apart. -/
def Document.Distinct (d : Document) : Prop :=
  ∀ ⦃n m⦄, n ∈ d.nodes → n.table? = some m → (m.routes.map Prod.fst).Nodup

/-- Whether, behind the block of its outlet at `i`, one of the tests that a node still has holds. -/
def Node.catches (v : Int64) (n : Node) (i : ℕ) : Bool :=
  n.table?.any fun m => ((m.routes.map Prod.fst).drop (i + 1)).contains v

section Catches

variable {n : Node}

lemma Node.catches_eq_false (h : n.table? = none) (v : Int64) (i : ℕ) : n.catches v i = false := by
  rw [catches, h]
  rfl

/-- In the block of a choice, no other choice has been taken. -/
lemma Node.catches_of_nodup {m : Menu} (h : n.table? = some m)
    (hnodup : (m.routes.map Prod.fst).Nodup) {i : ℕ} {route : Int64 × String}
    (hi : m.routes[i]? = some route) : n.catches route.1 i = false := by
  have hvalue : (m.routes.map Prod.fst)[i]? = some route.1 := by
    rw [List.getElem?_map, hi]
    rfl
  obtain ⟨hlt, hget⟩ := List.getElem?_eq_some_iff.1 hvalue
  have hdrop := hnodup.sublist (List.drop_sublist i _)
  rw [List.drop_eq_getElem_cons hlt, hget] at hdrop
  have hnot := (List.nodup_cons.1 hdrop).1
  simpa [catches, h] using hnot

end Catches

/-! ## The table -/

/-- A game knows the menus of a document, and if there are any it can tell what was chosen. -/
structure Game.Serves (game : Game) (d : Document) (options : Options) : Prop where
  /-- Every command of the program is known to belong to its menu. -/
  menu?_eq : ∀ {owner c rest}, (owner, c) :: rest <:+ d.located options →
    game.menu? (rest.length + 1) = d.dynamicMenu? owner
  /-- The variable tells what was chosen. -/
  test?_eq : ∀ {id menu}, d.dynamicMenu? id = some menu →
    ∀ v i, game.test? v (selectionCondition i).expression = some (v == i)

/-- The slots of a table of tests. -/
def selectionSlots (indent : UInt32) (routes : List (Int64 × Option String)) : List Slot :=
  routes.map fun route => Document.selectionSlot indent route.1 route.2

namespace Document

variable {α : Type} (wrap : Command → α) (d : Document) (options : Options) (owner : String)
  (m : Menu) (indent : UInt32)

/-- The routes of a menu, with where they lead. -/
def exits : List (Int64 × Option String) :=
  m.routes.map fun route => (route.1, d.targetAt? owner route.2)

@[simp] lemma map_fst_exits : (d.exits owner m).map Prod.fst = m.routes.map Prod.fst := by
  simp [exits, Function.comp_def]

lemma slots_dynamicMenuLayout :
    (d.dynamicMenuLayout options owner m indent).slots =
      selectionSlots indent (d.exits owner m) := by
  simp [dynamicMenuLayout, selectionSlots, exits]

variable {d options m indent} in
lemma length_slots_of_table? {n : Node} (h : n.table? = some m) :
    (d.layout options n indent).slots.length = (d.exits n.id m).length := by
  rw [layout_of_table? h, slots_dynamicMenuLayout, selectionSlots, List.length_map]

lemma fill_dynamicMenuLayout (bodies : List (List α)) :
    (d.dynamicMenuLayout options owner m indent).fill wrap bodies =
      (m.promptCommands indent ++ Command.script indent (m.script options.disabledMark)).map wrap ++
        wrap (m.emptyWindow indent) ::
          weave wrap (selectionSlots indent (d.exits owner m)) bodies := by
  rw [Layout.fill, slots_dynamicMenuLayout]
  simp [dynamicMenuLayout]

lemma behind_dynamicMenuLayout (bodies : List (List α)) {i : ℕ}
    (hi : i < (d.exits owner m).length) :
    (d.dynamicMenuLayout options owner m indent).behind wrap bodies i =
      wrap (.stop (indent + 1)) :: wrap (.conditionalEnd indent) ::
        weave wrap (selectionSlots indent ((d.exits owner m).drop (i + 1)))
          (bodies.drop (i + 1)) := by
  rw [Layout.behind, slots_dynamicMenuLayout]
  simp [dynamicMenuLayout, selectionSlots, List.getElem?_eq_getElem hi, selectionSlot, Slot.block,
    List.map_drop]

/-- The tests behind a slot stand in the program where the menu does. -/
lemma suffix_tests {bodies : List (List α)} {i : ℕ} (hi : i < (d.exits owner m).length)
    (hlength : bodies.length = (d.exits owner m).length) (after : List α) :
    weave wrap (selectionSlots indent ((d.exits owner m).drop (i + 1))) (bodies.drop (i + 1)) ++
      after <:+ (d.dynamicMenuLayout options owner m indent).fill wrap bodies ++ after := by
  have hslot : i < (d.dynamicMenuLayout options owner m indent).slots.length := by
    rwa [slots_dynamicMenuLayout, selectionSlots, List.length_map]
  have hbody : i < bodies.length := by rwa [hlength]
  obtain ⟨before, hbefore⟩ := Layout.fill_split wrap hslot (List.getElem?_eq_getElem hbody)
  rw [hbefore, d.behind_dynamicMenuLayout wrap options owner m indent _ hi]
  refine ⟨before ++ bodies[i] ++ [wrap (.stop (indent + 1)), wrap (.conditionalEnd indent)], ?_⟩
  simp

end Document

namespace Engine

variable {game : Game} {program : List Command} (s : Engine) {d : Document} {options : Options}
  {n : Node} {m : Menu} {indent : UInt32}

lemma weave_selectionSlots {α : Type} (wrap : Command → α) (route : Int64 × Option String)
    (routes : List (Int64 × Option String)) (body : List α) (bodies : List (List α)) :
    weave wrap (selectionSlots indent (route :: routes)) (body :: bodies) =
      wrap (.conditionalBranch indent (selectionCondition route.1).expression) ::
        (body ++ wrap (.stop (indent + 1)) :: wrap (.conditionalEnd indent) ::
          weave wrap (selectionSlots indent routes) bodies) := by
  simp [selectionSlots, weave, Document.selectionSlot, Slot.block]

/-- A test that does not hold is passed over, with its block. -/
lemma step_test_of_ne {i : Int64} (htest : game.test? s.choice (selectionCondition i).expression =
    some (s.choice == i)) (hne : s.choice ≠ i) {body : List Command} (hbody : Passed body)
    (rest : List Command) :
    step game program (s.goto (.conditionalBranch indent (selectionCondition i).expression ::
        (body ++ .stop (indent + 1) :: .conditionalEnd indent :: rest))) =
      some ([], s.goto rest) := by
  have hfalse : (s.choice == i) = false := by simpa using hne
  rw [step_goto_cons]
  simp only [obey, Command.conditionalBranch, test, Command.expression, goto_choice, htest, hfalse,
    goto_goto]
  rw [otherwise_end indent (indent + 1) hbody rest]

/-- Tests that do not hold are passed over. -/
lemma reaches_tests (htest : ∀ i, game.test? s.choice (selectionCondition i).expression =
    some (s.choice == i)) {routes : List (Int64 × Option String)} {bodies : List (List Command)}
    (hbodies : ∀ body ∈ bodies, Passed body) (hlength : bodies.length = routes.length)
    (hnone : s.choice ∉ routes.map Prod.fst) (after : List Command) :
    Reaches (step game program) (s.goto (weave id (selectionSlots indent routes) bodies ++ after))
      [] (s.goto after) := by
  induction routes generalizing bodies with
  | nil =>
    obtain rfl := List.length_eq_zero_iff.1 hlength
    exact .refl _
  | cons route routes ih =>
    obtain ⟨body, bodies, rfl⟩ := List.exists_cons_of_length_eq_add_one hlength
    simp only [List.map_cons, List.mem_cons, not_or] at hnone
    have hrest := ih (fun b hb => hbodies b (by simp [hb])) (Nat.succ.inj hlength) hnone.2
    rw [weave_selectionSlots, List.cons_append, List.append_assoc]
    exact .cons (s.step_test_of_ne (htest route.1) hnone.1 (hbodies body (by simp)) _) hrest

/-- The first test that holds is found, and its block is entered. -/
lemma reaches_entered (hserves : game.Serves d options)
    (hmenu : d.dynamicMenu? n.id = some (n.id, m)) {routes : List (Int64 × Option String)}
    {bodies : List (List (String × Command))}
    (hbodies : ∀ body ∈ bodies, Passed (body.map Prod.snd))
    (hlength : bodies.length = routes.length) {after : List (String × Command)}
    (hsuffix : weave (Prod.mk n.id) (selectionSlots indent routes) bodies ++ after <:+
      d.located options)
    {k : ℕ} {body : List (String × Command)} (hbody : bodies[k]? = some body)
    (hk : (routes.map Prod.fst)[k]? = some s.choice)
    (hbefore : ∀ j < k, (routes.map Prod.fst)[j]? ≠ some s.choice) :
    Reaches (step game program)
      (s.goto ((weave (Prod.mk n.id) (selectionSlots indent routes) bodies ++ after).map Prod.snd))
      [.entered n.id s.choice]
      (s.goto ((body ++ ((n.id, .stop (indent + 1)) :: (n.id, .conditionalEnd indent) ::
        weave (Prod.mk n.id) (selectionSlots indent (routes.drop (k + 1))) (bodies.drop (k + 1)) ++
          after)).map Prod.snd)) := by
  have htest := hserves.test?_eq hmenu s.choice
  induction k generalizing routes bodies with
  | zero =>
    -- the first test holds, and the game knows whose test it is
    obtain ⟨hk', -⟩ := List.getElem?_eq_some_iff.1 hbody
    obtain ⟨first, bodies, rfl⟩ := List.exists_cons_of_length_pos hk'
    obtain ⟨route, routes, rfl⟩ := List.exists_cons_of_length_eq_add_one hlength.symm
    obtain rfl : first = body := by simpa using hbody
    have hroute : route.1 = s.choice := by simpa using hk
    rw [weave_selectionSlots, List.cons_append] at hsuffix ⊢
    have hknown := hserves.menu?_eq hsuffix
    have htrue := htest route.1
    rw [hroute, beq_self_eq_true] at htrue
    refine .single ?_
    rw [List.map_cons, step_goto_cons]
    simp only [obey, Command.conditionalBranch, test, Command.expression, goto_choice, hroute,
      htrue, List.length_map, hknown, hmenu, Option.toList_some, List.map_cons, List.map_nil,
      goto_goto]
    simp
  | succ k ih =>
    -- the first test does not hold, so its block is passed over
    obtain ⟨hk', -⟩ := List.getElem?_eq_some_iff.1 hbody
    obtain ⟨first, bodies, rfl⟩ := List.exists_cons_of_length_pos (Nat.zero_lt_of_lt hk')
    obtain ⟨route, routes, rfl⟩ := List.exists_cons_of_length_eq_add_one hlength.symm
    have hne : s.choice ≠ route.1 := by
      intro h
      exact hbefore 0 (Nat.succ_pos k) (by simp [h])
    rw [weave_selectionSlots, List.cons_append, List.append_assoc] at hsuffix ⊢
    have hrest := ih (fun b hb => hbodies b (by simp [hb])) (Nat.succ.inj hlength)
      (List.IsSuffix.trans ⟨(n.id, .conditionalBranch indent
        (selectionCondition route.1).expression) :: first ++ [(n.id, .stop (indent + 1)),
          (n.id, .conditionalEnd indent)], by simp⟩ hsuffix)
      (by simpa using hbody) (by simpa using hk)
      (fun j hj => by simpa using hbefore (j + 1) (Nat.succ_lt_succ hj))
    have hstep := @step_test_of_ne game program s indent route.1 (htest route.1) hne
      (first.map Prod.snd) (hbodies first (by simp))
      ((weave (Prod.mk n.id) (selectionSlots indent routes) bodies ++ after).map Prod.snd)
    simpa using Reaches.cons hstep hrest

/-- If the value of the variable is one of those that are tested, a block is entered. -/
lemma exists_reaches_entered (hserves : game.Serves d options)
    (hmenu : d.dynamicMenu? n.id = some (n.id, m)) {routes : List (Int64 × Option String)}
    {bodies : List (List (String × Command))}
    (hbodies : ∀ body ∈ bodies, Passed (body.map Prod.snd))
    (hlength : bodies.length = routes.length) {after : List (String × Command)}
    (hsuffix : weave (Prod.mk n.id) (selectionSlots indent routes) bodies ++ after <:+
      d.located options)
    (hvalue : s.choice ∈ routes.map Prod.fst) :
    ∃ t, Reaches (step game program)
      (s.goto ((weave (Prod.mk n.id) (selectionSlots indent routes) bodies ++ after).map Prod.snd))
      [.entered n.id s.choice] t := by
  have hfirst : ∃ k : ℕ, (routes.map Prod.fst)[k]? = some s.choice := List.mem_iff_getElem?.1 hvalue
  -- the first test that holds
  have hk := Nat.find_spec hfirst
  have hbefore : ∀ j < Nat.find hfirst, (routes.map Prod.fst)[j]? ≠ some s.choice :=
    fun j hj => Nat.find_min hfirst hj
  have hbody : Nat.find hfirst < bodies.length := by
    obtain ⟨hlt, -⟩ := List.getElem?_eq_some_iff.1 hk
    rwa [List.length_map, ← hlength] at hlt
  exact ⟨_, s.reaches_entered hserves hmenu hbodies hlength hsuffix
    (List.getElem?_eq_getElem hbody) hk hbefore⟩

/-- Behind one of its slots, a menu whose choices a script sets up makes the tests that follow. -/
lemma reaches_table (htable : n.table? = some m) {i : ℕ}
    (hi : i < (d.layout options n indent).slots.length) (bodies : List (List Command))
    (after : List Command) :
    Reaches (step game program)
      (s.goto ((d.layout options n indent).behind id bodies i ++ after)) []
      (s.goto (weave id (selectionSlots indent ((d.exits n.id m).drop (i + 1)))
        (bodies.drop (i + 1)) ++ after)) := by
  rw [Document.length_slots_of_table? htable] at hi
  rw [Document.layout_of_table? htable, d.behind_dynamicMenuLayout id options n.id m indent _ hi]
  exact .cons (s.step_mark (by simp [Command.stop]) _)
    (.single (s.step_mark (by simp [Command.conditionalEnd]) _))

/-- A menu whose choices a script sets up says its prompt, runs the script and shows its window. -/
lemma reaches_select (hserves : game.Serves d options)
    (hmenu : d.dynamicMenu? n.id = some (n.id, m)) (hroutes : m.routes ≠ [])
    {bodies : List (List (String × Command))} (hlength : bodies.length = m.routes.length)
    {after : List (String × Command)}
    (hsuffix : (d.dynamicMenuLayout options n.id m indent).fill (Prod.mk n.id) bodies ++ after <:+
      d.located options) :
    let rest := (weave (Prod.mk n.id) (selectionSlots indent (d.exits n.id m)) bodies ++
      after).map Prod.snd
    Reaches (step game program)
      (s.goto (((d.dynamicMenuLayout options n.id m indent).fill (Prod.mk n.id) bodies ++
        after).map Prod.snd))
      (Walker.selectEvents options m ++
        ((m.route? s.answers.head).map fun route => Event.shown n.id route.1).toList)
      (match m.route? s.answers.head with
        | some route => { s.resume rest with choice := route.1 }
        | none => s.goto []) := by
  intro rest
  have hplain : ∀ c ∈ m.promptCommands indent ++ Command.script indent
      (m.script options.disabledMark), c.opcode.isPlain := by
    intro c hc
    rcases List.mem_append.1 hc with hc | hc
    · exact (Menu.isPlainAt_of_mem_promptCommands hc).isPlain
    · exact (Command.isPlainAt_of_mem_script hc).isPlain
  have hprompt := @reaches_plain game program s _ hplain (m.emptyWindow indent :: rest)
  have hfill : ((d.dynamicMenuLayout options n.id m indent).fill (Prod.mk n.id) bodies ++
      after).map Prod.snd = m.promptCommands indent ++ Command.script indent
        (m.script options.disabledMark) ++ m.emptyWindow indent :: rest := by
    simp [Document.fill_dynamicMenuLayout, rest, Function.comp_def]
  -- the window is known to belong to the menu
  have hknown : game.menu? (rest.length + 1) = some (n.id, m) := by
    rw [Document.fill_dynamicMenuLayout, List.append_assoc, List.cons_append] at hsuffix
    have h := hserves.menu?_eq (List.IsSuffix.trans (List.suffix_append _ _) hsuffix)
    rw [← hmenu, ← h, List.length_map]
  -- a test follows the window, so the window has no blocks of its own
  have hopens : (m.emptyWindow indent).opens rest = false := by
    obtain ⟨route, routes, hexits⟩ : ∃ route routes, d.exits n.id m = route :: routes := by
      refine List.exists_cons_of_ne_nil ?_
      simpa [Document.exits] using hroutes
    have hlength' : bodies.length = routes.length + 1 := by
      rw [hlength, ← List.length_map Prod.fst, ← d.map_fst_exits n.id, hexits]
      simp
    obtain ⟨body, bodies, rfl⟩ := List.exists_cons_of_length_eq_add_one hlength'
    simp [rest, hexits, weave_selectionSlots, Command.opens, Menu.emptyWindow, Command.showChoices,
      Command.conditionalBranch, Opcode.dividesWindow]
  have hwindow := @step_select game program s (m.emptyWindow indent) rfl rest hopens
  have hparameters : (m.emptyWindow indent).parameters = (m.emptyWindow 0).parameters := rfl
  rw [select, hknown, hparameters] at hwindow
  rw [performed_append, performed_promptCommands, performed_script, ← performed_append] at hprompt
  rw [hfill]
  cases hroute : m.route? s.answers.head with
  | none =>
    simp only [hroute] at hwindow
    simpa [Walker.selectEvents] using hprompt.trans (.single hwindow)
  | some route =>
    simp only [hroute] at hwindow
    simpa [Walker.selectEvents] using hprompt.trans (.single hwindow)

/-- If the player does something in such a menu, its table of tests leads to the block for that. -/
lemma reaches_selected (hserves : game.Serves d options)
    (hmenu : d.dynamicMenu? n.id = some (n.id, m)) (hnodup : (m.routes.map Prod.fst).Nodup)
    {bodies : List (List (String × Command))}
    (hbodies : ∀ body ∈ bodies, Passed (body.map Prod.snd))
    (hlength : bodies.length = m.routes.length) {after : List (String × Command)}
    (hsuffix : (d.dynamicMenuLayout options n.id m indent).fill (Prod.mk n.id) bodies ++ after <:+
      d.located options)
    {route : Int64 × String} (hroute : m.route? s.answers.head = some route) {k : ℕ}
    (hk : m.routes[k]? = some route) {body : List (String × Command)}
    (hbody : bodies[k]? = some body) :
    Reaches (step game program)
      (s.goto (((d.dynamicMenuLayout options n.id m indent).fill (Prod.mk n.id) bodies ++
        after).map Prod.snd))
      (Walker.selectEvents options m ++ [.shown n.id route.1, .entered n.id route.1])
      { s.resume ((body ++ ((d.dynamicMenuLayout options n.id m indent).behind (Prod.mk n.id)
          bodies k ++ after)).map Prod.snd) with choice := route.1 } := by
  obtain ⟨hk', -⟩ := List.getElem?_eq_some_iff.1 hk
  have hselect := @reaches_select game program s d options n m indent hserves hmenu
    (List.ne_nil_of_length_pos (Nat.zero_lt_of_lt hk')) bodies hlength after hsuffix
  simp only [hroute, Option.map_some, Option.toList_some] at hselect
  have htable : weave (Prod.mk n.id) (selectionSlots indent (d.exits n.id m)) bodies ++ after <:+
      d.located options := by
    rw [Document.fill_dynamicMenuLayout, List.append_assoc, List.cons_append] at hsuffix
    exact List.IsSuffix.trans
      (List.IsSuffix.trans (List.suffix_cons _ _) (List.suffix_append _ _)) hsuffix
  have hvalue : ((d.exits n.id m).map Prod.fst)[k]? = some route.1 := by
    rw [d.map_fst_exits, List.getElem?_map, hk]
    rfl
  -- no two choices have the same value
  have hbefore : ∀ j < k, ((d.exits n.id m).map Prod.fst)[j]? ≠ some route.1 := by
    intro j hj
    rw [← hvalue, d.map_fst_exits]
    exact List.nodup_iff_getElem?_ne_getElem?.1 hnodup j k hj (by simpa using hk')
  have hentered := @reaches_entered game program ⟨[], route.1, s.answers.tail⟩ d options n m indent
    hserves hmenu _ bodies hbodies (by simpa [Document.exits] using hlength) after htable k body
    hbody hvalue hbefore
  have hboth := hselect.trans hentered
  rw [List.append_assoc] at hboth
  rw [d.behind_dynamicMenuLayout (Prod.mk n.id) options n.id m indent bodies
    (by simpa [Document.exits] using hk')]
  exact hboth

end Engine

end Dialogue
