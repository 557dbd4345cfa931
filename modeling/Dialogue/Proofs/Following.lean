import Dialogue.Proofs.Tables
/-!
The engine follows the walk.

When the walk goes to an outlet, the engine stands in front of the tree of that outlet (`Rel`): at a
node that is entered there it runs the commands of the node, at a jump it first goes to the place of
the node.  In either case it arrives where the walk goes next (`Arrives`), so every step of the walk
is some steps of the engine (`simulates`).  The rank that goes down when these are none is the size
of the tree.
-/

namespace Dialogue

/-- The engine that knows what the walker knows, in front of some commands. -/
def Walker.before (w : Walker) (rest : List Command) : Engine :=
  ⟨rest, w.choice, w.answers⟩

/-- `Rel d options r w s`: the engine `s` stands where the walker `w` goes; `r` is the rank. -/
inductive Rel (d : Document) (options : Options) : ℕ → Walker → Engine → Prop
  /-- In front of a tree.  No other test of the node that was left holds. -/
  | tree {w f indent after path code} : Place d options w.last w.target f indent after path →
      (∀ block ∈ path.head?, block.1.catches w.choice block.2 = false) →
      (f.placed d options indent)[0]? = some code →
      Rel d options f.firstSize w (w.before ((code ++ after).map Prod.snd))
  /-- Behind a node that was left through none of its outlets. -/
  | left {w last target n g f indent after path} :
      Place d options last target (.enter n g f) indent after path → w.last = some n.id →
      w.target = none → Rel d options 0 w (w.before (after.map Prod.snd))
  /-- Nowhere. -/
  | nowhere {w s} : w.last = none → w.target = none → s.rest = [] → Rel d options 0 w s

/-! ## Coming to a node -/

section Come

variable {d : Document} {options : Options} {game : Game} {last target : Option String} {n : Node}
  {g f : Forest} {indent : UInt32} {after : List (String × Command)} {path : List (Node × ℕ)}
  (hplace : Place d options last target (.enter n g f) indent after path)

include hplace

lemma Place.follows_inside : Forest.Follows d (d.outlets n) g := by
  obtain ⟨targets, hfollows⟩ := hplace.follows
  cases hfollows with
  | enter _ hg _ => exact hg

/-- What fills the slots of a node that is entered is passed over as a whole. -/
lemma Place.passed {body : List Command}
    (hbody : body ∈ g.codes d options (d.layout options n indent).depth) : Passed body := by
  have hderives : Derives (fun _ => True) .sequence _ body :=
    hplace.follows_inside.derives_codes (fun _ _ _ _ _ => trivial) hbody
  exact hderives.passed

lemma Place.length_codes :
    (g.codes d options (d.layout options n indent).depth).length =
      (d.layout options n indent).slots.length := by
  rw [Forest.codes, List.length_map]
  exact hplace.follows_inside.length_bodies options indent

omit hplace in
lemma map_snd_code {code : List (String × Command)}
    (hcode : ((Forest.enter n g f).placed d options indent)[0]? = some code) :
    (code ++ after).map Prod.snd = d.labelAt indent n.id ++ ((d.layout options n indent).fill id
      (g.codes d options (d.layout options n indent).depth) ++ after.map Prod.snd) := by
  rw [Forest.placed_enter] at hcode
  obtain rfl := Option.some.inj hcode
  simp only [List.map_append, List.map_map, Layout.map_fill, snd_comp_mk, Forest.map_snd_placed,
    List.map_id, List.append_assoc]

/-- The game knows to which menu a command of a node belongs. -/
lemma Place.menu?_eq (hserves : game.Serves d options)
    {c : Command} {before rest : List (String × Command)}
    (hfill : (d.layout options n indent).fill (Prod.mk n.id)
      (g.placed d options (d.layout options n indent).depth) = before ++ (n.id, c) :: rest) :
    game.menu? ((rest ++ after).length + 1) = d.dynamicMenu? n.id := by
  have hsuffix := hplace.suffix_fill
  rw [hfill, List.append_assoc] at hsuffix
  exact hserves.menu?_eq (c := c) (List.IsSuffix.trans (List.suffix_append _ _) hsuffix)

/-- In front of what fills one of the slots of a node, the engine follows a walker that leaves the
node through the outlet of that slot. -/
lemma Place.rel_slot {w : Walker} {i : ℕ} (hlast : w.last = some n.id)
    (htarget : (d.outlets n)[i]? = some w.target) (hfree : n.catches w.choice i = false) :
    ∃ body r, (g.codes d options (d.layout options n indent).depth)[i]? = some body ∧
      r < (Forest.enter n g f).firstSize ∧
      Rel d options r w (w.before (body ++ ((d.layout options n indent).behind id
        (g.codes d options (d.layout options n indent).depth) i ++ after.map Prod.snd))) := by
  have hi : i < (g.placed d options (d.layout options n indent).depth).length := by
    rw [← List.length_map (List.map Prod.snd), Forest.map_snd_placed, hplace.length_codes]
    exact Place.slot_lt htarget
  -- the place of the slot is the one behind the trees before it
  obtain ⟨body, hbody⟩ : ∃ body,
      (g.placed d options (d.layout options n indent).depth)[i]? = some body :=
    ⟨_, List.getElem?_eq_getElem hi⟩
  have hchild := hplace.slot htarget
  rw [← hlast] at hchild
  have hfirst :
      ((g.drop i).placed d options (d.layout options n indent).depth)[0]? = some body := by
    rw [Forest.placed_drop, List.getElem?_drop, Nat.add_zero]
    exact hbody
  have hrel := Rel.tree hchild (by simpa using hfree) hfirst
  simp only [List.map_append, Layout.map_behind, snd_comp_mk, Forest.map_snd_placed] at hrel
  refine ⟨body.map Prod.snd, _, ?_, Nat.lt_succ_of_le (Forest.firstSize_drop_le i g), hrel⟩
  rw [← Forest.map_snd_placed, List.getElem?_map, hbody]
  rfl

end Come

/-- The engine gets from `s` to where the walker `w` goes, shows `es` on the way, and the rank is
then less than `bound`. -/
def Arrives (d : Document) (options : Options) (game : Game) (bound : ℕ) (s : Engine)
    (es : List Event) (w : Walker) : Prop :=
  ∃ r t, r < bound ∧ Reaches (Engine.step game (d.compile options)) s es t ∧ Rel d options r w t

section Arrive

variable {d : Document} {options : Options} {game : Game} {last target : Option String} {n : Node}
  {g f : Forest} {indent : UInt32} {after : List (String × Command)} {path : List (Node × ℕ)}
  (hplace : Place d options last target (.enter n g f) indent after path)
  {w w' : Walker} {es : List Event}

include hplace

/-- It is enough to get to what fills a slot. -/
lemma Place.arrives {i : ℕ} (hlast : w'.last = some n.id)
    (htarget : (d.outlets n)[i]? = some w'.target) (hfree : n.catches w'.choice i = false)
    {s : Engine}
    (hrun : ∀ body, (g.codes d options (d.layout options n indent).depth)[i]? = some body →
      Reaches (Engine.step game (d.compile options)) s es
        (w'.before (body ++ ((d.layout options n indent).behind id
          (g.codes d options (d.layout options n indent).depth) i ++ after.map Prod.snd)))) :
    Arrives d options game (Forest.enter n g f).firstSize s es w' := by
  obtain ⟨body, r, hbody, hr, hrel⟩ := hplace.rel_slot hlast htarget hfree
  exact ⟨r, _, hr, hrun body hbody, hrel⟩

omit hplace in
/-- It is enough to halt if the walker goes nowhere. -/
lemma arrives_nowhere {s t : Engine}
    (hrun : Reaches (Engine.step game (d.compile options)) s es t) (ht : t.rest = []) :
    Arrives d options game (Forest.enter n g f).firstSize s es w.nowhere :=
  ⟨0, t, Nat.succ_pos _, hrun, .nowhere rfl rfl ht⟩

/-- A node without blocks does what stands at its head and is left. -/
lemma Place.arrives_passing {head : List Command} {t : Option String}
    (hlayout : d.layout options n indent = Document.passingLayout head t indent)
    (houtlets : d.outlets n = [t]) (htable : n.table? = none)
    (hhead : ∀ c ∈ head, c.opcode.isPlain) :
    Arrives d options game (Forest.enter n g f).firstSize
      (w.before ((d.layout options n indent).fill id
        (g.codes d options (d.layout options n indent).depth) ++ after.map Prod.snd))
      (performed head) (w.leave n t) := by
  have hlength := hplace.length_codes
  refine hplace.arrives (i := 0) rfl (by rw [houtlets]; rfl) (Node.catches_eq_false htable _ _)
    fun body hbody => ?_
  rw [hlayout] at hlength hbody ⊢
  obtain ⟨inside, hinside⟩ := List.length_eq_one_iff.1 hlength
  rw [hinside] at hbody ⊢
  obtain rfl : inside = body := by simpa using hbody
  exact (w.before []).reaches_passing hhead t indent inside (after.map Prod.snd)

lemma Place.menu?_condition (hserves : game.Serves d options)
    {condition : Condition}
    (hlayout : d.layout options n indent = d.conditionLayout n.id condition indent)
    {yes no : List Command}
    (hcodes : g.codes d options (d.layout options n indent).depth = [yes, no]) :
    game.menu? ((yes ++ ((d.conditionLayout n.id condition indent).behind id [yes, no] 0 ++
      after.map Prod.snd)).length + 1) = d.dynamicMenu? n.id := by
  rw [← Forest.map_snd_placed] at hcodes
  obtain ⟨yes', rest, hplaced, rfl, hrest⟩ := List.map_eq_cons_iff.1 hcodes
  obtain ⟨no', rest', rfl, rfl, hrest'⟩ := List.map_eq_cons_iff.1 hrest
  obtain rfl := List.map_eq_nil_iff.1 hrest'
  have hfill := d.fill_conditionLayout (Prod.mk n.id) n.id condition indent yes' no'
  rw [← hlayout, ← hplaced] at hfill
  have hknown := hplace.menu?_eq hserves (hfill.trans (List.nil_append _).symm)
  rw [← hknown, hplaced, hlayout, ← List.length_map Prod.snd]
  simp only [List.map_append, Layout.map_behind, snd_comp_mk, List.map_cons, List.map_nil,
    List.append_assoc]

/-- A condition is tested, and left through one of its two outlets. -/
lemma Place.arrives_condition (hserves : game.Serves d options)
    {condition : Condition}
    (hlayout : d.layout options n indent = d.conditionLayout n.id condition indent)
    (houtlets : d.outlets n = [d.targetAt? n.id trueHandle, d.targetAt? n.id falseHandle])
    (hmenu : d.dynamicMenu? n.id = none) (htable : n.table? = none) :
    Arrives d options game (Forest.enter n g f).firstSize
      (w.before ((d.layout options n indent).fill id
        (g.codes d options (d.layout options n indent).depth) ++ after.map Prod.snd))
      (w.branch d game.test? n condition).1 (w.branch d game.test? n condition).2 := by
  have hlength := hplace.length_codes
  rw [hlayout] at hlength
  obtain ⟨yes, no, hcodes⟩ := List.length_eq_two.1 hlength
  rw [← hlayout] at hcodes
  have hpassed : Passed yes := hplace.passed (by rw [hcodes]; simp)
  have hknown := hplace.menu?_condition hserves hlayout hcodes
  have hstep := @Engine.step_conditionLayout game (d.compile options) (w.before []) d n.id condition
    indent yes hpassed no (after.map Prod.snd) (hknown.trans hmenu)
  -- either block is reached as soon as a step leads there
  have hblock : ∀ {i : ℕ} {body : List Command} {holds : Bool} {s : Engine} {w₁ : Walker}
      {es : List Event}, [yes, no][i]? = some body →
      (d.outlets n)[i]? = some (w₁.leaveCondition d n holds).target →
      Engine.step game (d.compile options) s = some (es, w₁.before (body ++
        ((d.conditionLayout n.id condition indent).behind id [yes, no] i ++ after.map Prod.snd))) →
      Arrives d options game (Forest.enter n g f).firstSize s es (w₁.leaveCondition d n holds) := by
    intro i body holds s w₁ es hbody htarget h
    refine hplace.arrives rfl htarget (Node.catches_eq_false htable _ _) fun body' hbody' => ?_
    rw [hcodes] at hbody' ⊢
    obtain rfl := Option.some.inj (hbody.symm.trans hbody')
    rw [hlayout]
    exact .single h
  have hyes : (d.outlets n)[0]? = some (d.targetAt? n.id trueHandle) := by
    rw [houtlets]
    rfl
  have hno : (d.outlets n)[1]? = some (d.targetAt? n.id falseHandle) := by
    rw [houtlets]
    rfl
  rw [hcodes, hlayout]
  rw [Walker.branch]
  cases htest : game.test? w.choice condition.expression with
  | some holds =>
    simp only [Walker.before, htest] at hstep
    cases holds with
    | true => exact @hblock 0 yes true _ w _ rfl hyes hstep
    | false => exact @hblock 1 no false _ w _ rfl hno hstep
  | none =>
    simp only [Walker.before, htest] at hstep
    cases hanswer : w.answers.head with
    | truth holds =>
      rw [hanswer] at hstep
      cases holds with
      | true => exact @hblock 0 yes true _ w.answered _ rfl hyes hstep
      | false => exact @hblock 1 no false _ w.answered _ rfl hno hstep
    | choice i =>
      rw [hanswer] at hstep
      exact arrives_nowhere (.single hstep) rfl
    | cancel =>
      rw [hanswer] at hstep
      exact arrives_nowhere (.single hstep) rfl
    | nothing =>
      rw [hanswer] at hstep
      exact arrives_nowhere (.single hstep) rfl

/-- A menu with fixed choices is shown, and left as the player says. -/
lemma Place.arrives_staticMenu {m : Menu}
    (hlayout : d.layout options n indent = d.staticMenuLayout n.id m indent)
    (houtlets : d.outlets n = m.routes.map fun route => d.targetAt? n.id route.2)
    (htable : n.table? = none) :
    Arrives d options game (Forest.enter n g f).firstSize
      (w.before ((d.layout options n indent).fill id
        (g.codes d options (d.layout options n indent).depth) ++ after.map Prod.snd))
      (w.choose d n m).1 (w.choose d n m).2 := by
  have hlength := hplace.length_codes
  have hpassed : ∀ body ∈ g.codes d options (d.layout options n indent).depth, Passed body :=
    fun body hbody => hplace.passed hbody
  rw [hlayout] at hlength hpassed
  have hwindow := @Engine.reaches_window d n.id m indent _ hlength game (d.compile options)
    (w.before []) (after.map Prod.snd)
  have htarget : ∀ {i : ℕ} {route : Int64 × String}, m.routes[i]? = some route →
      (d.outlets n)[i]? = some (d.targetAt? n.id route.2) := by
    intro i route hroute
    rw [houtlets, List.getElem?_map, hroute]
    rfl
  have hcount : (m.window indent).choiceCount = m.choices.length := by
    simp [Menu.window, Command.choiceCount, Command.showChoices]
  have hindent : (m.window indent).indent = indent := rfl
  rw [Walker.choose]
  -- what the player does decides where the window leads
  cases hanswer : w.answers.head with
  | truth holds =>
    rw [Engine.choose_truth _ _ hanswer] at hwindow
    rw [hlayout]
    exact arrives_nowhere hwindow rfl
  | choice i =>
    rw [Engine.choose_choice _ _ hanswer, hcount] at hwindow
    by_cases hi : i < m.choices.length
    · have hroute : m.route? (.choice i) = some (Int64.ofNat i, choiceHandle i) := if_pos hi
      rw [hroute]
      refine hplace.arrives rfl (htarget (Menu.getElem?_routes_choice hi))
        (Node.catches_eq_false htable _ _) fun body hbody => ?_
      rw [hlayout] at hbody ⊢
      rw [if_pos hi, hindent, choiceBlock_staticMenu hpassed hlength hi hbody] at hwindow
      exact hwindow
    · have hroute : m.route? (.choice i) = none := if_neg hi
      rw [if_neg hi] at hwindow
      rw [hroute, hlayout, if_neg (by simp)]
      exact arrives_nowhere hwindow rfl
  | cancel =>
    rw [Engine.choose_cancel _ _ hanswer, hindent] at hwindow
    by_cases hcancel : m.cancel = .branch
    · have hroute : m.route? .cancel = some (cancelledChoice, cancelHandle) := if_pos hcancel
      have hblock : (m.window indent).hasCancelBlock := by
        simp [Menu.window, Command.hasCancelBlock, Command.showChoices, hcancel, CancelMode.code]
      rw [hroute]
      refine hplace.arrives rfl (htarget (Menu.getElem?_routes_cancel hcancel))
        (Node.catches_eq_false htable _ _) fun body hbody => ?_
      rw [hlayout] at hbody ⊢
      rw [if_pos hblock, cancelBlock_staticMenu_branch hpassed hlength hcancel hbody] at hwindow
      exact hwindow
    · have hroute : m.route? .cancel = none := if_neg hcancel
      rw [cancelBlock_staticMenu_of_ne hpassed hlength hcancel] at hwindow
      rw [hroute, hlayout, if_neg (by simp)]
      refine arrives_nowhere hwindow ?_
      split <;> rfl
  | nothing =>
    rw [Engine.choose_nothing _ _ hanswer, hcount, hindent] at hwindow
    have hroute : m.route? .nothing = none := rfl
    rw [hroute, hlayout]
    by_cases hempty : m.choices = []
    · -- the menu is left, but through none of its outlets
      rw [if_pos ⟨rfl, hempty⟩]
      rw [if_pos (by simp [hempty]), pastWindow_staticMenu hpassed hlength] at hwindow
      exact ⟨0, _, Nat.succ_pos _, hwindow, .left hplace rfl rfl⟩
    · rw [if_neg (fun h => hempty h.2)]
      rw [if_neg (by simpa using hempty)] at hwindow
      exact arrives_nowhere hwindow rfl

/-- What fills the slots of a menu whose choices a script sets up. -/
lemma Place.exists_bodies {m : Menu} (htable : n.table? = some m) :
    ∃ bodies : List (List (String × Command)),
      g.codes d options (d.layout options n indent).depth = bodies.map (List.map Prod.snd) ∧
      bodies.length = m.routes.length ∧ (∀ body ∈ bodies, Passed (body.map Prod.snd)) ∧
      (d.dynamicMenuLayout options n.id m indent).fill (Prod.mk n.id) bodies ++ after <:+
        d.located options := by
  have hlayout := Document.layout_of_table? (d := d) htable options indent
  have hcodes := @Forest.map_snd_placed d options (d.layout options n indent).depth g
  refine ⟨_, hcodes.symm, ?_, ?_, ?_⟩
  · have hlength := hplace.length_codes
    rw [← hcodes, List.length_map, hlayout] at hlength
    rw [hlayout, hlength]
    simp [Document.dynamicMenuLayout]
  · intro body hbody
    refine hplace.passed ?_
    rw [← hcodes]
    exact List.mem_map_of_mem hbody
  · rw [← hlayout]
    exact hplace.suffix_fill

/-- A menu whose choices a script sets up is shown, and its table of tests leads to the block of
what the player took. -/
lemma Place.arrives_dynamicMenu (hserves : game.Serves d options)
    (hdistinct : d.Distinct) {m : Menu} (htable : n.table? = some m) :
    Arrives d options game (Forest.enter n g f).firstSize
      (w.before ((d.layout options n indent).fill id
        (g.codes d options (d.layout options n indent).depth) ++ after.map Prod.snd))
      (w.select d options n m).1 (w.select d options n m).2 := by
  have hlayout := Document.layout_of_table? (d := d) htable options indent
  have hnode := (Document.nodeAt?_eq_some hplace.nodeAt?_eq).2
  have hmenu := Document.dynamicMenu?_of_table? htable hnode
  have hnodup := hdistinct (Document.mem_nodes_of_node? hnode) htable
  obtain ⟨bodies, hcodes, hlength, hpassed, hsuffix⟩ := hplace.exists_bodies htable
  have hfill : (d.dynamicMenuLayout options n.id m indent).fill id
      (bodies.map (List.map Prod.snd)) ++ after.map Prod.snd =
        ((d.dynamicMenuLayout options n.id m indent).fill (Prod.mk n.id) bodies ++ after).map
          Prod.snd := by
    rw [List.map_append, Layout.map_fill, snd_comp_mk]
  rw [Walker.select]
  cases hroute : m.route? w.answers.head with
  | none =>
    have hselect := @Engine.reaches_select game (d.compile options) (w.before []) d options n m
      indent hserves hmenu (Menu.routes_ne_nil (Node.table?_eq_some.1 htable).2.2) bodies hlength
      after hsuffix
    simp only [Walker.before, hroute, Option.map_none, Option.toList_none,
      List.append_nil] at hselect
    rw [hcodes, hlayout, hfill]
    exact arrives_nowhere hselect rfl
  | some route =>
    obtain ⟨k, hk⟩ := Menu.exists_getElem?_routes hroute
    have htarget : (d.outlets n)[k]? = some (d.targetAt? n.id route.2) := by
      rw [Document.outlets_of_table? htable, List.getElem?_map, hk]
      rfl
    have hfree : n.catches route.1 k = false := Node.catches_of_nodup htable hnodup hk
    refine hplace.arrives rfl htarget hfree fun body hbody => ?_
    rw [hcodes, List.getElem?_map] at hbody
    obtain ⟨body, hbody', rfl⟩ := Option.map_eq_some_iff.1 hbody
    have hselected := @Engine.reaches_selected game (d.compile options) (w.before []) d options n m
      indent hserves hmenu hnodup bodies hpassed hlength after hsuffix route hroute k hk body hbody'
    rw [hcodes, hlayout, hfill]
    simp only [List.map_append, Layout.map_behind, snd_comp_mk] at hselected ⊢
    exact hselected

/-- What stands at a node is run as the walk comes to it. -/
lemma Place.arrives_visit (hserves : game.Serves d options)
    (hdistinct : d.Distinct) (hmuted : (n.muted && !n.isStart) = false)
    (hvisit : w.visit d options game.test? n = some (es, w')) :
    Arrives d options game (Forest.enter n g f).firstSize
      (w.before ((d.layout options n indent).fill id
        (g.codes d options (d.layout options n indent).depth) ++ after.map Prod.snd)) es w' := by
  have hnode := (Document.nodeAt?_eq_some hplace.nodeAt?_eq).2
  have hlayout : d.layout options n indent = _ := if_neg (by simp [hmuted])
  have houtlets : d.outlets n = _ := if_neg (by simp [hmuted])
  unfold Walker.visit at hvisit
  cases hkind : n.kind with
  | start =>
    rw [hkind] at hvisit hlayout houtlets
    obtain ⟨rfl, rfl⟩ := Prod.mk.inj (Option.some.inj hvisit)
    exact hplace.arrives_passing hlayout houtlets (by simp [Node.table?, hkind]) nofun
  | action actions =>
    rw [hkind] at hvisit hlayout houtlets
    obtain ⟨rfl, rfl⟩ := Prod.mk.inj (Option.some.inj hvisit)
    rw [← performed_actions actions indent]
    refine hplace.arrives_passing hlayout houtlets (by simp [Node.table?, hkind]) ?_
    intro c hc
    obtain ⟨a, -, hc⟩ := List.mem_flatMap.1 hc
    exact (Action.isPlainAt_of_mem_commands hc).isPlain
  | condition condition =>
    rw [hkind] at hvisit hlayout houtlets
    have hmenu : d.dynamicMenu? n.id = none := by simp [Document.dynamicMenu?, hnode, hkind]
    have harrives := hplace.arrives_condition (w := w) hserves hlayout houtlets hmenu
      (by simp [Node.table?, hkind])
    rwa [Option.some.inj hvisit] at harrives
  | menu m =>
    rw [hkind] at hvisit hlayout houtlets
    by_cases hm : m.isDynamic
    · have htable : n.table? = some m := Node.table?_of_menu (by simp [hmuted]) hkind hm
      simp only [if_pos hm] at hvisit
      have harrives := hplace.arrives_dynamicMenu (w := w) hserves hdistinct htable
      rwa [Option.some.inj hvisit] at harrives
    · simp only [if_neg hm] at hvisit hlayout
      have harrives := @Place.arrives_staticMenu d options game _ _ _ _ _ _ _ _ hplace w m hlayout
        houtlets (by simp [Node.table?, hkind, hm])
      rwa [Option.some.inj hvisit] at harrives
  | finish | group | comment =>
    rw [hkind] at hvisit
    cases hvisit

/-- The engine follows the walk when it comes to a node that is entered. -/
lemma Place.arrives_come (hserves : game.Serves d options)
    (hdistinct : d.Distinct) (hcome : w.come d options game.test? n = some (es, w'))
    {code : List (String × Command)}
    (hcode : ((Forest.enter n g f).placed d options indent)[0]? = some code) :
    Arrives d options game (Forest.enter n g f).firstSize (w.before ((code ++ after).map Prod.snd))
      es w' := by
  rw [map_snd_code hcode]
  have hlabel := @Engine.reaches_labelAt game (d.compile options) (w.before []) d indent n.id
    ((d.layout options n indent).fill id (g.codes d options (d.layout options n indent).depth) ++
      after.map Prod.snd)
  have harrives : Arrives d options game (Forest.enter n g f).firstSize
      (w.before ((d.layout options n indent).fill id
        (g.codes d options (d.layout options n indent).depth) ++ after.map Prod.snd)) es w' := by
    unfold Walker.come at hcome
    by_cases hmuted : (n.muted && !n.isStart) = true
    · rw [if_pos hmuted] at hcome
      obtain ⟨rfl, rfl⟩ := Prod.mk.inj (Option.some.inj hcome)
      have htable : n.table? = none := by
        obtain ⟨hmuted', -⟩ := Bool.and_eq_true_iff.1 hmuted
        simp [Node.table?, hmuted']
      exact hplace.arrives_passing (if_pos hmuted) (if_pos hmuted) htable (by simp)
    · rw [if_neg hmuted] at hcome
      exact hplace.arrives_visit hserves hdistinct (by simpa using hmuted) hcome
  obtain ⟨r, t, hr, hrun, hrel⟩ := harrives
  exact ⟨r, t, hr, hlabel.quiet hrun, hrel⟩

end Arrive

/-! ## Following the walk -/

/-- A jump leads to the place of its node. -/
lemma Place.exists_step_jump {d : Document} {options : Options} {last target : Option String}
    {n : Node} {f : Forest} {indent : UInt32}
    {after : List (String × Command)} {path : List (Node × ℕ)}
    (hplace : Place d options last target (.jump n.id f) indent after path) (game : Game)
    (hn : d.nodeAt? target = some n) :
    ∃ last' target' g f' indent' after' path' code,
      Place d options last' target' (.enter n g f') indent' after' path' ∧
      ((Forest.enter n g f').placed d options indent')[0]? = some code ∧
      ∀ s : Engine, Engine.step game (d.compile options)
        (s.goto (([(n.id, Command.jumpToLabel indent n.id)] ++ after).map Prod.snd)) =
          some ([], s.goto ((code ++ after').map Prod.snd)) := by
  have hjump : n.id ∈ d.trunk.jumps := hplace.jumps_subset (by simp [Forest.jumps])
  -- the node has been entered somewhere, and has a label there
  obtain ⟨n', hmem, hid⟩ := List.mem_map.1 (Document.mem_trunk_of_mem_jumps hjump)
  obtain rfl : n' = n := by
    have hnode := Document.follows_trunk.node?_entered hmem
    rw [hid, (Document.nodeAt?_eq_some hn).2] at hnode
    exact (Option.some.inj hnode).symm
  obtain ⟨last', target', g, f', indent', after', path', hplace'⟩ :=
    @Place.exists_of_mem_trunk d options n' hmem
  obtain ⟨code, hcode⟩ : ∃ code,
      ((Forest.enter n' g f').placed d options indent')[0]? = some code := by
    rw [Forest.placed_enter]
    exact ⟨_, rfl⟩
  refine ⟨last', target', g, f', indent', after', path', code, hplace', hcode, fun s => ?_⟩
  rw [← hplace'.dropWhile_label (by simp [Document.needsLabel, hjump]) hcode]
  exact s.step_jump indent n'.id (after.map Prod.snd)

/-- Every step of the walk is some steps of the engine. -/
theorem simulates {d : Document} {options : Options} {game : Game} (hserves : game.Serves d options)
    (hdistinct : d.Distinct) :
    Simulates (Walker.step d options game.test?) (Engine.step game (d.compile options))
      (Rel d options) := by
  intro r w s es w' hrel hstep
  obtain ⟨n, hn, hcome⟩ := Option.bind_eq_some_iff.1 hstep
  cases hrel with
  | left _ _ htarget =>
    rw [htarget] at hn
    cases hn
  | nowhere _ htarget _ =>
    rw [htarget] at hn
    cases hn
  | @tree _ f indent after path code hplace _ hcode =>
    obtain ⟨targets, hfollows⟩ := hplace.follows
    cases hfollows with
    | dead hdead _ =>
      -- the walk would have ended
      rw [hdead] at hn
      cases hn
    | enter hn' _ _ =>
      -- the engine may need no step at all, but then it stands at a smaller tree
      obtain rfl := Option.some.inj (hn.symm.trans hn')
      obtain ⟨r', t, hr, ⟨k, hrun⟩, hrel⟩ :=
        hplace.arrives_come hserves hdistinct hcome hcode
      exact ⟨k, r', t, hrun, hrel, .inr hr⟩
    | jump hn' _ =>
      -- the jump is a step, so the tree there may be as large as it likes
      obtain rfl := Option.some.inj (hn.symm.trans hn')
      obtain rfl : [(n.id, .jumpToLabel indent n.id)] = code := by simpa using hcode
      obtain ⟨last, target, g, f, indent', after', path', code, hplace', hcode', hjump⟩ :=
        hplace.exists_step_jump game hn
      obtain ⟨r', t, -, ⟨k, hrun⟩, hrel⟩ := hplace'.arrives_come hserves hdistinct hcome hcode'
      exact ⟨k + 1, r', t, .cons (hjump (w.before [])) hrun, hrel, .inl (Nat.succ_pos k)⟩

end Dialogue
