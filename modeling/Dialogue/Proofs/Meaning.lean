import Dialogue.Proofs.Following
/-!
A program does what its graph says.

While the walk goes on, the engine follows it.  Where the walk ends, the engine leaves the blocks
around its place one after the other.  It passes over the other parts of conditions and windows,
but the tests of a menu whose choices a script sets up are made, and if one of them holds, the
engine runs on (`Place.reaches_stray`); otherwise it halts in silence (`Place.reaches_end`).

Whether a test holds there can be read off the walk: it strays if what was chosen last is the value
of a later choice of a menu around the node where it ended (`Walker.Strays`).  Program and graph
agree if it does not, so they always agree for documents without such menus.
-/

namespace Dialogue

/-! ## Leaving the blocks around a place -/

section Leave

variable {d : Document} {options : Options} {game : Game} {last target : Option String} {n : Node}
  {g f : Forest} {indent : UInt32} {after : List (String × Command)} {path : List (Node × ℕ)}
  (hplace : Place d options last target (.enter n g f) indent after path)

include hplace

/-- Behind one of its slots, a node is left in silence if none of its tests holds. -/
lemma Place.reaches_behind (hserves : game.Serves d options) (s : Engine) {i : ℕ}
    (hi : i < (d.layout options n indent).slots.length) (hfree : n.catches s.choice i = false) :
    Reaches (Engine.step game (d.compile options))
      (s.goto ((d.layout options n indent).behind id
        (g.codes d options (d.layout options n indent).depth) i ++ after.map Prod.snd)) []
      (s.goto (after.map Prod.snd)) := by
  have hnode := (Document.nodeAt?_eq_some hplace.nodeAt?_eq).2
  have hlength := hplace.length_codes
  have hpassed : ∀ body ∈ g.codes d options (d.layout options n indent).depth, Passed body :=
    fun body hbody => hplace.passed hbody
  have hpassing : ∀ {head target}, d.layout options n indent =
      Document.passingLayout head target indent →
      (d.layout options n indent).behind id
        (g.codes d options (d.layout options n indent).depth) i = [] := by
    intro head target hlayout
    rw [hlayout] at hi ⊢
    exact Document.behind_passingLayout id head target indent hi _
  by_cases hmuted : (n.muted && !n.isStart) = true
  · rw [hpassing (if_pos hmuted)]
    exact .refl _
  · have hlayout : d.layout options n indent = _ := if_neg hmuted
    cases hkind : n.kind with
    | start =>
      rw [hkind] at hlayout
      rw [hpassing hlayout]
      exact .refl _
    | action actions =>
      rw [hkind] at hlayout
      rw [hpassing hlayout]
      exact .refl _
    | condition condition =>
      rw [hkind] at hlayout
      rw [hlayout] at hi hlength hpassed ⊢
      obtain ⟨yes, no, hcodes⟩ := List.length_eq_two.1 hlength
      rw [hcodes] at hpassed ⊢
      obtain rfl | rfl : i = 0 ∨ i = 1 := by
        have hi' : i < 2 := hi
        omega
      · exact s.reaches_behind_yes d n.id condition indent yes _ (hpassed no (by simp))
      · exact s.reaches_behind_no d n.id condition indent yes no _
    | menu m =>
      rw [hkind] at hlayout
      by_cases hm : m.isDynamic
      · -- no test that follows holds
        have htable := Node.table?_of_menu hmuted hkind hm
        refine (s.reaches_table htable hi _ _).quiet (s.reaches_tests ?_ ?_ ?_ ?_ _)
        · exact hserves.test?_eq (Document.dynamicMenu?_of_table? htable hnode) s.choice
        · exact fun body hbody => hpassed body (List.mem_of_mem_drop hbody)
        · rw [List.length_drop, List.length_drop, hlength, Document.length_slots_of_table? htable]
        · rw [List.map_drop, d.map_fst_exits]
          simpa [Node.catches, htable] using hfree
      · simp only [if_neg hm] at hlayout
        rw [hlayout] at hi hlength hpassed ⊢
        exact Engine.reaches_behind_staticMenu hpassed hlength s hi _
    | finish | group | comment =>
      rw [hkind] at hlayout
      rw [hlayout] at hi
      cases hi

/-- Behind one of its slots, a menu may run into the block of another choice. -/
lemma Place.reaches_caught (hserves : game.Serves d options) (s : Engine)
    {i : ℕ} (hi : i < (d.layout options n indent).slots.length)
    (hcaught : n.catches s.choice i) :
    ∃ t, Reaches (Engine.step game (d.compile options))
      (s.goto ((d.layout options n indent).behind id
        (g.codes d options (d.layout options n indent).depth) i ++ after.map Prod.snd))
      [.entered n.id s.choice] t := by
  have hnode := (Document.nodeAt?_eq_some hplace.nodeAt?_eq).2
  obtain ⟨m, htable, hvalue⟩ : ∃ m, n.table? = some m ∧
      s.choice ∈ (m.routes.map Prod.fst).drop (i + 1) := by
    simpa [Node.catches, Option.any_eq_true] using hcaught
  obtain ⟨bodies, hcodes, hlength, hpassed, hsuffix⟩ := hplace.exists_bodies htable
  have hi' : i < (d.exits n.id m).length := by rwa [Document.length_slots_of_table? htable] at hi
  have hlength' : bodies.length = (d.exits n.id m).length := by
    simpa [Document.exits] using hlength
  have htests := List.IsSuffix.trans
    (d.suffix_tests (Prod.mk n.id) options n.id m indent hi' hlength' after) hsuffix
  obtain ⟨t, hentered⟩ := @Engine.exists_reaches_entered game (d.compile options) s d options n m
    indent hserves (Document.dynamicMenu?_of_table? htable hnode) _ (bodies.drop (i + 1))
    (fun body hbody => hpassed body (List.mem_of_mem_drop hbody))
    (by rw [List.length_drop, List.length_drop, hlength']) after htests
    (by rwa [List.map_drop, d.map_fst_exits])
  rw [List.map_append, map_weave, snd_comp_mk, List.map_drop] at hentered
  rw [hcodes]
  exact ⟨t, (s.reaches_table htable hi _ _).quiet hentered⟩

end Leave

section After

variable {d : Document} {options : Options} {game : Game} {last target : Option String} {f : Forest}
  {indent : UInt32} {after : List (String × Command)} {path : List (Node × ℕ)}
  (hplace : Place d options last target f indent after path) (hserves : game.Serves d options)
  (s : Engine)

include hplace hserves

/-- Behind a place, the program ends in silence if no test of the nodes around it holds. -/
theorem Place.reaches_end (hfree : ∀ block ∈ path, block.1.catches s.choice block.2 = false) :
    Reaches (Engine.step game (d.compile options)) (s.goto (after.map Prod.snd)) []
      (s.goto []) := by
  induction hplace with
  | entrance => exact .single (s.step_mark (by simp [Command.stop]) [])
  | @slot last target n g f indent after path i t hplace ht ih =>
    have hbehind := hplace.reaches_behind hserves s (Place.slot_lt ht) (hfree (n, i) (by simp))
    have hrest := ih fun block hblock => hfree block (by simp [hblock])
    rw [List.map_append, Layout.map_behind, snd_comp_mk, Forest.map_snd_placed]
    exact hbehind.quiet hrest

/-- Behind a place, the innermost test of the nodes around it that holds is found. -/
theorem Place.reaches_stray (hcaught : ∃ block ∈ path, block.1.catches s.choice block.2) :
    ∃ block ∈ path, block.1.catches s.choice block.2 ∧ ∃ t,
      Reaches (Engine.step game (d.compile options)) (s.goto (after.map Prod.snd))
        [.entered block.1.id s.choice] t := by
  induction hplace with
  | entrance =>
    obtain ⟨block, hblock, -⟩ := hcaught
    cases hblock
  | @slot last target n g f indent after path i t hplace ht ih =>
    rw [List.map_append, Layout.map_behind, snd_comp_mk, Forest.map_snd_placed]
    by_cases hcatches : n.catches s.choice i
    · exact ⟨(n, i), by simp, hcatches,
        hplace.reaches_caught hserves s (Place.slot_lt ht) hcatches⟩
    · -- the node is left, so the test is one of a node around it
      have hcaught' : ∃ block ∈ path, block.1.catches s.choice block.2 := by
        obtain ⟨block, hblock, hcatches'⟩ := hcaught
        rcases List.mem_cons.1 hblock with rfl | hblock
        · exact absurd hcatches' hcatches
        · exact ⟨block, hblock, hcatches'⟩
      obtain ⟨block, hblock, hcatches', u, hrun⟩ := ih hcaught'
      have hbehind := hplace.reaches_behind hserves s (Place.slot_lt ht) (by simpa using hcatches)
      exact ⟨block, by simp [hblock], hcatches', u, hbehind.quiet hrun⟩

end After

/-! ## Where the walk ends -/

/-- The node at which a walk has ended: the next one, if there is one, else the last one. -/
def Walker.end? (d : Document) (w : Walker) : Option String :=
  ((d.nodeAt? w.target).map Node.id).or w.last

/-- A walk that has ended inside the block of a choice strays if what was chosen last is also the
value of a choice that follows in the same table. -/
def Walker.Strays (d : Document) (w : Walker) : Prop :=
  ∃ x path, w.end? d = some x ∧ (x, path) ∈ d.paths ∧
    ∃ block ∈ path, block.1.catches w.choice block.2

lemma Walker.strays_iff {d : Document} {w : Walker} {x : String} {path : List (Node × ℕ)}
    (hend : w.end? d = some x) (hpath : (x, path) ∈ d.paths) :
    w.Strays d ↔ ∃ block ∈ path, block.1.catches w.choice block.2 := by
  constructor
  · rintro ⟨x', path', hend', hpath', hblock⟩
    obtain rfl := Option.some.inj (hend.symm.trans hend')
    obtain rfl := Document.eq_of_mem_paths hpath hpath'
    exact hblock
  · intro hblock
    exact ⟨x, path, hend, hpath, hblock⟩

section Settle

variable {d : Document} {options : Options} {game : Game}

/-- A walk that is behind an outlet that leads nowhere strays because of the nodes around the one
that was left. -/
lemma Place.strays_iff {w : Walker} {last target : Option String} {f : Forest} {indent : UInt32}
    {after : List (String × Command)} {path : List (Node × ℕ)}
    (hplace : Place d options last target f indent after path) (hlast : w.last = last)
    (hdead : d.nodeAt? w.target = none)
    (hfree : ∀ block ∈ path.head?, block.1.catches w.choice block.2 = false) :
    w.Strays d ↔ ∃ block ∈ path, block.1.catches w.choice block.2 := by
  have hend : w.end? d = last := by
    rw [Walker.end?, hdead, hlast]
    rfl
  cases hplace with
  | entrance =>
    constructor
    · rintro ⟨x, path, hend', -⟩
      rw [hend] at hend'
      cases hend'
    · rintro ⟨block, hblock, -⟩
      cases hblock
  | @slot _ _ n _ _ _ _ path i _ hparent _ =>
    rw [Walker.strays_iff hend hparent.mem_paths]
    constructor
    · rintro ⟨block, hblock, hcatches⟩
      exact ⟨block, by simp [hblock], hcatches⟩
    · rintro ⟨block, hblock, hcatches⟩
      -- the node that was left has no test for what was chosen in it
      rcases List.mem_cons.1 hblock with rfl | hblock
      · rw [hfree (n, i) rfl] at hcatches
        cases hcatches
      · exact ⟨block, hblock, hcatches⟩

/-- At a node from which nothing leads on there are no commands. -/
lemma Engine.reaches_finish (s : Engine) {w : Walker} {n : Node}
    (hcome : w.come d options game.test? n = none) {g f : Forest} {indent : UInt32}
    {code after : List (String × Command)}
    (hcode : ((Forest.enter n g f).placed d options indent)[0]? = some code) :
    Reaches (step game (d.compile options)) (s.goto ((code ++ after).map Prod.snd)) []
      (s.goto (after.map Prod.snd)) := by
  have hfill : (d.layout options n indent).fill id
      (g.codes d options (d.layout options n indent).depth) = [] := by
    unfold Walker.come at hcome
    by_cases hmuted : (n.muted && !n.isStart) = true
    · rw [if_pos hmuted] at hcome
      cases hcome
    · have hlayout : d.layout options n indent = _ := if_neg hmuted
      rw [if_neg hmuted, Walker.visit] at hcome
      cases hkind : n.kind with
      | finish | group | comment =>
        rw [hkind] at hlayout
        rw [hlayout]
        rfl
      | start | action _ | condition _ | menu _ =>
        rw [hkind] at hcome
        cases hcome
  rw [map_snd_code hcode, hfill]
  exact s.reaches_labelAt d indent n.id (after.map Prod.snd)

/-- Where the walk has ended, the engine gets in silence behind a place whose path tells whether the
walk strays; or the walk has gone nowhere, and the engine has halted. -/
lemma Rel.settles {r : ℕ} {w : Walker} {s : Engine} (hrel : Rel d options r w s)
    (hhalt : w.step d options game.test? = none) :
    (s.rest = [] ∧ ¬w.Strays d) ∨
      ∃ last target f indent after path, Place d options last target f indent after path ∧
        Reaches (Engine.step game (d.compile options)) s [] (w.before (after.map Prod.snd)) ∧
        (w.Strays d ↔ ∃ block ∈ path, block.1.catches w.choice block.2) := by
  cases hrel with
  | nowhere hlast htarget hrest =>
    refine .inl ⟨hrest, ?_⟩
    rintro ⟨x, path, hend, -⟩
    rw [Walker.end?, hlast, htarget] at hend
    cases hend
  | left hplace hlast htarget =>
    refine .inr ⟨_, _, _, _, _, _, hplace, .refl _, Walker.strays_iff ?_ hplace.mem_paths⟩
    rw [Walker.end?, hlast, htarget]
    rfl
  | @tree _ f indent after path code hplace hfree hcode =>
    obtain ⟨targets, hfollows⟩ := hplace.follows
    cases hfollows with
    | dead hdead _ =>
      -- nothing stands at the outlet, so the engine is behind its place already
      obtain rfl : [] = code := by simpa using hcode
      exact .inr ⟨_, _, _, _, _, _, hplace, .refl _, hplace.strays_iff rfl hdead hfree⟩
    | enter hn _ _ =>
      rw [Walker.step, hn] at hhalt
      refine .inr ⟨_, _, _, _, _, _, hplace, ?_, Walker.strays_iff ?_ hplace.mem_paths⟩
      · exact (w.before []).reaches_finish hhalt hcode
      · rw [Walker.end?, hn]
        rfl
    | @jump _ _ n _ hn _ =>
      rw [Walker.step, hn] at hhalt
      obtain rfl : [(n.id, Command.jumpToLabel indent n.id)] = code := by simpa using hcode
      obtain ⟨last, target, g, f, indent', after', path', code, hplace', hcode', hjump⟩ :=
        hplace.exists_step_jump game hn
      -- the walk ends at a node that has its place elsewhere
      refine .inr ⟨_, _, _, _, _, _, hplace', ?_, Walker.strays_iff ?_ hplace'.mem_paths⟩
      · exact .cons (hjump (w.before [])) ((w.before []).reaches_finish hhalt hcode')
      · rw [Walker.end?, hn]
        rfl

/-- At the beginning the engine stands where the walk begins. -/
lemma exists_rel_beginning (d : Document) (options : Options) (v : Int64)
    (answers : Stream' Answer) :
    ∃ r, Rel d options r ⟨none, d.entrance?, v, answers⟩ ⟨d.compile options, v, answers⟩ := by
  cases hstart : d.start? with
  | none =>
    refine ⟨0, .nowhere rfl ?_ (Document.compile_of_start_eq_none hstart)⟩
    simp [Document.entrance?, hstart]
  | some start =>
    obtain ⟨code, hcode⟩ := d.exists_placed_trunk options
    have hrel := @Rel.tree d options ⟨none, d.entrance?, v, answers⟩ _ _ _ _ code .entrance
      (by simp) (by rw [hcode]; rfl)
    have hcompile : d.compile options = (code ++ [("", Command.stop 0)]).map Prod.snd := by
      rw [← d.map_snd_located options, Document.located, hstart, hcode]
      simp
    rw [← hcompile] at hrel
    exact ⟨_, hrel⟩

/-- A program does what its graph says if the walk does not end where it strays. -/
theorem agree_of_not_strays (hserves : game.Serves d options) (hdistinct : d.Distinct) (v : Int64)
    (answers : Stream' Answer)
    (hfree : ∀ ⦃n es w⦄, Runs (Walker.step d options game.test?) n
      ⟨none, d.entrance?, v, answers⟩ es w → w.step d options game.test? = none → ¬w.Strays d) :
    Agree (Walker.step d options game.test?) (Engine.step game (d.compile options))
      ⟨none, d.entrance?, v, answers⟩ ⟨d.compile options, v, answers⟩ := by
  obtain ⟨r, hrel⟩ := exists_rel_beginning d options v answers
  refine (simulates hserves hdistinct).agree hrel ?_
  intro n es r w s hrun hrel hhalt
  rcases hrel.settles hhalt with ⟨hrest, -⟩ | ⟨_, _, _, _, _, path, hplace, hsettle, hstrays⟩
  · refine ⟨0, s, .refl s, ?_⟩
    rw [Engine.step, hrest]
  · have hnone : ∀ block ∈ path, block.1.catches w.choice block.2 = false := by
      intro block hblock
      by_contra hcatches
      exact hfree hrun hhalt (hstrays.2 ⟨block, hblock, by simpa using hcatches⟩)
    obtain ⟨k, hquiet⟩ := hsettle.quiet (hplace.reaches_end hserves (w.before []) hnone)
    exact ⟨k, _, hquiet, rfl⟩

end Settle

/-! ## Menus with fixed choices -/

namespace Document

/-- No choice of a menu depends on the state of the game. -/
def IsStatic (d : Document) : Prop :=
  ∀ n ∈ d.nodes, ∀ m, n.kind = .menu m → ∀ c ∈ m.choices, c.hide = none ∧ c.disable = none

section Static

variable {d : Document} (hstatic : d.IsStatic)

include hstatic

lemma isDynamic_eq_false {n : Node} (hn : n ∈ d.nodes) {m : Menu} (hm : n.kind = .menu m) :
    m.isDynamic = false := by
  refine List.any_eq_false.2 fun c hc => ?_
  obtain ⟨hhide, hdisable⟩ := hstatic n hn m hm c hc
  simp [Choice.isDynamic, hhide, hdisable]

lemma table?_eq_none {n : Node} (hn : n ∈ d.nodes) : n.table? = none := by
  refine Option.eq_none_iff_forall_ne_some.2 fun m hm => ?_
  obtain ⟨-, hkind, hdynamic⟩ := Node.table?_eq_some.1 hm
  rw [isDynamic_eq_false hstatic hn hkind] at hdynamic
  cases hdynamic

lemma dynamicMenu?_eq_none (id : String) : d.dynamicMenu? id = none := by
  rw [dynamicMenu?]
  cases hn : d.node? id with
  | none => rfl
  | some n =>
    have hmem := mem_nodes_of_node? hn
    cases hkind : n.kind with
    | menu m => simp [hkind, isDynamic_eq_false hstatic hmem hkind]
    | start | action _ | condition _ | finish | group | comment => simp [hkind]

end Static

/-- If no choice depends on the state of the game, a program does what its graph says: whatever the
answers are, both show the same, and one of them halts if and only if the other one does. -/
theorem compile_agrees_with_walk (d : Document) (options : Options) (hstatic : d.IsStatic)
    (v : Int64) (answers : Stream' Answer) :
    Agree (Walker.step d options Game.plain.test?) (Engine.step .plain (d.compile options))
      ⟨none, d.entrance?, v, answers⟩ ⟨d.compile options, v, answers⟩ := by
  have hserves : Game.plain.Serves d options := by
    constructor
    · intro owner c rest _
      exact (dynamicMenu?_eq_none hstatic owner).symm
    · intro id menu hmenu
      rw [dynamicMenu?_eq_none hstatic id] at hmenu
      cases hmenu
  have hdistinct : d.Distinct := by
    intro n m hn hm
    rw [table?_eq_none hstatic hn] at hm
    cases hm
  refine agree_of_not_strays hserves hdistinct v answers ?_
  rintro n es w - - ⟨x, path, -, hpath, block, hblock, hcatches⟩
  have htable := table?_eq_none hstatic (mem_nodes_of_mem_paths hpath hblock)
  rw [Node.catches_eq_false htable] at hcatches
  cases hcatches

theorem compile_bargain_agrees_with_walk :
    bargain.IsStatic ∧ ∀ v answers,
      Agree (Walker.step bargain {} Game.plain.test?) (Engine.step .plain (bargain.compile {}))
        ⟨none, bargain.entrance?, v, answers⟩ ⟨bargain.compile {}, v, answers⟩ := by
  have hstatic : bargain.IsStatic := by
    intro n hn m hm
    simp only [bargain, List.mem_cons, List.not_mem_nil, or_false] at hn
    rcases hn with rfl | rfl | rfl | rfl <;> cases hm
    simp
  exact ⟨hstatic, compile_agrees_with_walk bargain {} hstatic⟩

end Document

end Dialogue
