import Std.Data.String.ToInt
import Dialogue.Proofs.Meaning
/-!
Which blocks the tests of a menu lead to.

A menu whose choices a script sets up leaves the player's choice in a variable, and its tests ask
for the value of that variable one after the other.  Each time that the menu is shown, the block of
what was chosen should be entered, once (`Routed`).

On the way of a walk this is what happens: a menu is shown, and the block is entered at once.  But
when the walk has ended inside a block, the tests that stand behind that block are still made.  The
variable may meanwhile hold what was chosen in a menu further inside, or the walk may have come into
the block by a jump from the block of a later choice; then a test holds that should not be made any
more.  So the menus of a document are routed exactly on those runs whose walk does not end in such a
place (`routed_iff_not_strays`).
-/

namespace Dialogue

/-! ## Rounds -/

/-- Whether an event is about the choices of a menu. -/
def Event.isMarkOf (menu : String) : Event → Bool
  | .shown id _ | .entered id _ => id == menu
  | .performed _ _ | .evaluated _ | .window _ => false

/-- A block of a menu is entered by its test only if what was last seen of the menu is that the
player took the choice of this block: so it is the right block, and it is entered once. -/
def Routed (menu : String) (es : List Event) : Prop :=
  ∀ before value after, es = before ++ .entered menu value :: after →
    (before.filter (Event.isMarkOf menu)).getLast? = some (.shown menu value)

/-- A menu is shown, and a block is entered, time after time. -/
def rounds (menu : String) (values : List Int64) : List Event :=
  values.flatMap fun value => [.shown menu value, .entered menu value]

/-- All that is seen of a menu are such rounds. -/
def InRounds (menu : String) (es : List Event) : Prop :=
  ∃ values, es.filter (Event.isMarkOf menu) = rounds menu values

section Rounds

variable {menu : String} {es es' : List Event} {value : Int64}

lemma Routed.of_le (h : Routed menu es) (hpre : es' <+: es) : Routed menu es' := by
  obtain ⟨rest, rfl⟩ := hpre
  rintro before value after rfl
  exact h before value (after ++ rest) (by simp)

/-- In rounds, a block is entered right after the menu was shown. -/
lemma getLast?_of_rounds {values : List Int64} {before after : List Event}
    (h : rounds menu values = before ++ .entered menu value :: after) :
    before.getLast? = some (.shown menu value) := by
  induction values generalizing before with
  | nil => simp [rounds] at h
  | cons v values ih =>
    rw [rounds, List.flatMap_cons] at h
    -- the block is entered in the first round or in a later one
    rcases before with _ | ⟨first, _ | ⟨second, before⟩⟩
    · simp at h
    · simp only [List.cons_append, List.nil_append, List.cons.injEq, Event.entered.injEq] at h
      obtain ⟨rfl, ⟨-, rfl⟩, -⟩ := h
      rfl
    · simp only [List.cons_append, List.nil_append, List.cons.injEq] at h
      obtain ⟨-, -, h⟩ := h
      rw [List.getLast?_cons_cons, List.getLast?_cons, ih h]
      rfl

lemma getLast?_rounds_ne (values : List Int64) :
    (rounds menu values).getLast? ≠ some (.shown menu value) := by
  rcases List.eq_nil_or_concat values with rfl | ⟨values, v, rfl⟩
  · simp [rounds]
  · simp [rounds]

namespace InRounds

lemma of_filter_eq_nil (h : es.filter (Event.isMarkOf menu) = []) : InRounds menu es :=
  ⟨[], h⟩

lemma append (h : InRounds menu es) (h' : InRounds menu es') : InRounds menu (es ++ es') := by
  obtain ⟨values, hvalues⟩ := h
  obtain ⟨values', hvalues'⟩ := h'
  refine ⟨values ++ values', ?_⟩
  rw [List.filter_append, hvalues, hvalues', rounds, rounds, rounds, List.flatMap_append]

lemma routed (h : InRounds menu es) : Routed menu es := by
  obtain ⟨values, hvalues⟩ := h
  rintro before value after rfl
  have hsplit : rounds menu values = before.filter (Event.isMarkOf menu) ++ .entered menu value ::
      after.filter (Event.isMarkOf menu) := by
    rw [← hvalues, List.filter_append, List.filter_cons_of_pos (by simp [Event.isMarkOf])]
  exact getLast?_of_rounds hsplit

/-- A block that is entered behind rounds is entered without the menu being shown. -/
lemma not_routed (h : InRounds menu es) : ¬Routed menu (es ++ [.entered menu value]) := by
  intro hrouted
  obtain ⟨values, hvalues⟩ := h
  have hlast := hrouted es value [] rfl
  rw [hvalues] at hlast
  exact getLast?_rounds_ne values hlast

end InRounds

end Rounds

/-! ## Walks are in rounds -/

section Walks

variable {d : Document} {options : Options} {test? : Int64 → String → Option Bool} {w w' : Walker}
  {es : List Event} (menu : String)

lemma filter_performed (cs : List Command) :
    (performed cs).filter (Event.isMarkOf menu) = [] := by
  refine List.filter_eq_nil_iff.2 fun e he => ?_
  obtain ⟨c, -, rfl⟩ := List.mem_map.1 he
  simp [Event.isMarkOf]

lemma Walker.inRounds_branch (n : Node) (condition : Condition) :
    InRounds menu (w.branch d test? n condition).1 := by
  refine .of_filter_eq_nil ?_
  rw [branch]
  split <;> rfl

lemma Walker.inRounds_choose (n : Node) (m : Menu) : InRounds menu (w.choose d n m).1 := by
  refine .of_filter_eq_nil ?_
  rw [choose, List.filter_append, filter_performed]
  rfl

lemma Walker.inRounds_selectEvents (m : Menu) : InRounds menu (selectEvents options m) := by
  refine .of_filter_eq_nil ?_
  rw [selectEvents, List.filter_append, filter_performed]
  rfl

/-- A menu whose choices a script sets up is shown, and a block of it is entered. -/
lemma Walker.inRounds_select (n : Node) (m : Menu) :
    InRounds menu (w.select d options n m).1 := by
  rw [select]
  cases m.route? w.answers.head with
  | none => exact inRounds_selectEvents menu m
  | some route =>
    refine (inRounds_selectEvents menu m).append ?_
    by_cases hmenu : n.id = menu
    · exact ⟨[route.1], by simp [rounds, Event.isMarkOf, hmenu]⟩
    · exact .of_filter_eq_nil (by simp [Event.isMarkOf, hmenu])

lemma Walker.inRounds_step (h : w.step d options test? = some (es, w')) : InRounds menu es := by
  obtain ⟨n, -, hcome⟩ := Option.bind_eq_some_iff.1 h
  unfold come at hcome
  by_cases hmuted : (n.muted && !n.isStart) = true
  · rw [if_pos hmuted] at hcome
    obtain ⟨rfl, -⟩ := Prod.mk.inj (Option.some.inj hcome)
    exact .of_filter_eq_nil rfl
  · rw [if_neg hmuted, visit] at hcome
    cases hkind : n.kind with
    | start =>
      rw [hkind] at hcome
      obtain ⟨rfl, -⟩ := Prod.mk.inj (Option.some.inj hcome)
      exact .of_filter_eq_nil rfl
    | action actions =>
      rw [hkind] at hcome
      obtain ⟨rfl, -⟩ := Prod.mk.inj (Option.some.inj hcome)
      exact .of_filter_eq_nil (filter_performed menu _)
    | condition condition =>
      rw [hkind] at hcome
      have hrounds := @Walker.inRounds_branch d test? w menu n condition
      rwa [Option.some.inj hcome] at hrounds
    | menu m =>
      rw [hkind] at hcome
      have hrounds : InRounds menu
          (if m.isDynamic then w.select d options n m else w.choose d n m).1 := by
        split
        · exact w.inRounds_select menu n m
        · exact w.inRounds_choose menu n m
      rwa [Option.some.inj hcome] at hrounds
    | finish | group | comment =>
      rw [hkind] at hcome
      cases hcome

/-- All that a walk shows of a menu are rounds. -/
theorem Walker.inRounds_runs {n : ℕ} (h : Runs (Walker.step d options test?) n w es w') :
    InRounds menu es := by
  induction h with
  | refl w => exact .of_filter_eq_nil rfl
  | cons hstep _ ih => exact (inRounds_step menu hstep).append ih

end Walks

/-! ## Runs that stray -/

namespace Document

/-- The game that knows the menus of a document; `test?` decides conditions by the variable that
holds the player's choice. -/
def game (d : Document) (options : Options) (test? : Int64 → String → Option Bool) : Game where
  test? := test?
  menu? left := ((d.located options).drop ((d.located options).length - left)).head?.bind
    fun c => d.dynamicMenu? c.1

variable {d : Document} {options : Options} {test? : Int64 → String → Option Bool}

lemma serves_game
    (htest : ∀ v i, test? v (selectionCondition i).expression = some (v == i)) :
    (d.game options test?).Serves d options := by
  constructor
  · rintro owner c rest ⟨before, hbefore⟩
    have hlength : (d.located options).length - (rest.length + 1) = before.length := by
      rw [← hbefore, List.length_append, List.length_cons, Nat.add_sub_cancel]
    show ((d.located options).drop ((d.located options).length - (rest.length + 1))).head?.bind
      (fun c => d.dynamicMenu? c.1) = d.dynamicMenu? owner
    rw [hlength, ← hbefore, List.drop_left]
    rfl
  · intro id menu _
    exact htest

lemma distinct_of_menusFit (hfit : d.MenusFit) : d.Distinct := by
  intro n m hn hm
  obtain ⟨-, hkind, -⟩ := Node.table?_eq_some.1 hm
  exact Menu.nodup_values (hfit n hn m hkind)

/-- On a run of a program, each block of a menu whose choices a script sets up is entered only after
the menu was shown and the choice of the block was taken, and once, exactly if the walk that gives
the same answers does not end where it strays. -/
theorem routed_iff_not_strays (d : Document) (options : Options) (hfit : d.MenusFit)
    (test? : Int64 → String → Option Bool)
    (htest : ∀ v i, test? v (selectionCondition i).expression = some (v == i))
    (v : Int64) (answers : Stream' Answer) :
    (∀ menu k, Routed menu (trace (Engine.step (d.game options test?) (d.compile options)) k
        ⟨d.compile options, v, answers⟩)) ↔
      ∀ n es w, Runs (Walker.step d options test?) n ⟨none, d.entrance?, v, answers⟩ es w →
        w.step d options test? = none → ¬w.Strays d := by
  have hserves : (d.game options test?).Serves d options := serves_game htest
  have hdistinct := distinct_of_menusFit hfit
  constructor
  · intro hrouted n es w hrun hhalt hstrays
    obtain ⟨r, hrel⟩ := exists_rel_beginning d options v answers
    obtain ⟨k, r', s, hengine, hrel'⟩ := (simulates hserves hdistinct).forward hrel hrun
    -- behind the place where the walk has ended, a test holds
    rcases @Rel.settles d options (d.game options test?) _ _ _ hrel' hhalt with
      ⟨-, hnot⟩ | ⟨_, _, _, _, _, path, hplace, hsettle, hiff⟩
    · exact hnot hstrays
    · obtain ⟨block, -, -, t, hstray⟩ :=
        hplace.reaches_stray hserves (w.before []) (hiff.1 hstrays)
      obtain ⟨k', hrest⟩ := hsettle.quiet hstray
      have hall := hengine.trans hrest
      have htrace := hall.trace_add 0
      have hrounds := Walker.inRounds_runs block.1.id hrun
      refine @InRounds.not_routed _ _ w.choice hrounds ?_
      have hrouted' := hrouted block.1.id (k' + k + 0)
      rw [htrace, trace, List.append_nil] at hrouted'
      exact hrouted'
  · intro hfree menu k
    have hagree := agree_of_not_strays hserves hdistinct v answers hfree
    obtain ⟨n, hpre⟩ := hagree.ge k
    obtain ⟨m, w, hrun⟩ := exists_runs_trace (Walker.step d options test?) n
      ⟨none, d.entrance?, v, answers⟩
    exact (Walker.inRounds_runs menu hrun).routed.of_le hpre

/-- A dialogue in which both choices of a menu lead to the same place. -/
def crossroads : Document where
  nodes := [{ id := "start", kind := .start },
    { id := "fork", kind := .menu
        { choices := [{ id := "l", text := "Left", hide := some (.switch 1 true) },
            { id := "r", text := "Right" }] } },
    { id := "inn", kind := .action [.commonEvent 7] }]
  edges := [{ id := "e0", source := "start", target := "fork" },
    { id := "e1", source := "fork", target := "inn", handle := some "choice-0" },
    { id := "e2", source := "fork", target := "inn", handle := some "choice-1" }]

lemma menusFit_crossroads : crossroads.MenusFit := by
  intro n hn m hm
  simp only [crossroads, List.mem_cons, List.not_mem_nil, or_false] at hn
  rcases hn with rfl | rfl | rfl <;> cases hm
  simp

/-- The inn is entered in the block of the first choice. -/
lemma exists_mem_paths_crossroads : ∃ path, ("inn", path) ∈ crossroads.paths ∧
    ∃ block ∈ path, block.1.catches 1 block.2 := by
  have hfork : crossroads.nodeAt? crossroads.entrance? = some crossroads.nodes[1] := rfl
  have hinn : crossroads.nodeAt? (some "inn") = some crossroads.nodes[2] := rfl
  have houtlets : crossroads.outlets crossroads.nodes[1] = [some "inn", some "inn"] := rfl
  have hmem : ∀ {x}, (crossroads.node? x).isSome → x ∈ crossroads.allIds := mem_allIds.2
  have hid : crossroads.nodes[2].id = "inn" := rfl
  refine ⟨[(crossroads.nodes[1], 0)], ?_, _, List.mem_singleton_self _, rfl⟩
  rw [paths, trunk, forest_enter hfork (hmem rfl), houtlets, forest_enter hinn ?_]
  · simp [Forest.paths, hid]
  · rw [Std.HashSet.mem_erase]
    exact ⟨by decide, hmem rfl⟩

/-- The game that takes every condition for a test of what was chosen. -/
def selectionTest? (v : Int64) (expression : String) : Option Bool :=
  some (expression == (selectionCondition v).expression)

lemma selectionTest?_eq (v i : Int64) :
    selectionTest? v (selectionCondition i).expression = some (v == i) := by
  have hinjective : (selectionCondition i).expression = (selectionCondition v).expression →
      v = i := by
    intro h
    have hvalue : toString i.toInt = toString v.toInt := (String.append_right_inj _).1 h
    exact (Int64.toInt_inj.1 (Int.repr_inj.1 hvalue)).symm
  refine congrArg some (Bool.eq_iff_iff.2 ?_)
  rw [beq_iff_eq, beq_iff_eq]
  constructor
  · exact hinjective
  · rintro rfl
    rfl

/-- Whoever goes right comes to the inn in the block of the left way, and from there into the block
of the right way again. -/
theorem not_routed_crossroads :
    ¬∀ menu k, Routed menu (trace
      (Engine.step (crossroads.game {} selectionTest?) (crossroads.compile {})) k
      ⟨crossroads.compile {}, 0, Stream'.const (.choice 1)⟩) := by
  intro hrouted
  have hfree := (routed_iff_not_strays crossroads {} menusFit_crossroads selectionTest?
    selectionTest?_eq 0 (Stream'.const (.choice 1))).1 hrouted
  obtain ⟨path, hpath, hcaught⟩ := exists_mem_paths_crossroads
  let inn : Walker := ⟨some "inn", none, 1, Stream'.const (.choice 1)⟩
  have hwalk : ∃ es, Runs (Walker.step crossroads {} selectionTest?) 2
      ⟨none, crossroads.entrance?, 0, Stream'.const (.choice 1)⟩ es inn :=
    ⟨_, .cons rfl (.cons rfl (.refl _))⟩
  obtain ⟨es, hrun⟩ := hwalk
  exact hfree 2 es inn hrun rfl ⟨"inn", path, rfl, hpath, hcaught⟩

end Document

end Dialogue
