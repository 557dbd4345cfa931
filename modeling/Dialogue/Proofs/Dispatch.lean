import Dialogue.Proofs.ChoiceScripts
import Dialogue.Proofs.Tables
/-!
The script of a menu and its table of tests.

A menu whose choices depend on the state of the game is written twice: a script offers the choices
that are shown, together with their places in the menu, and a table tests the place that the player
took.  The two meet only in a variable of the game.  They agree in every state of the game: each
place that the script offers is tested by one entry of the table, which leads to the outlet of that
choice (`script_agrees_with_table`).
-/

namespace Dialogue

open Scripting

/-- An entry of the table that follows the window of a menu: a test, and where the dialogue goes on
if it holds. -/
structure TableEntry where
  test : String
  target : Option String

/-- The tasks of an entry. -/
def TableEntry.tasks (indent : UInt32) (e : TableEntry) : List Task :=
  .emit (.conditionalBranch indent e.test) :: blockBody e.target indent ++
    [.emit (.conditionalEnd indent)]

/-- Whether the test of an entry holds in a game whose variables have some values. -/
def TableEntry.holds (value : Nat → Int) (e : TableEntry) : Bool :=
  (tokens? (spell e.test)).bind (test? value) == some true

/-- The table of a menu. -/
def Document.table (d : Document) (id : String) (m : Menu) : List TableEntry :=
  m.routes.map fun route => ⟨(selectionCondition route.1).expression, d.targetAt? id route.2⟩

/-- The test for a selection holds if the variable has that value. -/
lemma TableEntry.holds_selection (value : Nat → Int) (v : Int64) (target : Option String) :
    TableEntry.holds value ⟨(selectionCondition v).expression, target⟩ =
      decide (value choiceVariable.toNat = v.toInt) := by
  have htest : scan .between (spell "$gameVariables.value(99) == ") =
      some ([.word "$gameVariables", .mark '.', .word "value", .mark '(', .number 99, .mark ')',
        .operator "=="], .between) := rfl
  have hexpression : (selectionCondition v).expression =
      "$gameVariables.value(99) == " ++ toString v.toInt := rfl
  have hsplit : spell (selectionCondition v).expression =
      spell "$gameVariables.value(99) == " ++ spell (toString v.toInt) := by
    rw [hexpression, spell, String.toList_append, List.map_append]
    rfl
  have hsome : ∀ b : Bool, (some b == some true) = b := by decide
  rw [TableEntry.holds, hsplit]
  cases v.toInt with
  | ofNat n =>
    have htokens := tokens?_of_scan (scan_append htest (scan_number n)) rfl
    rw [wordToken_toDigits] at htokens
    change ((tokens? (_ ++ spell (toString n))).bind _ == _) = _
    rw [htokens]
    exact hsome _
  | negSucc n =>
    have hminus : scan .between (spell "-" ++ spell (toString (n + 1))) =
        some ([.mark '-'] ++ [], .word (Nat.toDigits 10 (n + 1)).reverse) :=
      scan_append rfl (scan_number (n + 1))
    have hspell : spell (toString (Int.negSucc n)) = spell "-" ++ spell (toString (n + 1)) := by
      rw [spell, spell, spell, ← List.map_append, ← String.toList_append]
      rfl
    have htokens := tokens?_of_scan (scan_append htest hminus) rfl
    rw [wordToken_toDigits] at htokens
    rw [hspell, htokens, Int.negSucc_eq]
    exact hsome _

lemma filter_eq_singleton {α β : Type} [DecidableEq β] {f : α → β} {l : List α}
    (h : (l.map f).Nodup) {x : α} (hx : x ∈ l) : l.filter (fun y => f x = f y) = [x] := by
  induction l with
  | nil => cases hx
  | cons y l ih =>
    obtain ⟨hy, hl⟩ := List.nodup_cons.1 h
    rcases List.mem_cons.1 hx with rfl | hx
    · have hnone : l.filter (fun y => f x = f y) = [] := by
        refine List.filter_eq_nil_iff.2 fun y hy' heq => hy ?_
        rw [of_decide_eq_true heq]
        exact List.mem_map_of_mem hy'
      rw [List.filter_cons_of_pos (by simp), hnone]
    · have hne : f x ≠ f y := fun heq => hy (heq ▸ List.mem_map_of_mem hx)
      rw [List.filter_cons_of_neg (by simpa using hne)]
      exact ih hl hx

namespace Document

variable {d : Document} {id : String} {m : Menu} {value : Nat → Int}

/-- A menu whose choices depend on the state of the game is its prompt, its script, its window and
its table. -/
lemma menuPlan_eq_table (options : Options) (indent : UInt32) (hm : m.isDynamic) :
    (Index.ofDocument d).menuPlan options id m indent =
      (m.promptCommands indent ++ Command.script indent (m.script options.disabledMark) ++
          [m.emptyWindow indent]).map .emit ++
        (d.table id m).flatMap (TableEntry.tasks indent) := by
  rw [menuPlan_eq, if_pos hm, dynamicMenuPlan_eq]
  simp [Layout.tasks, dynamicMenuLayout, table, List.flatMap_map, selectionSlot, tasks_block,
    TableEntry.tasks]

lemma map_target_filter_table (value : Nat → Int) :
    ((d.table id m).filter (TableEntry.holds value)).map TableEntry.target =
      (m.routes.filter fun route => value choiceVariable.toNat = route.1.toInt).map fun route =>
        d.targetAt? id route.2 := by
  rw [table, List.filter_map, List.map_map]
  simp only [Function.comp_def, TableEntry.holds_selection]

/-- If the variable has the value of a route, the table has one entry whose test holds, and it leads
where the route leads. -/
lemma filter_table_of_mem_routes (hfit : m.choices.length < 2 ^ 63) {route : Int64 × String}
    (hroute : route ∈ m.routes) (hvalue : value choiceVariable.toNat = route.1.toInt) :
    ((d.table id m).filter (TableEntry.holds value)).map TableEntry.target =
      [d.targetAt? id route.2] := by
  have hvalues : (m.routes.map fun r => r.1.toInt).Nodup := by
    have hmap := (Menu.nodup_values hfit).map fun _ _ => Int64.toInt_inj.1
    rwa [List.map_map] at hmap
  rw [map_target_filter_table, hvalue, filter_eq_singleton hvalues hroute, List.map_singleton]

/-- No test holds for a cancelled window, if cancelling is no branch. -/
lemma filter_table_of_cancelled (hfit : m.choices.length < 2 ^ 63) (hcancel : m.cancel ≠ .branch)
    (hvalue : value choiceVariable.toNat = -1) :
    ((d.table id m).filter (TableEntry.holds value)).map TableEntry.target = [] := by
  have hroutes : ∀ route ∈ m.routes, ¬value choiceVariable.toNat = route.1.toInt := by
    intro route hroute
    have hchoice : ∃ i < m.choices.length, (Int64.ofNat i, choiceHandle i) = route := by
      unfold Menu.routes at hroute
      split at hroute
      · contradiction
      all_goals simpa using hroute
    obtain ⟨i, hi, rfl⟩ := hchoice
    have hplace : (Int64.ofNat i).toInt = i := Int64.toInt_ofNat_of_lt (by omega)
    rw [hvalue, hplace]
    omega
  rw [map_target_filter_table, List.map_eq_nil_iff, List.filter_eq_nil_iff]
  simpa using hroutes

/-- The script and the table of a menu agree.  In every state of the game the script offers the
choices that are shown, marked where they are disabled, and notes their places; and for each of
these places the table has one entry whose test holds, which leads to the outlet of that choice.  If
the window is cancelled there is one entry for that, or none if cancelling is no branch. -/
theorem script_agrees_with_table (d : Document) (options : Options) (id : String) (m : Menu)
    (indent : UInt32) (hdynamic : m.isDynamic) (hfit : m.choices.length < 2 ^ 63) :
    (m.offerLines options.disabledMark).map (fun line => String.join (line.map Piece.text)) =
        ((m.scriptLines options.disabledMark).drop 2).take m.choices.length ∧
      (Index.ofDocument d).menuPlan options id m indent =
        (m.promptCommands indent ++ Command.script indent (m.script options.disabledMark) ++
            [m.emptyWindow indent]).map .emit ++
          (d.table id m).flatMap (TableEntry.tasks indent) ∧
      (∀ holds : String → Bool,
        runLines holds (m.offerLines options.disabledMark) =
            some (m.offered holds options.disabledMark) ∧
          (m.offered holds options.disabledMark).map.Pairwise (· < ·) ∧
          ∀ (k i : Nat) (value : Nat → Int),
            (m.offered holds options.disabledMark).map[k]? = some i →
            value choiceVariable.toNat = i →
            ((d.table id m).filter (TableEntry.holds value)).map TableEntry.target =
              [d.targetAt? id (choiceHandle i)]) ∧
      ∀ value : Nat → Int, value choiceVariable.toNat = -1 →
        ((d.table id m).filter (TableEntry.holds value)).map TableEntry.target =
          if m.cancel = .branch then [d.targetAt? id cancelHandle] else [] := by
  refine ⟨m.map_offerLines _, menuPlan_eq_table options indent hdynamic, fun holds => ?_, ?_⟩
  · refine ⟨m.runLines_offerLines holds _, m.pairwise_offered holds _, ?_⟩
    intro k i value hi hvalue
    have hlt : i < m.choices.length :=
      m.lt_of_mem_offered holds _ (List.mem_of_getElem? hi)
    have hplace : (Int64.ofNat i).toInt = i := Int64.toInt_ofNat_of_lt (by omega)
    have hroute := List.mem_of_getElem? (Menu.getElem?_routes_choice hlt)
    exact filter_table_of_mem_routes hfit hroute (hvalue.trans hplace.symm)
  · intro value hvalue
    split
    · next hcancel =>
      have hroute := List.mem_of_getElem? (Menu.getElem?_routes_cancel hcancel)
      exact filter_table_of_mem_routes hfit hroute hvalue
    · next hcancel => exact filter_table_of_cancelled hfit hcancel hvalue

/-- A menu with a choice that can be hidden and one that can be disabled. -/
def tavernMenu : Menu where
  choices := [{ id := "a", text := "Ask", hide := some (.switch 1 true) },
    { id := "b", text := "Say \"hi\"", disable := some (.switch 1 true) },
    { id := "c", text := "Leave" }]
  cancel := .branch

/-- A dialogue with this menu. -/
def tavern : Document where
  nodes := [{ id := "start", kind := .start }, { id := "bar", kind := .menu tavernMenu },
    { id := "talk", kind := .action [.commonEvent 7] }]
  edges := [{ id := "e0", source := "start", target := "bar" },
    { id := "e1", source := "bar", target := "bar", handle := some "choice-0" },
    { id := "e2", source := "bar", target := "talk", handle := some "choice-1" },
    { id := "e3", source := "bar", target := "bar", handle := some "cancel" }]

theorem script_agrees_with_table_tavern :
    tavernMenu.isDynamic ∧ tavernMenu.choices.length < 2 ^ 63 ∧
      runLines (· = "$gameSwitches.value(1) === true") (tavernMenu.offerLines "* ") =
        some ⟨["* Say \"hi\"", "Leave"], [1, 2]⟩ ∧
      (∀ value : Nat → Int, value 99 = 1 →
        ((tavern.table "bar" tavernMenu).filter (TableEntry.holds value)).map TableEntry.target =
          [some "talk"]) ∧
      ∀ value : Nat → Int, value 99 = -1 →
        ((tavern.table "bar" tavernMenu).filter (TableEntry.holds value)).map TableEntry.target =
          [some "bar"] := by
  have hdynamic : tavernMenu.isDynamic := rfl
  have hfit : tavernMenu.choices.length < 2 ^ 63 := by decide
  obtain ⟨-, -, hscript, hcancel⟩ :=
    script_agrees_with_table tavern ⟨"* "⟩ "bar" tavernMenu 0 hdynamic hfit
  obtain ⟨hrun, -, htable⟩ := hscript (· = "$gameSwitches.value(1) === true")
  refine ⟨hdynamic, hfit, hrun.trans ?_, fun value hvalue => ?_, fun value hvalue => ?_⟩
  · decide
  · exact (htable 0 1 value (by decide) hvalue).trans (by decide)
  · exact (hcancel value hvalue).trans (by decide)

end Document

end Dialogue
