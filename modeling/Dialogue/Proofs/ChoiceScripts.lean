import Dialogue.Proofs.LineBreaks
import Dialogue.Proofs.ScriptLanguage
/-!
The script of a menu.

A menu whose choices depend on the state of the game is filled by a script, which has one line for
each choice.  Running these lines offers the choices that are shown and notes their places
(`runLines_offerLines`).

The texts of the choices are whatever the author wrote.  They stand in the script as literals, which
they cannot leave, so the script has the same lines whatever they are (`literals_stay_closed`).
-/

namespace Dialogue

open Scripting

/-! ## The parts of a line -/

/-- A part of a line of a script. -/
inductive Piece
  /-- Something that is the same for all authors. -/
  | code (s : String)
  /-- A text as a literal. -/
  | literal (s : String)
  /-- A condition. -/
  | condition (c : Condition)

/-- A part of a line as it is written. -/
def Piece.text : Piece → String
  | code s => s
  | literal s => Dialogue.literal s
  | condition c => c.expression

/-- A part of a line as it is read. -/
def Piece.symbols : Piece → List Symbol
  | code s => spell s
  | literal s => spell (Dialogue.literal s)
  | condition c => [.condition c.expression]

namespace Choice

variable (disabledMark : String) (index : Nat) (c : Choice)

/-- The text of a choice, with the mark if it is disabled. -/
def labelPieces : List Piece :=
  match c.disable with
  | some condition =>
    [.code "(", .condition condition, .code ") ? ", .literal (disabledMark ++ c.text), .code " : ",
      .literal c.text]
  | none => [.literal c.text]

/-- The parts of what is done to offer the choice at `index`. -/
def pushPieces : List Piece :=
  .code "choices.push(" :: c.labelPieces disabledMark ++
    [.code "); map.push(", .code (toString index ++ ");")]

/-- The parts of the line that offers the choice at `index`. -/
def pieces : List Piece :=
  match c.hide with
  | some condition =>
    [.code "if (!(", .condition condition, .code ")) \x7b "] ++ c.pushPieces disabledMark index ++
      [.code " \x7d"]
  | none => c.pushPieces disabledMark index

/-- The line that offers a choice is made of these parts. -/
lemma join_pieces :
    String.join ((c.pieces disabledMark index).map Piece.text) = c.offer disabledMark index := by
  rw [← String.toList_inj, String.toList_join, pieces, offer]
  cases c.hide <;> cases hdisable : c.disable <;>
    simp [pushPieces, labelPieces, hdisable, Piece.text]

end Choice

/-! ## What the script does -/

namespace Scripting

/-- Runs a line of a script. -/
def runLine (holds : String → Bool) (line : List Piece) (a : Arrays) : Option Arrays :=
  (tokens? (line.flatMap Piece.symbols)).bind fun ts => run holds ts [] a

/-- Runs the lines of a script, one after the other. -/
def runLines (holds : String → Bool) (lines : List (List Piece)) : Option Arrays :=
  lines.foldlM (fun a line => runLine holds line a) {}

end Scripting

namespace Choice

variable (holds : String → Bool) (disabledMark : String) (index : Nat) (c : Choice)

/-- Whether a choice is shown. -/
def isShown : Bool :=
  !c.hide.any fun condition => holds condition.expression

/-- What the player reads. -/
def label : String :=
  if c.disable.any fun condition => holds condition.expression then disabledMark ++ c.text
  else c.text

lemma scan_place : scan .between (spell (toString index ++ ");")) =
    some ([.number index, .mark ')', .mark ';'], .between) := by
  have hclose : scan (.word (Nat.toDigits 10 index).reverse) (spell ");") =
      some ([.number index, .mark ')', .mark ';'], .between) := by
    rw [← wordToken_toDigits index]
    rfl
  rw [spell, String.toList_append, List.map_append]
  exact scan_append (scan_number index) hclose

/-- What is done to offer a choice, as it is read. -/
lemma exists_tokens_pushPieces : ∃ ts,
    scan .between ((c.pushPieces disabledMark index).flatMap Piece.symbols) =
        some (ts, .between) ∧
      ∀ rest entered a, run holds (ts ++ rest) entered a = run holds rest entered
        ((a.pushChoice entered (c.label holds disabledMark)).pushPlace entered index) := by
  have hopen : scan .between (spell "choices.push(") =
      some ([.word "choices", .mark '.', .word "push", .mark '('], .between) := rfl
  have hplace : scan .between (spell "); map.push(") =
      some ([.mark ')', .mark ';', .word "map", .mark '.', .word "push", .mark '('], .between) :=
    rfl
  have hclose := scan_append hplace (scan_place index)
  cases hdisable : c.disable with
  | none =>
    have hlabel : c.label holds disabledMark = c.text := by simp [label, hdisable]
    have hpieces : (c.pushPieces disabledMark index).flatMap Piece.symbols =
        spell "choices.push(" ++ (spell (literal c.text) ++
          (spell "); map.push(" ++ spell (toString index ++ ");"))) := by
      simp [pushPieces, labelPieces, hdisable, Piece.symbols]
    rw [hpieces, hlabel]
    exact ⟨_, scan_append hopen (scan_append (scan_literal c.text) hclose), fun _ _ _ => rfl⟩
  | some condition =>
    have hlabel : c.label holds disabledMark =
        if holds condition.expression then disabledMark ++ c.text else c.text := by
      simp [label, hdisable]
    have htest : scan .between (spell "(" ++ .condition condition.expression :: spell ") ? ") =
        some ([.mark '(', .condition condition.expression, .mark ')', .mark '?'], .between) := rfl
    have hcolon : scan .between (spell " : ") = some ([.mark ':'], .between) := rfl
    have hpieces : (c.pushPieces disabledMark index).flatMap Piece.symbols =
        spell "choices.push(" ++ ((spell "(" ++ .condition condition.expression :: spell ") ? ") ++
          (spell (literal (disabledMark ++ c.text)) ++ (spell " : " ++ (spell (literal c.text) ++
          (spell "); map.push(" ++ spell (toString index ++ ");")))))) := by
      simp [pushPieces, labelPieces, hdisable, Piece.symbols]
    rw [hpieces, hlabel]
    exact ⟨_, scan_append hopen <| scan_append htest <| scan_append (scan_literal _) <|
      scan_append hcolon <| scan_append (scan_literal c.text) hclose, fun _ _ _ => rfl⟩

/-- Running the line of a choice appends the choice and its place, if it is shown. -/
lemma runLine_pieces (a : Arrays) : runLine holds (c.pieces disabledMark index) a =
    some (if c.isShown holds then
      ⟨a.choices ++ [c.label holds disabledMark], a.map ++ [index]⟩ else a) := by
  obtain ⟨ts, hscan, hrun⟩ := c.exists_tokens_pushPieces holds disabledMark index
  rw [runLine]
  cases hhide : c.hide with
  | none =>
    have htokens : tokens? ((c.pieces disabledMark index).flatMap Piece.symbols) =
        some (ts ++ []) := by
      rw [pieces, hhide]
      exact tokens?_of_scan hscan rfl
    rw [htokens, Option.bind_some, hrun, run_nil]
    simp [isShown, hhide, Arrays.pushChoice, Arrays.pushPlace]
  | some condition =>
    have hopen : scan .between (spell "if (!(" ++
        .condition condition.expression :: spell ")) \x7b ") =
        some ([.word "if", .mark '(', .operator "!", .mark '(', .condition condition.expression,
          .mark ')', .mark ')', .mark '{'], .between) := rfl
    have hclose : scan .between (spell " \x7d") = some ([.mark '}'], .between) := rfl
    have hpieces : (c.pieces disabledMark index).flatMap Piece.symbols =
        (spell "if (!(" ++ .condition condition.expression :: spell ")) \x7b ") ++
          ((c.pushPieces disabledMark index).flatMap Piece.symbols ++ spell " \x7d") := by
      simp [pieces, hhide, Piece.symbols]
    have htokens := tokens?_of_scan (scan_append hopen (scan_append hscan hclose)) rfl
    rw [hpieces, htokens, Option.bind_some, List.append_nil]
    refine Eq.trans (hrun [.mark '}'] [!holds condition.expression] a) ?_
    rw [run_close, run_nil]
    cases hholds : holds condition.expression <;>
      simp [isShown, hhide, hholds, Arrays.pushChoice, Arrays.pushPlace]

end Choice

namespace Menu

variable (holds : String → Bool) (disabledMark : String) (m : Menu)

/-- The parts of the lines that offer the choices of a menu. -/
def offerLines : List (List Piece) :=
  m.choices.mapIdx (Choice.pieces disabledMark)

/-- The choices that are shown, with their places. -/
def shown : List (Choice × Nat) :=
  m.choices.zipIdx.filter fun p => p.1.isShown holds

/-- What the player can read, and the places of these choices. -/
def offered : Arrays where
  choices := (m.shown holds).map fun p => p.1.label holds disabledMark
  map := (m.shown holds).map Prod.snd

/-- These are the lines of the script behind its first two. -/
lemma map_offerLines :
    (m.offerLines disabledMark).map (fun line => String.join (line.map Piece.text)) =
      ((m.scriptLines disabledMark).drop 2).take m.choices.length := by
  have hlines : ((m.scriptLines disabledMark).drop 2).take m.choices.length =
      m.choices.mapIdx (Choice.offer disabledMark) := by
    simp [scriptLines]
  rw [hlines, offerLines, List.mapIdx_eq_zipIdx_map, List.mapIdx_eq_zipIdx_map, List.map_map]
  refine List.map_congr_left fun p _ => ?_
  exact p.1.join_pieces disabledMark p.2

/-- Running the lines offers the choices that are shown, in order. -/
theorem runLines_offerLines :
    runLines holds (m.offerLines disabledMark) = some (m.offered holds disabledMark) := by
  have hstep : ∀ (choices : List Choice) (k : Nat) (a : Arrays),
      ((choices.zipIdx k).map fun p => p.1.pieces disabledMark p.2).foldlM
          (fun a line => runLine holds line a) a =
        some ⟨a.choices ++ ((choices.zipIdx k).filter fun p => p.1.isShown holds).map
            fun p => p.1.label holds disabledMark,
          a.map ++ ((choices.zipIdx k).filter fun p => p.1.isShown holds).map Prod.snd⟩ := by
    intro choices
    induction choices with
    | nil => simp
    | cons c choices ih =>
      intro k a
      rw [List.zipIdx_cons, List.map_cons, List.foldlM_cons, c.runLine_pieces, Option.bind_eq_bind,
        Option.bind_some, ih]
      cases hshown : c.isShown holds <;> simp [hshown]
  rw [runLines, offerLines, List.mapIdx_eq_zipIdx_map, hstep]
  rfl

/-- The places of the choices that are shown increase. -/
lemma pairwise_offered : (m.offered holds disabledMark).map.Pairwise (· < ·) := by
  have hplaces : (m.choices.zipIdx.map Prod.snd).Pairwise (· < ·) := by
    rw [List.zipIdx_map_snd, ← List.range_eq_range']
    exact List.pairwise_lt_range
  exact hplaces.sublist (List.filter_sublist.map Prod.snd)

lemma lt_of_mem_offered {i : Nat} (h : i ∈ (m.offered holds disabledMark).map) :
    i < m.choices.length := by
  obtain ⟨p, hp, rfl⟩ := List.mem_map.1 h
  exact List.snd_lt_of_mem_zipIdx (List.mem_of_mem_filter hp)

end Menu

/-! ## The lines of the script -/

/-- The conditions of a choice. -/
def Choice.conditions (c : Choice) : List Condition :=
  c.hide.toList ++ c.disable.toList

lemma feed_not_mem_literal (s : String) : '\n' ∉ (literal s).toList :=
  fun h => absurd (le_toNat_of_mem_literal h) (by decide)

/-- A line that ends as lines of a script do. -/
lemma Text.isLine_append {front back : String} (hfront : '\n' ∉ front.toList)
    (hback : Text.IsLine back.toList) : Text.IsLine (front ++ back).toList := by
  rw [String.toList_append]
  exact (hback.endsInLine.append _).isLine (List.not_mem_append hfront hback.feed_not_mem)

namespace Choice

variable {disabledMark : String} {c : Choice}

/-- What is written for a choice holds no line feed but those of its conditions. -/
lemma feed_not_mem_pieces (hfeed : ∀ e ∈ c.conditions, '\n' ∉ e.expression.toList) (index : Nat) :
    ∀ p ∈ c.pieces disabledMark index, '\n' ∉ p.text.toList := by
  have hlabel : ∀ p ∈ c.labelPieces disabledMark, '\n' ∉ p.text.toList := by
    rw [labelPieces]
    cases hdisable : c.disable with
    | none => simp [Piece.text, feed_not_mem_literal]
    | some e =>
      have he : '\n' ∉ e.expression.toList := hfeed e (by simp [conditions, hdisable])
      simp [Piece.text, feed_not_mem_literal, he]
  have hplace : '\n' ∉ (toString index ++ ");").toList := by
    rw [String.toList_append, List.mem_append, not_or]
    exact ⟨feed_not_mem_toString index, by decide⟩
  have hpush : ∀ p ∈ c.pushPieces disabledMark index, '\n' ∉ p.text.toList := by
    intro p hp
    simp only [pushPieces, List.mem_append, List.mem_cons, List.not_mem_nil, or_false] at hp
    rcases hp with (rfl | hp) | rfl | rfl
    · decide
    · exact hlabel p hp
    · decide
    · exact hplace
  intro p hp
  rw [pieces] at hp
  cases hhide : c.hide with
  | none =>
    rw [hhide] at hp
    exact hpush p hp
  | some e =>
    rw [hhide] at hp
    simp only [List.mem_append, List.mem_cons, List.not_mem_nil, or_false] at hp
    rcases hp with ((rfl | rfl | rfl) | hp) | rfl
    · decide
    · exact hfeed e (by simp [conditions, hhide])
    · decide
    · exact hpush p hp
    · decide

/-- The literals in the line of a choice. -/
lemma literal_mem_pieces {index : Nat} {s : String} :
    .literal s ∈ c.pieces disabledMark index ↔
      s = c.text ∨ c.disable.isSome ∧ s = disabledMark ++ c.text := by
  rw [pieces]
  cases c.hide <;> cases hdisable : c.disable <;>
    simp [pushPieces, labelPieces, hdisable, or_comm]

/-- The line that offers a choice is one line. -/
lemma isLine_offer (hfeed : ∀ e ∈ c.conditions, '\n' ∉ e.expression.toList) (index : Nat) :
    Text.IsLine (c.offer disabledMark index).toList := by
  have hoffer : '\n' ∉ (c.offer disabledMark index).toList := by
    rw [← join_pieces, String.toList_join, List.flatMap_map, List.mem_flatMap]
    rintro ⟨p, hp, hfeed'⟩
    exact feed_not_mem_pieces hfeed index p hp hfeed'
  have hlast : ∃ front back : String, c.offer disabledMark index = front ++ back ∧
      Text.IsLine back.toList := by
    rw [offer]
    cases c.hide with
    | none => exact ⟨_, ");", rfl, by decide, by decide, by decide⟩
    | some e => exact ⟨_, " \x7d", rfl, by decide, by decide, by decide⟩
  obtain ⟨front, back, heq, hback⟩ := hlast
  rw [heq] at hoffer ⊢
  refine Text.isLine_append (fun hfront => hoffer ?_) hback
  rw [String.toList_append]
  exact List.mem_append_left _ hfront

end Choice

namespace Menu

variable {disabledMark : String} {m : Menu}

/-- The lines of the script of a menu are lines, whatever the texts of its choices are. -/
lemma isLine_scriptLines
    (hfeed : ∀ c ∈ m.choices, ∀ e ∈ c.conditions, '\n' ∉ e.expression.toList) :
    ∀ line ∈ m.scriptLines disabledMark, Text.IsLine line.toList := by
  have hend : Text.IsLine ");".toList := ⟨by decide, by decide, by decide⟩
  have hcancel : '\n' ∉ m.cancel.expression.toList := by
    cases m.cancel <;> decide
  intro line hline
  simp only [scriptLines, List.mem_append, List.mem_cons, List.not_mem_nil, or_false] at hline
  rcases hline with ((rfl | rfl) | hline) | rfl | rfl | rfl | rfl
  · exact ⟨by decide, by decide, by decide⟩
  · exact ⟨by decide, by decide, by decide⟩
  · obtain ⟨i, hi, rfl⟩ := List.mem_mapIdx.1 hline
    exact Choice.isLine_offer (hfeed _ (List.getElem_mem hi)) i
  · refine Text.isLine_append ?_ hend
    simp [hcancel]
  · refine Text.isLine_append ?_ hend
    simpa using feed_not_mem_toString_int m.position.toInt
  · refine Text.isLine_append ?_ hend
    simpa using feed_not_mem_toString_int m.background.toInt
  · exact ⟨by decide, by decide, by decide⟩

/-- The texts of the choices cannot break out of the script.  They stand in the line of their choice
as literals, which hold no control character and no bare quote and are read as the texts.  So if no
condition holds a line feed, the script has six lines beside those of the choices, and the line of
each choice stands at its place behind the first two. -/
theorem literals_stay_closed (m : Menu) (disabledMark : String) (indent : UInt32) :
    (∀ (i : Nat) (c : Choice), m.choices[i]? = some c →
      String.join ((c.pieces disabledMark i).map Piece.text) = c.offer disabledMark i ∧
        ∀ s, (.literal s ∈ c.pieces disabledMark i ↔
            s = c.text ∨ c.disable.isSome ∧ s = disabledMark ++ c.text) ∧
          Quotes (literal s) s) ∧
      ((∀ c ∈ m.choices, ∀ e ∈ c.conditions, '\n' ∉ e.expression.toList) →
        ∃ first rest,
          Command.script indent (m.script disabledMark) =
              ⟨.script, indent, [.str first]⟩ ::
                rest.map (fun line => ⟨.scriptLine, indent, [.str line]⟩) ∧
            rest.length = m.choices.length + 5 ∧
            ∀ (i : Nat) (c : Choice), m.choices[i]? = some c →
              (first :: rest)[2 + i]? = some (c.offer disabledMark i)) := by
  constructor
  · intro i c _
    exact ⟨c.join_pieces disabledMark i, fun s => ⟨c.literal_mem_pieces, quotes_literal s⟩⟩
  · intro hfeed
    have hlines : Text.lines (m.script disabledMark) = m.scriptLines disabledMark :=
      Text.lines_intercalate (isLine_scriptLines hfeed)
    have hplace : ∀ (i : Nat) (c : Choice), m.choices[i]? = some c →
        (m.scriptLines disabledMark)[2 + i]? = some (c.offer disabledMark i) := by
      intro i c hc
      obtain ⟨hi, rfl⟩ := List.getElem?_eq_some_iff.1 hc
      simp [scriptLines, Nat.add_comm 2, List.getElem?_append, hi]
    refine ⟨"const choices = [];", (m.scriptLines disabledMark).tail, ?_, ?_, hplace⟩
    · rw [Command.script, hlines]
      rfl
    · simp [scriptLines]

/-- A menu whose texts would end their literals and their lines, if they were not escaped. -/
def riddle : Menu where
  choices := [{ id := "a", text := "\"); map.push(1);", hide := some (.switch 3 true) },
    { id := "b", text := "\\\r\n\"", disable := some (.compare 5 .less 10) },
    { id := "c", text := "\x7f\n\n\x1b" }]

theorem literals_of_riddle_stay_closed :
    (∀ c ∈ riddle.choices, ∀ e ∈ c.conditions, '\n' ∉ e.expression.toList) ∧
      Quotes (literal "\n\\\r\n\"") "\n\\\r\n\"" ∧
      ∃ (first : String) (rest : List String),
        Command.script 4 (riddle.script "\n") =
            ⟨.script, 4, [.str first]⟩ :: rest.map (fun line => ⟨.scriptLine, 4, [.str line]⟩) ∧
          rest.length = 8 ∧
          rest[2]? = some ("choices.push(($gameVariables.value(5) < 10) ? " ++
            "\"\\n\\\\\\r\\n\\\"\" : \"\\\\\\r\\n\\\"\"); map.push(1);") := by
  have hfeed : ∀ c ∈ riddle.choices, ∀ e ∈ c.conditions, '\n' ∉ e.expression.toList := by decide
  obtain ⟨hliterals, hlines⟩ := literals_stay_closed riddle "\n" 4
  obtain ⟨first, rest, hscript, hlength, hplace⟩ := hlines hfeed
  refine ⟨hfeed, ((hliterals 1 _ rfl).2 _).2, first, rest, hscript, hlength, ?_⟩
  exact (hplace 1 _ rfl).trans rfl

end Menu

end Dialogue
