import Mathlib.Data.List.Basic
import Mathlib.Tactic.Common
import Dialogue.Compile.Lowering
/-!
Texts with several lines.

A text is broken up at its line feeds.  Nothing is lost by that: put together again, with a line
feed between any two of them, the lines give the text, but for the two freedoms that the end of a
line has (`Text.Breaks`).  A carriage return right before a line feed belongs to the end of the
line, and a line feed at the very end of the text ends its last line and does not begin another one.

Scripts and messages each become one command for each line, and one command at least
(`commands_break_lines`).  Conversely, lines that were put together are found again if none of them
holds a line feed, ends in a carriage return or is empty (`Text.lines_intercalate`).  More generally
a line feed ends just the last line of the text before it, if that text ends in the middle of a line
(`Text.EndsInLine`).
-/

namespace Dialogue

namespace Text

/-! ## Lines put together -/

/-- A text in which every carriage return right before a line feed is left out. -/
def plainFeeds : List Char → List Char
  | [] => []
  | '\r' :: '\n' :: rest => '\n' :: plainFeeds rest
  | c :: rest => c :: plainFeeds rest

/-- A text without the line feed at its end, if there is one. -/
def dropLastFeed (cs : List Char) : List Char :=
  if cs.getLast? = some '\n' then cs.dropLast else cs

/-- What a text is broken up into: one line or more without line feeds, which give the text again if
they are put together. -/
structure Breaks (text : String) (lines : List String) : Prop where
  /-- There is a line. -/
  ne_nil : lines ≠ []
  /-- No line holds a line feed. -/
  feed_not_mem : ∀ line ∈ lines, '\n' ∉ line.toList
  /-- With line feeds between them, the lines are the text. -/
  intercalate_eq : "\n".intercalate lines = String.ofList (dropLastFeed (plainFeeds text.toList))

lemma plainFeeds_cons {c : Char} {rest : List Char}
    (h : ∀ more, c = '\r' → rest = '\n' :: more → False) :
    plainFeeds (c :: rest) = c :: plainFeeds rest := by
  rw [plainFeeds]
  exact h

lemma dropLastFeed_cons (c : Char) {cs : List Char} (h : cs ≠ []) :
    dropLastFeed (c :: cs) = c :: dropLastFeed cs := by
  rw [dropLastFeed, dropLastFeed, List.getLast?_cons_of_ne_nil h, List.dropLast_cons_of_ne_nil h]
  split <;> rfl

lemma plainFeeds_eq_nil {cs : List Char} : plainFeeds cs = [] ↔ cs = [] := by
  fun_cases plainFeeds cs <;> simp

lemma lineChars_eq_nil {cs : List Char} : lineChars cs = [] ↔ cs = [] := by
  fun_cases lineChars cs <;> simp

lemma feed_not_mem_lineChars {cs line : List Char} (h : line ∈ lineChars cs) : '\n' ∉ line := by
  fun_induction lineChars cs generalizing line with
  | case1 => cases h
  | case2 rest ih | case3 rest ih =>
    rcases List.mem_cons.1 h with rfl | h
    · exact List.not_mem_nil
    · exact ih h
  | case4 c rest hc _ hnil ih =>
    obtain rfl := List.mem_singleton.1 h
    simpa using Ne.symm hc
  | case5 c rest hc _ first more hcons ih =>
    rw [hcons] at ih
    rcases List.mem_cons.1 h with rfl | h
    · have hfirst := ih List.mem_cons_self
      simpa [Ne.symm hc] using hfirst
    · exact ih (List.mem_cons_of_mem _ h)

/-- An end of a line in front of a text. -/
lemma intercalate_nil_cons {rest : List Char}
    (h : ['\n'].intercalate (lineChars rest) = dropLastFeed (plainFeeds rest)) :
    ['\n'].intercalate ([] :: lineChars rest) = dropLastFeed ('\n' :: plainFeeds rest) := by
  cases hlines : lineChars rest with
  | nil =>
    obtain rfl := lineChars_eq_nil.1 hlines
    rfl
  | cons line lines =>
    have hne : plainFeeds rest ≠ [] := by
      intro hnil
      rw [plainFeeds_eq_nil.1 hnil] at hlines
      cases hlines
    rw [dropLastFeed_cons _ hne, ← h, hlines]
    simp

/-- The lines of a text, put together. -/
theorem intercalate_lineChars (cs : List Char) :
    ['\n'].intercalate (lineChars cs) = dropLastFeed (plainFeeds cs) := by
  fun_induction lineChars cs with
  | case1 => rfl
  | case2 rest ih => exact intercalate_nil_cons ih
  | case3 rest ih => exact intercalate_nil_cons ih
  | case4 c rest hc hreturn hnil ih =>
    obtain rfl := lineChars_eq_nil.1 hnil
    simpa [plainFeeds_cons hreturn, plainFeeds, dropLastFeed] using hc
  | case5 c rest hc hreturn line more hcons ih =>
    have hne : plainFeeds rest ≠ [] := by
      intro hnil
      rw [plainFeeds_eq_nil.1 hnil] at hcons
      cases hcons
    rw [plainFeeds_cons hreturn, dropLastFeed_cons c hne, ← ih, hcons]
    cases more <;> simp

lemma breaks_lines {text : String} (h : lines text ≠ []) : Breaks text (lines text) where
  ne_nil := h
  feed_not_mem line hline := by
    obtain ⟨cs, hcs, rfl⟩ := List.mem_map.1 hline
    rw [String.toList_ofList]
    exact feed_not_mem_lineChars hcs
  intercalate_eq := by
    rw [← intercalate_lineChars, ← String.toList_inj, String.toList_ofList,
      String.toList_intercalate, lines, List.map_map]
    simp [Function.comp_def]

/-- A text without a line is broken up into the empty line. -/
lemma breaks_of_lines_eq_nil {text : String} (h : lines text = []) : Breaks text [""] where
  ne_nil := List.cons_ne_nil _ _
  feed_not_mem := by simp
  intercalate_eq := by
    have hnil : text.toList = [] := lineChars_eq_nil.1 (List.map_eq_nil_iff.1 h)
    rw [hnil]
    rfl

/-! ## Lines found again -/

lemma lineChars_cons {c : Char} {cs line : List Char} {more : List (List Char)} (hfeed : c ≠ '\n')
    (hreturn : ∀ rest, c = '\r' → cs = '\n' :: rest → False) (h : lineChars cs = line :: more) :
    lineChars (c :: cs) = (c :: line) :: more := by
  rw [lineChars, h]
  · exact hfeed
  · exact hreturn

/-- The end of the text is in the middle of a line: a line feed that follows ends just that line. -/
structure EndsInLine (cs : List Char) : Prop where
  ne_nil : cs ≠ []
  feed : cs.getLast? ≠ some '\n'
  /-- A carriage return at the end would belong to the line feed that follows. -/
  carriageReturn : cs.getLast? ≠ some '\r'

instance (cs : List Char) : Decidable (EndsInLine cs) :=
  decidable_of_iff (cs ≠ [] ∧ cs.getLast? ≠ some '\n' ∧ cs.getLast? ≠ some '\r')
    ⟨fun h => ⟨h.1, h.2.1, h.2.2⟩, fun h => ⟨h.ne_nil, h.feed, h.carriageReturn⟩⟩

lemma EndsInLine.append (cs : List Char) {cs' : List Char} (h : EndsInLine cs') :
    EndsInLine (cs ++ cs') := by
  have hlast : (cs ++ cs').getLast? = cs'.getLast? := List.getLast?_append_of_ne_nil _ h.ne_nil
  exact ⟨List.append_ne_nil_of_right_ne_nil _ h.ne_nil, hlast ▸ h.feed, hlast ▸ h.carriageReturn⟩

lemma EndsInLine.of_cons {c : Char} {cs : List Char} (h : EndsInLine (c :: cs)) (hne : cs ≠ []) :
    EndsInLine cs := by
  have hlast : (c :: cs).getLast? = cs.getLast? := List.getLast?_cons_of_ne_nil hne
  exact ⟨hne, hlast ▸ h.feed, hlast ▸ h.carriageReturn⟩

/-- A line feed in front of a text that ends in a line. -/
lemma EndsInLine.of_feed_cons {cs : List Char} (h : EndsInLine ('\n' :: cs)) : EndsInLine cs :=
  h.of_cons fun hnil => h.feed (by rw [hnil]; rfl)

/-- A line feed after a text ends its last line. -/
lemma EndsInLine.lineChars_append {cs : List Char} (h : EndsInLine cs) (rest : List Char) :
    lineChars (cs ++ '\n' :: rest) = lineChars cs ++ lineChars rest := by
  fun_induction lineChars cs with
  | case1 => exact absurd rfl h.ne_nil
  | case2 more ih => exact congrArg ([] :: ·) (ih h.of_feed_cons)
  | case3 more ih => exact congrArg ([] :: ·) (ih (h.of_cons (List.cons_ne_nil _ _)).of_feed_cons)
  | case4 c more hc hreturn hnil ih =>
    obtain rfl := lineChars_eq_nil.1 hnil
    refine lineChars_cons hc (fun _ hc _ => h.carriageReturn ?_) rfl
    rw [hc]
    rfl
  | case5 c more hc hreturn line lines hcons ih =>
    have hne : more ≠ [] := by rintro rfl; cases hcons
    have htail := ih (h.of_cons hne)
    rw [hcons] at htail
    refine lineChars_cons hc (fun _ hc hmore => ?_) htail
    obtain ⟨b, more, rfl⟩ := List.exists_cons_of_ne_nil hne
    exact hreturn more hc (congrArg (· :: more) (List.cons.inj hmore).1)

/-- Every line feed of a text ends a line, and one more line follows. -/
lemma EndsInLine.length_lineChars {cs : List Char} (h : EndsInLine cs) :
    (lineChars cs).length = cs.count '\n' + 1 := by
  fun_induction lineChars cs with
  | case1 => exact absurd rfl h.ne_nil
  | case2 more ih => simp [ih h.of_feed_cons]
  | case3 more ih => simp [ih (h.of_cons (List.cons_ne_nil _ _)).of_feed_cons]
  | case4 c more hc hreturn hnil ih =>
    obtain rfl := lineChars_eq_nil.1 hnil
    simp [List.count_eq_zero_of_not_mem, Ne.symm hc]
  | case5 c more hc hreturn line lines hcons ih =>
    have hne : more ≠ [] := by rintro rfl; cases hcons
    have htail := ih (h.of_cons hne)
    rw [hcons] at htail
    rw [List.count_cons_of_ne hc, ← htail]
    rfl

/-- A text that is one line, whatever lines stand around it. -/
structure IsLine (cs : List Char) : Prop where
  ne_nil : cs ≠ []
  feed_not_mem : '\n' ∉ cs
  /-- A carriage return at the end would belong to the line feed that follows. -/
  getLast?_ne : cs.getLast? ≠ some '\r'

lemma EndsInLine.isLine {cs : List Char} (h : EndsInLine cs) (hfeed : '\n' ∉ cs) : IsLine cs :=
  ⟨h.ne_nil, hfeed, h.carriageReturn⟩

lemma IsLine.endsInLine {line : List Char} (h : IsLine line) : EndsInLine line :=
  ⟨h.ne_nil, fun hlast => h.feed_not_mem (List.mem_of_getLast? hlast), h.getLast?_ne⟩

lemma IsLine.lineChars_eq {line : List Char} (h : IsLine line) : lineChars line = [line] := by
  obtain ⟨hne, hfeed, -⟩ := h
  induction line with
  | nil => exact absurd rfl hne
  | cons c line ih =>
    rw [List.mem_cons, not_or] at hfeed
    cases line with
    | nil =>
      rw [lineChars]
      · rfl
      · exact Ne.symm hfeed.1
      · simp
    | cons b line =>
      refine lineChars_cons (Ne.symm hfeed.1) (fun _ _ hb => hfeed.2 ?_)
        (ih (List.cons_ne_nil _ _) hfeed.2)
      obtain rfl : b = '\n' := (List.cons.inj hb).1
      exact List.mem_cons_self

lemma IsLine.lineChars_append {line : List Char} (h : IsLine line) (rest : List Char) :
    lineChars (line ++ '\n' :: rest) = line :: lineChars rest := by
  rw [h.endsInLine.lineChars_append, h.lineChars_eq, List.singleton_append]

/-- Lines that were put together are found again. -/
theorem lines_intercalate {ls : List String} (h : ∀ l ∈ ls, IsLine l.toList) :
    lines ("\n".intercalate ls) = ls := by
  induction ls with
  | nil => rfl
  | cons l ls ih =>
    have hl := h l List.mem_cons_self
    cases ls with
    | nil => simp [lines, hl.lineChars_eq]
    | cons l' ls =>
      have htail := ih fun k hk => h k (List.mem_cons_of_mem _ hk)
      have htext : ("\n".intercalate (l :: l' :: ls)).toList =
          l.toList ++ '\n' :: ("\n".intercalate (l' :: ls)).toList := by
        rw [String.intercalate_cons_cons]
        simp
      rw [lines, htext, hl.lineChars_append, List.map_cons, String.ofList_toList]
      exact congrArg (l :: ·) htail

end Text

/-! ## Numbers -/

lemma feed_not_mem_toDigits {base : Nat} (hbase : 1 < base) (n : Nat) :
    '\n' ∉ Nat.toDigits base n := by
  have hdigit : ∀ d, '\n' ≠ Nat.digitChar d := fun d => (Nat.digitChar_ne '\n' (by decide)).symm
  induction n using Nat.strongRecOn with
  | _ n ih =>
    rw [Nat.toDigits_eq_if hbase]
    split
    · simp [hdigit]
    · next hge =>
      have hlt : n / base < n := Nat.div_lt_self (by omega) hbase
      simp [hdigit, ih _ hlt]

lemma feed_not_mem_toString (n : Nat) : '\n' ∉ (toString n).toList := by
  rw [Nat.toString_eq_ofList_toDigits, String.toList_ofList]
  exact feed_not_mem_toDigits (by decide) n

lemma feed_not_mem_toString_int (z : Int) : '\n' ∉ (toString z).toList := by
  cases z with
  | ofNat n => exact feed_not_mem_toString n
  | negSucc n =>
    have htext : toString (Int.negSucc n) = "-" ++ toString (n + 1) := rfl
    rw [htext, String.toList_append, List.mem_append, not_or]
    exact ⟨by decide, feed_not_mem_toString (n + 1)⟩

/-! ## Commands -/

/-- Scripts and messages are written out line by line, without loss: a script is one command and a
command of another kind for each further line, a message is a window and one command for each line,
and there is always one line. -/
theorem commands_break_lines (indent : UInt32) (code : String) (message : Message) :
    (∃ first rest, Text.Breaks code (first :: rest) ∧
      Command.script indent code =
        ⟨.script, indent, [.str first]⟩ ::
          rest.map fun line => ⟨.scriptLine, indent, [.str line]⟩) ∧
    ∃ lines, Text.Breaks message.text lines ∧
      message.commands indent =
        .showText indent message.faceName message.faceIndex message.background message.position ::
          lines.map fun line => ⟨.textLine, indent, [.str line]⟩ := by
  constructor
  · cases hlines : Text.lines code with
    | nil =>
      refine ⟨"", [], Text.breaks_of_lines_eq_nil hlines, ?_⟩
      rw [Command.script, hlines]
      rfl
    | cons first rest =>
      refine ⟨first, rest, ?_, by rw [Command.script, hlines]⟩
      rw [← hlines]
      exact Text.breaks_lines (by simp [hlines])
  · cases hlines : Text.lines message.text with
    | nil =>
      refine ⟨[""], Text.breaks_of_lines_eq_nil hlines, ?_⟩
      rw [Message.commands, hlines]
      rfl
    | cons first rest =>
      refine ⟨first :: rest, ?_, by rw [Message.commands, hlines]; rfl⟩
      rw [← hlines]
      exact Text.breaks_lines (by simp [hlines])

end Dialogue
