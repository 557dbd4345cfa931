import Mathlib.Algebra.GroupWithZero.Nat
import Dialogue.Command.Listing
import Dialogue.Proofs.LineBreaks
/-!
The lines of a listing.

A listing is meant to have one line for each command, between a head and a foot.  Almost everything
in it is written without line feeds: numbers, names of opcodes, and texts in quotes, however deep
they stand in a list.  Only the keys of an object are written as they are.  So the line feeds in the
line of a command are those in its keys (`Command.feeds_line`), each of them breaks that line once
more, and a listing has the lines it should have if and only if no key holds a line feed
(`Script.isListedBy_lines_iff`).
-/

namespace Dialogue

namespace Text

/-! ## Line feeds -/

/-- The number of line feeds in a text. -/
def feeds (s : String) : Nat :=
  s.toList.count '\n'

@[simp]
lemma feeds_append (s t : String) : feeds (s ++ t) = feeds s + feeds t := by
  rw [feeds, String.toList_append, List.count_append]
  rfl

lemma feeds_eq_zero {s : String} : feeds s = 0 ↔ '\n' ∉ s.toList :=
  List.count_eq_zero

lemma feeds_intercalate {sep : String} (hsep : feeds sep = 0) (ss : List String) :
    feeds (sep.intercalate ss) = (ss.map feeds).sum := by
  induction ss with
  | nil => rfl
  | cons s ss ih =>
    cases ss with
    | nil => simp
    | cons t ss =>
      rw [String.intercalate_cons_cons, feeds_append, feeds_append, hsep, ih]
      simp

@[simp]
lemma feeds_nat (n : Nat) : feeds (toString n) = 0 :=
  feeds_eq_zero.2 (feed_not_mem_toString n)

@[simp]
lemma feeds_int (n : Int) : feeds (toString n) = 0 :=
  feeds_eq_zero.2 (feed_not_mem_toString_int n)

lemma feeds_hexadecimal (n : Nat) : feeds (hexadecimal n) = 0 := by
  rw [feeds_eq_zero, hexadecimal, String.toList_ofList]
  exact feed_not_mem_toDigits (by decide) n

lemma feeds_replicate {c : Char} (hc : c ≠ '\n') (n : Nat) :
    feeds (String.ofList (List.replicate n c)) = 0 := by
  rw [feeds_eq_zero, String.toList_ofList, List.mem_replicate]
  exact fun h => hc h.2.symm

lemma feeds_padLeft {fill : Char} (hfill : fill ≠ '\n') (width : Nat) (s : String) :
    feeds (padLeft width fill s) = feeds s := by
  rw [padLeft, feeds_append, feeds_replicate hfill, Nat.zero_add]

/-- No character is shown as a line feed, and a line feed least of all. -/
lemma feeds_quoteChar (c : Char) : feeds (quoteChar c) = 0 := by
  unfold quoteChar
  split
  case h_7 hfeed _ _ _ =>
    -- a character that has no escape of its own
    split
    · rw [feeds_eq_zero, Char.toString, String.toList_singleton, List.mem_singleton]
      exact Ne.symm hfeed
    · rw [feeds_append, feeds_append, feeds_hexadecimal]
      rfl
  all_goals rfl

@[simp]
lemma feeds_quote (s : String) : feeds (quote s) = 0 := by
  have hbody : feeds (String.join (s.toList.map quoteChar)) = 0 := by
    rw [feeds_eq_zero, String.toList_join, List.flatMap_map, List.mem_flatMap]
    rintro ⟨c, -, hmem⟩
    exact feeds_eq_zero.1 (feeds_quoteChar c) hmem
  rw [quote, feeds_append, feeds_append, hbody]
  rfl

/-! ## Lines of texts -/

lemma lines_of_feeds_eq_zero {s : String} (h : EndsInLine s.toList) (hfeeds : feeds s = 0) :
    lines s = [s] := by
  rw [lines, (h.isLine (feeds_eq_zero.1 hfeeds)).lineChars_eq]
  simp

lemma length_lines {s : String} (h : EndsInLine s.toList) : (lines s).length = feeds s + 1 := by
  rw [lines, List.length_map, h.length_lineChars, feeds]

/-- Texts that end in lines are broken up one by one. -/
theorem lines_join {ss : List String} (h : ∀ s ∈ ss, EndsInLine s.toList) :
    lines (String.join (ss.map (· ++ "\n"))) = ss.flatMap lines := by
  induction ss with
  | nil => rfl
  | cons s ss ih =>
    rw [List.forall_mem_cons] at h
    have htext : (String.join ((s :: ss).map (· ++ "\n"))).toList =
        s.toList ++ '\n' :: (String.join (ss.map (· ++ "\n"))).toList := by
      simp [String.toList_join]
    rw [lines, htext, h.1.lineChars_append, List.map_append, List.flatMap_cons, ← ih h.2]
    rfl

end Text

open Text

/-! ## Parameters -/

mutual

/-- The keys of the objects in a parameter. -/
def Parameter.keys : Parameter → List String
  | .int _ | .str _ | .bool _ => []
  | .list items => Parameter.keysOf items
  | .object entries => entries.entries.map Prod.fst

/-- The keys of the objects in parameters. -/
def Parameter.keysOf : List Parameter → List String
  | [] => []
  | p :: ps => p.keys ++ Parameter.keysOf ps

end

lemma Parameter.keysOf_cons (p : Parameter) (ps : List Parameter) :
    keysOf (p :: ps) = p.keys ++ keysOf ps := by
  rw [keysOf]

lemma Parameter.shownList_cons_cons (p q : Parameter) (ps : List Parameter) :
    shownList (p :: q :: ps) = p.shown ++ ", " ++ shownList (q :: ps) := by
  rw [shownList]
  exact List.cons_ne_nil q ps

/-- The keys of the objects in the parameters of a command. -/
def Command.keys (c : Command) : List String :=
  Parameter.keysOf c.parameters

mutual

/-- All line feeds that are shown are those of keys. -/
theorem Parameter.feeds_shown : ∀ p : Parameter, feeds p.shown = (p.keys.map feeds).sum
  | .int n => feeds_int n.toInt
  | .str s => feeds_quote s
  | .bool b => by cases b <;> rfl
  | .list items => by
    rw [shown, keys, feeds_append, feeds_append, Parameter.feeds_shownList items]
    exact Nat.zero_add _
  | .object entries => by
    have hentry : (feeds ∘ fun e : String × String => e.1 ++ ": " ++ quote e.2) =
        feeds ∘ Prod.fst := by
      funext e
      rw [Function.comp_apply, feeds_append, feeds_append, feeds_quote]
      rfl
    rw [shown, keys, feeds_append, feeds_append, feeds_intercalate rfl, List.map_map, List.map_map,
      hentry]
    exact Nat.zero_add _

theorem Parameter.feeds_shownList :
    ∀ ps : List Parameter, feeds (shownList ps) = ((keysOf ps).map feeds).sum
  | [] => rfl
  | [p] => by
    rw [shownList, Parameter.feeds_shown p, keysOf_cons, keysOf, List.append_nil]
  | p :: q :: ps => by
    -- a comma stands only between two parameters
    have hcomma : feeds ", " = 0 := rfl
    rw [shownList_cons_cons, feeds_append, feeds_append, hcomma, Parameter.feeds_shown p,
      Parameter.feeds_shownList (q :: ps), keysOf_cons p, List.map_append, List.sum_append,
      Nat.add_zero]

end

/-! ## Lines of commands -/

lemma Opcode.feeds_name (o : Opcode) : feeds o.name = 0 := by
  cases o <;> rfl

lemma Opcode.endsInLine_name (o : Opcode) : EndsInLine o.name.toList := by
  cases o <;> decide

theorem Command.feeds_line (position : Nat) (c : Command) :
    feeds (c.line position) = (c.keys.map feeds).sum := by
  have hparameters : feeds (if c.parameters.isEmpty then "" else
      " [" ++ Parameter.shownList c.parameters ++ "]") = (c.keys.map feeds).sum := by
    split
    · next h =>
      rw [keys, List.isEmpty_iff.1 h]
      rfl
    · rw [feeds_append, feeds_append, Parameter.feeds_shownList]
      exact Nat.zero_add _
  simp only [line, feeds_append, hparameters, feeds_padLeft (show '0' ≠ '\n' by decide),
    feeds_padLeft (show ' ' ≠ '\n' by decide), feeds_replicate (show ' ' ≠ '\n' by decide),
    feeds_nat, Opcode.feeds_name]
  exact Nat.zero_add _

lemma Command.endsInLine_line (position : Nat) (c : Command) :
    EndsInLine (c.line position).toList := by
  rw [line]
  split
  · rw [String.append_empty, String.toList_append]
    exact c.opcode.endsInLine_name.append _
  · rw [← String.append_assoc, String.toList_append]
    exact .append _ (show EndsInLine "]".toList by decide)

/-! ## Listings -/

namespace Script

/-- The first line of a listing. -/
def head (s : Script) : String :=
  "======== EVENT COMMANDS for: " ++ s.name ++ " (" ++ toString s.commands.length ++
    " commands) ========"

/-- The last line of a listing. -/
def foot : String :=
  "================ END OF LIST ================"

/-- The lines are a head, one line for each command and a foot. -/
structure IsListedBy (s : Script) (lines : List String) : Prop where
  length_eq : lines.length = s.commands.length + 2
  head_eq : lines[0]? = some s.head
  line_eq : ∀ position c, s.commands[position]? = some c →
    lines[position + 1]? = some (c.line position)
  foot_eq : lines[s.commands.length + 1]? = some foot

lemma listingLines_eq (s : Script) :
    s.listingLines = s.head :: (s.commands.mapIdx Command.line ++ [foot]) := rfl

lemma isListedBy_listingLines (s : Script) : s.IsListedBy s.listingLines where
  length_eq := by simp [listingLines_eq]
  head_eq := rfl
  line_eq position c h := by
    have hlt : position < (s.commands.mapIdx Command.line).length := by
      simpa using (List.getElem?_eq_some_iff.1 h).1
    rw [listingLines_eq, List.getElem?_cons_succ, List.getElem?_append_left hlt,
      List.getElem?_mapIdx, h, Option.map_some]
  foot_eq := by
    rw [listingLines_eq, List.getElem?_cons_succ, List.getElem?_append_right (by simp)]
    simp

lemma feeds_head {s : Script} (hname : '\n' ∉ s.name.toList) : feeds s.head = 0 := by
  have htexts : feeds "======== EVENT COMMANDS for: " = 0 ∧ feeds " (" = 0 ∧
      feeds " commands) ========" = 0 := by decide
  unfold head
  simp only [feeds_append, feeds_eq_zero.2 hname, feeds_nat, htexts]

lemma endsInLine_head (s : Script) : EndsInLine s.head.toList := by
  unfold head
  rw [String.toList_append]
  exact .append _ (show EndsInLine " commands) ========".toList by decide)

lemma endsInLine_foot : EndsInLine foot.toList := by
  decide

lemma endsInLine_of_mem_listingLines {s : Script} {line : String} (h : line ∈ s.listingLines) :
    EndsInLine line.toList := by
  rw [listingLines_eq, List.mem_cons, List.mem_append, List.mem_mapIdx, List.mem_singleton] at h
  rcases h with rfl | ⟨position, hlt, rfl⟩ | rfl
  · exact s.endsInLine_head
  · exact Command.endsInLine_line position _
  · exact endsInLine_foot

/-- The head and the foot stand alone in their lines. -/
lemma lines_listing {s : Script} (hname : '\n' ∉ s.name.toList) :
    lines s.listing = s.head :: ((s.commands.mapIdx Command.line).flatMap lines ++ [foot]) := by
  have hhead : lines s.head = [s.head] :=
    lines_of_feeds_eq_zero s.endsInLine_head (feeds_head hname)
  have hfoot : lines foot = [foot] := lines_of_feeds_eq_zero endsInLine_foot (by decide)
  rw [listing, lines_join fun _ => endsInLine_of_mem_listingLines, listingLines_eq,
    List.flatMap_cons, List.flatMap_append, List.flatMap_singleton, hhead, hfoot]
  rfl

/-- The positions of the commands do not matter to the number of their lines. -/
lemma length_flatMap_lines (cs : List Command) {line : Nat → Command → String}
    (hline : ∀ position c, (lines (line position c)).length = (c.keys.map feeds).sum + 1) :
    ((cs.mapIdx line).flatMap lines).length =
      cs.length + ((cs.flatMap Command.keys).map feeds).sum := by
  induction cs generalizing line with
  | nil => rfl
  | cons c cs ih =>
    rw [List.mapIdx_cons, List.flatMap_cons, List.length_append, hline,
      ih fun position => hline (position + 1), List.flatMap_cons, List.map_append, List.sum_append,
      List.length_cons]
    omega

lemma length_lines_listing {s : Script} (hname : '\n' ∉ s.name.toList) :
    (lines s.listing).length =
      s.commands.length + 2 + ((s.commands.flatMap Command.keys).map feeds).sum := by
  have hline : ∀ position c, (lines (Command.line position c)).length =
      (c.keys.map feeds).sum + 1 := by
    intro position c
    rw [length_lines (c.endsInLine_line position), c.feeds_line]
  rw [lines_listing hname, List.length_cons, List.length_append, length_flatMap_lines _ hline,
    List.length_singleton]
  omega

lemma lines_listing_of_feed_not_mem {s : Script} (hname : '\n' ∉ s.name.toList)
    (hkeys : ∀ c ∈ s.commands, ∀ key ∈ c.keys, '\n' ∉ key.toList) :
    lines s.listing = s.listingLines := by
  have hlines : ∀ line ∈ s.commands.mapIdx Command.line, lines line = [line] := by
    intro line hmem
    obtain ⟨position, hlt, rfl⟩ := List.mem_mapIdx.1 hmem
    refine lines_of_feeds_eq_zero (Command.endsInLine_line position _) ?_
    rw [Command.feeds_line, List.sum_eq_zero_iff_forall_eq_nat, List.forall_mem_map]
    exact fun key hkey => feeds_eq_zero.2 (hkeys _ (List.getElem_mem hlt) key hkey)
  rw [lines_listing hname, List.flatMap_congr hlines, List.flatMap_singleton', listingLines_eq]

/-- A listing has a head and a foot, and between them the lines of its commands in order.  There is
one line more for each line feed in a key, and so each command has one line, as it should, if and
only if no key holds a line feed. -/
theorem isListedBy_lines_iff {s : Script} (hname : '\n' ∉ s.name.toList) :
    (s.IsListedBy (lines s.listing) ↔
      ∀ c ∈ s.commands, ∀ key ∈ c.keys, '\n' ∉ key.toList) ∧
    (lines s.listing).length =
      s.commands.length + 2 + ((s.commands.flatMap Command.keys).map feeds).sum ∧
    lines s.listing = s.head :: ((s.commands.mapIdx Command.line).flatMap lines ++ [foot]) := by
  refine ⟨⟨fun h c hc key hkey => ?_, fun hkeys => ?_⟩, length_lines_listing hname,
    lines_listing hname⟩
  · have hsum : ((s.commands.flatMap Command.keys).map feeds).sum = 0 := by
      have hlength := h.length_eq
      rw [length_lines_listing hname] at hlength
      omega
    rw [List.sum_eq_zero_iff_forall_eq_nat, List.forall_mem_map] at hsum
    exact feeds_eq_zero.1 (hsum key (List.mem_flatMap.2 ⟨c, hc, hkey⟩))
  · rw [lines_listing_of_feed_not_mem hname hkeys]
    exact s.isListedBy_listingLines

/-- A program that calls a plugin with an argument whose name has two lines. -/
def torn : Script where
  name := "graph"
  commands :=
    [.pluginCommand 0 "Quest" "open" (Dict.empty.put "to\nwhom" "the \"guard\"\n"), .stop 0]

theorem not_isListedBy_torn :
    '\n' ∉ torn.name.toList ∧ ¬torn.IsListedBy (lines torn.listing) ∧
      (lines torn.listing).length = 5 := by
  have hname : '\n' ∉ torn.name.toList := by decide
  obtain ⟨hiff, hlength, -⟩ := isListedBy_lines_iff hname
  refine ⟨hname, fun h => ?_, hlength.trans (by decide)⟩
  exact hiff.1 h _ List.mem_cons_self "to\nwhom" List.mem_cons_self (by decide)

end Script

end Dialogue
