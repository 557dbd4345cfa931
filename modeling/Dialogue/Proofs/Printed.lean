import Mathlib.Algebra.Ring.Int.Defs
import Mathlib.Algebra.Ring.Nat
import Dialogue.Proofs.Readers
/-!
What is printed can be read.

A value without fractions (`Whole`) has a tree (`tree`), and both printed forms of it, with and
without spaces, are spellings of that tree.  If its numbers fit into 64 bits, the keys of its
objects increase and it is not nested too deep (`Exact`), then reading the tree gives the value
back.
-/

namespace Dialogue.Json

/-! ## Numbers -/

section Numbers

lemma head?_toDigits (n : Nat) (h : (Nat.toDigits 10 n).head? = some '0') :
    Nat.toDigits 10 n = ['0'] := by
  induction n using Nat.strongRecOn with
  | _ n ih =>
    rw [Nat.toDigits_eq_if (by decide)] at h ⊢
    split at h
    · next hlt =>
      rw [if_pos hlt]
      rw [Option.some.inj h]
    · next hge =>
      have hne : Nat.toDigits 10 (n / 10) ≠ [] := Nat.toDigits_ne_nil
      rw [List.head?_append_of_ne_nil _ hne] at h
      have hzero := ih (n / 10) (by omega) h
      -- the leading digit stands for a number that is not zero
      have hvalue : Nat.ofDigitChars 10 (Nat.toDigits 10 (n / 10)) 0 = n / 10 :=
        Nat.ofDigitChars_ten_toDigits
      rw [hzero] at hvalue
      have : n / 10 = 0 := hvalue.symm
      omega

/-- A whole number as it is written. -/
def numeralOf (n : Nat) : {n : Numeral // IsNumeral n} where
  val := ⟨Nat.toDigits 10 n, [], none⟩
  property :=
    { whole_ne_nil := Nat.toDigits_ne_nil
      whole := fun _ hc => Nat.isDigit_of_mem_toDigits (by decide) (by decide) hc
      zero := head?_toDigits n
      fraction := nofun
      exponent := nofun }

lemma le_ofDigitChars (ds : List Char) (n : Nat) : n ≤ Nat.ofDigitChars 10 ds n := by
  rw [Nat.ofDigitChars_eq_ofDigitChars_zero]
  have : n ≤ 10 ^ ds.length * n := Nat.le_mul_of_pos_left n (Nat.pow_pos (by decide))
  omega

lemma absorb_of_lt {ds : List Char} {n : Nat} (h : Nat.ofDigitChars 10 ds n < UInt64.size) :
    absorb n ds = (Nat.ofDigitChars 10 ds n, 0) := by
  induction ds generalizing n with
  | nil => rfl
  | cons d ds ih =>
    rw [Nat.ofDigitChars_cons, Nat.mul_comm] at h ⊢
    have hnext : n * 10 + digitValue d < UInt64.size := (le_ofDigitChars ds _).trans_lt h
    rw [absorb, if_pos hnext]
    exact ih h

lemma absorb_numeralOf {n : Nat} (h : n < UInt64.size) :
    absorb 0 (numeralOf n).1.whole = (n, 0) := by
  have hvalue : Nat.ofDigitChars 10 (Nat.toDigits 10 n) 0 = n := Nat.ofDigitChars_ten_toDigits
  have hread : absorb 0 (Nat.toDigits 10 n) = (Nat.ofDigitChars 10 (Nat.toDigits 10 n) 0, 0) :=
    absorb_of_lt (by rwa [hvalue])
  rwa [hvalue] at hread

lemma value_numeralOf {n : Nat} (h : n < UInt64.size) :
    (numeralOf n).1.value false = .ok (.int n) := by
  simp only [Numeral.value, absorb_numeralOf h]
  rfl

lemma value_numeralOf_negative {n : Nat} (hpos : 0 < n) (h : n ≤ 2 ^ 63) :
    (numeralOf n).1.value true = .ok (.int (-n)) := by
  have hlt : n < UInt64.size := h.trans_lt (by decide)
  have hmin : (n : Int) ≤ 9223372036854775808 := by omega
  simp only [Numeral.value, absorb_numeralOf hlt]
  simp [hpos, hmin, numeralOf]

end Numbers

/-! ## Trees of values -/

/-- A text as it is written between its quotes. -/
def quoted (s : String) : RawText :=
  ⟨s.toList.flatMap escapeChar, isRaw_flatMap_escapeChar s.toList⟩

lemma text_quoted (s : String) : (quoted s).text = .ok s := by
  rw [RawText.text, quoted, decode_flatMap_escapeChar]
  exact congrArg Except.ok String.ofList_toList

mutual

/-- The tree that a value is written as.  A number with a fraction has no part in what follows; it
is given the tree of `null`. -/
def tree : Json → Tree
  | null => .null
  | bool b => .bool b
  | num (.int n) => .number (decide (n < 0)) (numeralOf n.natAbs)
  | num (.float _) => .null
  | str s => .text (quoted s)
  | arr items => .list (itemTrees items)
  | obj members => .object (memberTrees members)

/-- The trees of the items of an array. -/
def itemTrees : List Json → List Tree
  | [] => []
  | item :: more => item.tree :: itemTrees more

/-- The members of an object with the trees of their values. -/
def memberTrees : List (String × Json) → List (RawText × Tree)
  | [] => []
  | (key, value) :: more => (quoted key, value.tree) :: memberTrees more

end

lemma itemTrees_eq (items : List Json) : itemTrees items = items.map tree := by
  induction items with
  | nil => rfl
  | cons item more ih => rw [itemTrees, ih, List.map_cons]

lemma memberTrees_eq (members : List (String × Json)) :
    memberTrees members = members.map fun m => (quoted m.1, m.2.tree) := by
  induction members with
  | nil => rfl
  | cons m more ih => rw [memberTrees, ih, List.map_cons]

/-- All numbers are whole. -/
inductive Whole : Json → Prop
  | null : Whole null
  | bool (b : Bool) : Whole (bool b)
  | int (n : Int) : Whole (int n)
  | str (s : String) : Whole (str s)
  | arr {items : List Json} (h : ∀ j ∈ items, Whole j) : Whole (arr items)
  | obj {members : List (String × Json)} (h : ∀ m ∈ members, Whole m.2) : Whole (obj members)

/-- What can be read back within `depth` containers: the numbers are whole and fit into 64 bits,
with or without sign, and the keys of an object increase. -/
inductive Exact : (depth : Nat) → Json → Prop
  | null {depth : Nat} : Exact depth null
  | bool {depth : Nat} (b : Bool) : Exact depth (bool b)
  | int {depth : Nat} {n : Int} (hmin : -2 ^ 63 ≤ n) (hmax : n < 2 ^ 64) : Exact depth (int n)
  | str {depth : Nat} (s : String) : Exact depth (str s)
  | arr {depth : Nat} {items : List Json} (h : ∀ j ∈ items, Exact depth j) :
      Exact (depth + 1) (arr items)
  | obj {depth : Nat} {members : List (String × Json)} (hkeys : Increasing members)
      (h : ∀ m ∈ members, Exact depth m.2) : Exact (depth + 1) (obj members)

lemma Exact.whole {depth : Nat} {j : Json} (h : Exact depth j) : Whole j := by
  induction h with
  | null => exact .null
  | bool b => exact .bool b
  | int => exact .int _
  | str s => exact .str s
  | arr _ ih => exact .arr ih
  | obj _ _ ih => exact .obj ih

/-! ## Both printed forms are spellings -/

section Spelling

lemma spells_toString (n : Int) : Spells (tree (num (.int n))) (toString n).toList := by
  have hdigits : ∀ m : Nat, SpellsNumeral (numeralOf m).1 (toString m).toList := by
    intro m
    have hchars := spellsNumeral_numeralChars (numeralOf m).1
    have heq : numeralChars (numeralOf m).1 = (toString m).toList := by
      rw [Nat.toString_eq_ofList_toDigits, String.toList_ofList]
      exact (List.append_nil _).trans (List.append_nil _)
    rwa [heq] at hchars
  cases n with
  | ofNat m => exact .positive (hdigits m)
  | negSucc m =>
    have heq : (toString (Int.negSucc m)).toList = '-' :: (toString (m + 1)).toList := by
      rw [show toString (Int.negSucc m) = "-" ++ toString (m + 1) from rfl, String.toList_append]
      rfl
    rw [heq, tree, decide_eq_true (Int.negSucc_lt_zero m)]
    exact .negative (hdigits (m + 1))

variable {ws ws' : List Char} {shown : Json → List Char}

/-- The items after the first one, with `ws` behind each comma and `ws'` before the bracket. -/
lemma spellsItems_flatMap {items : List Json} (h : ∀ j ∈ items, Spells j.tree (shown j))
    (hws : Spaces ws) (hws' : Spaces ws') :
    SpellsItems false (itemTrees items)
      (items.flatMap (fun j => ',' :: (ws ++ shown j)) ++ (ws' ++ [']'])) := by
  induction items with
  | nil => exact .close hws'
  | cons item more ih =>
    have hmore := ih fun j hj => h j (List.mem_cons_of_mem _ hj)
    have hitem := SpellsItems.item (.comma spaces_nil hws) (h item List.mem_cons_self) hmore
    rw [itemTrees, List.flatMap_cons]
    simpa only [List.nil_append, List.cons_append, List.append_assoc] using hitem

/-- The members after the first one, with `ws'` behind each colon. -/
lemma spellsMembers_flatMap {members : List (String × Json)} {ws'' : List Char}
    (h : ∀ m ∈ members, Spells m.2.tree (shown m.2)) (hws : Spaces ws) (hws' : Spaces ws')
    (hws'' : Spaces ws'') :
    SpellsMembers false (memberTrees members)
      (members.flatMap (fun m => ',' :: (ws ++ writeText m.1 ++ ':' :: (ws' ++ shown m.2))) ++
        (ws'' ++ ['}'])) := by
  induction members with
  | nil => exact .close hws''
  | cons m more ih =>
    have hmore := ih fun m hm => h m (List.mem_cons_of_mem _ hm)
    have hmember : SpellsMembers false ((quoted m.1, m.2.tree) :: memberTrees more) _ :=
      .member (.comma spaces_nil hws) spaces_nil hws' (h m List.mem_cons_self) hmore
    rw [memberTrees, List.flatMap_cons]
    simpa only [writeText, quoted, List.nil_append, List.cons_append, List.append_assoc]
      using hmember

lemma writeItems_cons (item : Json) (more : List Json) :
    writeItems (item :: more) = item.write ++ more.flatMap fun j => ',' :: j.write := by
  induction more generalizing item with
  | nil => rw [writeItems, List.flatMap_nil, List.append_nil]
  | cons next more ih =>
    rw [writeItems, ih, List.flatMap_cons]
    · rfl
    · exact List.cons_ne_nil _ _

lemma writeMembers_cons (m : String × Json) (more : List (String × Json)) :
    writeMembers (m :: more) = writeText m.1 ++ ':' :: (m.2.write ++
      more.flatMap fun m => ',' :: (writeText m.1 ++ ':' :: m.2.write)) := by
  induction more generalizing m with
  | nil => rw [writeMembers, List.flatMap_nil, List.append_nil]
  | cons next more ih =>
    rw [writeMembers, ih, List.flatMap_cons]
    · simp only [List.cons_append, List.append_assoc]
    · exact List.cons_ne_nil _ _

lemma writePrettyItems_eq (depth : Nat) (items : List Json) :
    writePrettyItems depth items =
      items.flatMap fun j => ',' :: (newline depth ++ j.writePretty depth) := by
  induction items with
  | nil => rfl
  | cons item more ih => simp [writePrettyItems, ih]

lemma writePrettyMembers_eq (depth : Nat) (members : List (String × Json)) :
    writePrettyMembers depth members = members.flatMap fun m =>
      ',' :: (newline depth ++ writeText m.1 ++ ':' :: ([' '] ++ m.2.writePretty depth)) := by
  induction members with
  | nil => rfl
  | cons m more ih => simp [writePrettyMembers, ih]

lemma spaces_newline (depth : Nat) : Spaces (newline depth) := by
  intro c hc
  rcases List.mem_cons.1 hc with rfl | hc
  · rfl
  · rw [List.eq_of_mem_replicate hc]
    rfl

variable {j : Json}

theorem Whole.spells_write (h : Whole j) : Spells j.tree j.write := by
  induction h with
  | null => exact .null
  | bool b => exact .bool b
  | int => exact spells_toString _
  | str s => exact .text (quoted s)
  | @arr items _ ih =>
    cases items with
    | nil => exact .list (.close spaces_nil)
    | cons item more =>
      have hmore := spellsItems_flatMap (fun j hj => ih j (List.mem_cons_of_mem _ hj)) spaces_nil
        spaces_nil
      have hitems := SpellsItems.item (.spaces spaces_nil) (ih item List.mem_cons_self) hmore
      rw [tree, itemTrees, write, writeItems_cons]
      refine .list ?_
      simpa only [List.nil_append, List.append_assoc] using hitems
  | @obj members _ ih =>
    cases members with
    | nil => exact .object (.close spaces_nil)
    | cons m more =>
      have hmore := spellsMembers_flatMap (fun m hm => ih m (List.mem_cons_of_mem _ hm)) spaces_nil
        spaces_nil spaces_nil
      have hmembers : SpellsMembers true ((quoted m.1, m.2.tree) :: memberTrees more) _ :=
        .member (.spaces spaces_nil) spaces_nil spaces_nil (ih m List.mem_cons_self) hmore
      rw [tree, memberTrees, write, writeMembers_cons]
      refine .object ?_
      simpa only [writeText, quoted, List.nil_append, List.cons_append, List.append_assoc]
        using hmembers

theorem Whole.spells_writePretty (h : Whole j) (level : Nat) :
    Spells j.tree (j.writePretty level) := by
  induction h generalizing level with
  | null => exact .null
  | bool b => exact .bool b
  | int => exact spells_toString _
  | str s => exact .text (quoted s)
  | @arr items _ ih =>
    cases items with
    | nil => exact .list (.close spaces_nil)
    | cons item more =>
      have hmore := spellsItems_flatMap
        (fun j hj => ih j (List.mem_cons_of_mem _ hj) (level + 1)) (spaces_newline (level + 1))
        (spaces_newline level)
      have hitems := SpellsItems.item (.spaces (spaces_newline (level + 1)))
        (ih item List.mem_cons_self (level + 1)) hmore
      rw [tree, itemTrees, writePretty, writePrettyItems_eq]
      refine .list ?_
      simpa only [List.append_assoc] using hitems
  | @obj members _ ih =>
    cases members with
    | nil => exact .object (.close spaces_nil)
    | cons m more =>
      have hspace : Spaces [' '] := by simp [Spaces, isSpace]
      have hmore := spellsMembers_flatMap
        (fun m hm => ih m (List.mem_cons_of_mem _ hm) (level + 1)) (spaces_newline (level + 1))
        hspace (spaces_newline level)
      have hmembers : SpellsMembers true ((quoted m.1, m.2.tree) :: memberTrees more) _ :=
        .member (.spaces (spaces_newline (level + 1))) spaces_nil hspace
          (ih m List.mem_cons_self (level + 1)) hmore
      rw [tree, memberTrees, writePretty, writePrettyMembers_eq]
      refine .object ?_
      simpa only [writeText, quoted, List.nil_append, List.cons_append, List.append_assoc]
        using hmembers

end Spelling

/-! ## Reading back -/

lemma seen_int {n : Int} (hmin : -2 ^ 63 ≤ n) (hmax : n < 2 ^ 64) :
    (tree (int n)).seen = .ok (int n) := by
  rw [int, tree, Tree.seen]
  by_cases hn : n < 0
  · have hread := value_numeralOf_negative (n := n.natAbs) (by omega) (by omega)
    have heq : -(n.natAbs : Int) = n := by omega
    rw [decide_eq_true hn, hread, heq]
    rfl
  · have hread := value_numeralOf (n := n.natAbs) (by unfold UInt64.size; omega)
    have heq : (n.natAbs : Int) = n := by omega
    rw [decide_eq_false hn, hread, heq]
    rfl

/-- A value that is exact is read back. -/
theorem onTree_tree {depth : Nat} {j : Json} (h : Exact depth j) :
    onTree (value depth) j.tree = .ok j := by
  induction h with
  | null => rw [onTree_value]; rfl
  | bool b => rw [onTree_value]; rfl
  | int hmin hmax => rw [onTree_value]; exact seen_int hmin hmax
  | str s =>
    rw [onTree_value, tree, valueOn, Tree.seen, text_quoted]
    · rfl
    · intro _ h
      cases h
    · intro _ h
      cases h
  | @arr depth items _ ih =>
    rw [onTree_value, tree, valueOn, within, itemTrees_eq, mapM_eq_ok ih, List.map_id']
    rfl
  | @obj depth members hkeys _ ih =>
    have hentries : (members.map fun m => (quoted m.1, m.2.tree)).mapM
        (entryOn (onTree (value depth))) = .ok (members.map id) := by
      refine mapM_eq_ok fun m hm => ?_
      rw [entryOn, text_quoted]
      simp only [ih m hm]
      rfl
    have hput : putEntries members [] = members := putEntries_of_increasing hkeys
    rw [onTree_value, tree, valueOn, within, memberTrees_eq, hentries, List.map_id]
    exact congrArg (fun es => Except.ok (obj es)) hput

variable {depth : Nat} {j : Json}

lemma Exact.of_le {depth' : Nat} (h : Exact depth j) (hle : depth ≤ depth') : Exact depth' j := by
  induction h generalizing depth' with
  | null => exact .null
  | bool b => exact .bool b
  | int hmin hmax => exact .int hmin hmax
  | str s => exact .str s
  | arr _ ih =>
    obtain ⟨depth', rfl⟩ := Nat.exists_eq_add_of_lt hle
    exact .arr fun j hj => ih j hj (by omega)
  | obj hkeys _ ih =>
    obtain ⟨depth', rfl⟩ := Nat.exists_eq_add_of_lt hle
    exact .obj hkeys fun m hm => ih m hm (by omega)

lemma spellsText_ofList {t : Tree} {cs : List Char} (h : Spells t cs) :
    SpellsText t (String.ofList cs) := by
  refine ⟨[], cs, [], spaces_nil, h, spaces_nil, ?_⟩
  rw [String.toList_ofList, List.append_nil, List.nil_append]

theorem readAll_compact (h : Exact depth j) : readAll (value depth) j.compact = .ok j :=
  (readAll_eq (regular_value depth) (spellsText_ofList h.whole.spells_write)).trans (onTree_tree h)

theorem readAll_pretty (h : Exact depth j) : readAll (value depth) j.pretty = .ok j :=
  (readAll_eq (regular_value depth) (spellsText_ofList (h.whole.spells_writePretty 0))).trans
    (onTree_tree h)

end Dialogue.Json
