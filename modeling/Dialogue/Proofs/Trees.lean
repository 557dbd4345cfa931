import Dialogue.Proofs.Tokens
/-!
JSON texts as trees.

A tree is a JSON text without the spaces between its parts: texts and numbers are kept as they are
written, and objects keep all their members in order.  `Spells` is the grammar of JSON: it says
which texts a tree may be written as.
-/

namespace Dialogue.Json

/-! ## Trees -/

/-- What stands between the quotes of a text. -/
structure RawText where
  chars : List Char
  isRaw : IsRaw chars

/-- The text that was written. -/
def RawText.text (raw : RawText) : Except Fault String :=
  String.ofList <$> decode true raw.chars

/-- A JSON text without the spaces between its parts. -/
inductive Tree
  | null
  | bool (value : Bool)
  | number (negative : Bool) (numeral : {n : Numeral // IsNumeral n})
  | text (raw : RawText)
  | list (items : List Tree)
  | object (members : List (RawText × Tree))

/-- There are only spaces. -/
def Spaces (ws : List Char) : Prop :=
  ∀ c ∈ ws, isSpace c = true

/-- What stands before an item: a comma with spaces around it, but only spaces before the first
one. -/
inductive Separates : (first : Bool) → List Char → Prop
  | spaces {ws : List Char} (h : Spaces ws) : Separates true ws
  | comma {ws ws' : List Char} (h : Spaces ws) (h' : Spaces ws') :
      Separates false (ws ++ ',' :: ws')

mutual

/-- How a tree may be written. -/
inductive Spells : Tree → List Char → Prop
  | null : Spells .null ['n', 'u', 'l', 'l']
  | bool (b : Bool) : Spells (.bool b) (writeBool b)
  | positive {n : {n : Numeral // IsNumeral n}} {cs : List Char} (h : SpellsNumeral n.1 cs) :
      Spells (.number false n) cs
  | negative {n : {n : Numeral // IsNumeral n}} {cs : List Char} (h : SpellsNumeral n.1 cs) :
      Spells (.number true n) ('-' :: cs)
  | text (raw : RawText) : Spells (.text raw) ('"' :: (raw.chars ++ ['"']))
  | list {items : List Tree} {cs : List Char} (h : SpellsItems true items cs) :
      Spells (.list items) ('[' :: cs)
  | object {members : List (RawText × Tree)} {cs : List Char} (h : SpellsMembers true members cs) :
      Spells (.object members) ('{' :: cs)

/-- How the items of a list may be written, with the closing bracket. -/
inductive SpellsItems : (first : Bool) → List Tree → List Char → Prop
  | close {first : Bool} {ws : List Char} (h : Spaces ws) : SpellsItems first [] (ws ++ [']'])
  | item {first : Bool} {t : Tree} {ts : List Tree} {before cs more : List Char}
      (hbefore : Separates first before) (h : Spells t cs) (hmore : SpellsItems false ts more) :
      SpellsItems first (t :: ts) (before ++ (cs ++ more))

/-- How the members of an object may be written, with the closing brace. -/
inductive SpellsMembers : (first : Bool) → List (RawText × Tree) → List Char → Prop
  | close {first : Bool} {ws : List Char} (h : Spaces ws) : SpellsMembers first [] (ws ++ ['}'])
  | member {first : Bool} {key : RawText} {t : Tree} {ms : List (RawText × Tree)}
      {before ws ws' cs more : List Char} (hbefore : Separates first before) (hws : Spaces ws)
      (hws' : Spaces ws') (h : Spells t cs) (hmore : SpellsMembers false ms more) :
      SpellsMembers first ((key, t) :: ms)
        (before ++ '"' :: (key.chars ++ '"' :: (ws ++ ':' :: (ws' ++ (cs ++ more)))))

end

/-! ### The spelling without spaces -/

/-- A number without its sign. -/
def numeralChars (n : Numeral) : List Char :=
  n.whole ++ fractionChars n.fraction ++
    match n.exponent with
    | none => []
    | some (false, ds) => 'e' :: ds
    | some (true, ds) => 'e' :: '-' :: ds

/-- What stands before an item if there are no spaces. -/
def separator (first : Bool) : List Char :=
  if first then [] else [',']

mutual

/-- The spelling of a tree without spaces. -/
def Tree.chars : Tree → List Char
  | .null => ['n', 'u', 'l', 'l']
  | .bool b => writeBool b
  | .number false n => numeralChars n.1
  | .number true n => '-' :: numeralChars n.1
  | .text raw => '"' :: (raw.chars ++ ['"'])
  | .list items => '[' :: itemChars true items
  | .object members => '{' :: memberChars true members

/-- The items of a list and the closing bracket, without spaces. -/
def itemChars (first : Bool) : List Tree → List Char
  | [] => [']']
  | t :: ts => separator first ++ (t.chars ++ itemChars false ts)

/-- The members of an object and the closing brace, without spaces. -/
def memberChars (first : Bool) : List (RawText × Tree) → List Char
  | [] => ['}']
  | (key, t) :: ms =>
    separator first ++ '"' :: (key.chars ++ '"' :: ':' :: (t.chars ++ memberChars false ms))

end

lemma spaces_nil : Spaces [] := nofun

lemma separates_separator (first : Bool) : Separates first (separator first) := by
  cases first with
  | false => exact .comma spaces_nil spaces_nil
  | true => exact .spaces spaces_nil

lemma spellsNumeral_numeralChars (n : Numeral) : SpellsNumeral n (numeralChars n) := by
  rw [numeralChars]
  refine .mk ?_
  split
  · next h => rw [h]; exact .none
  · next h => rw [h]; exact .plain (.inl rfl)
  · next h => rw [h]; exact .minus (.inl rfl)

mutual

theorem spells_chars : (t : Tree) → Spells t t.chars
  | .null => .null
  | .bool b => .bool b
  | .number false n => .positive (spellsNumeral_numeralChars n.1)
  | .number true n => .negative (spellsNumeral_numeralChars n.1)
  | .text raw => .text raw
  | .list items => .list (spellsItems_itemChars true items)
  | .object members => .object (spellsMembers_memberChars true members)

theorem spellsItems_itemChars (first : Bool) :
    (ts : List Tree) → SpellsItems first ts (itemChars first ts)
  | [] => .close spaces_nil
  | t :: ts => .item (separates_separator first) (spells_chars t) (spellsItems_itemChars false ts)

theorem spellsMembers_memberChars (first : Bool) :
    (ms : List (RawText × Tree)) → SpellsMembers first ms (memberChars first ms)
  | [] => .close spaces_nil
  | (_, t) :: ms =>
    .member (separates_separator first) spaces_nil spaces_nil (spells_chars t)
      (spellsMembers_memberChars false ms)

end

/-! ### How spellings begin and end -/

lemma ends_nil : Ends [] := nofun

lemma ends_cons {c : Char} {rest : List Char}
    (h : c.isDigit = false ∧ c ≠ '.' ∧ c ≠ 'e' ∧ c ≠ 'E') :
    Ends (c :: rest) := by
  intro c' hc'
  obtain rfl : c = c' := Option.some.inj hc'
  exact h

lemma ends_spaces {ws rest : List Char} (hws : Spaces ws) (hrest : Ends rest) :
    Ends (ws ++ rest) := by
  cases ws with
  | nil => exact hrest
  | cons c ws =>
    have hc : isSpace c = true := hws c List.mem_cons_self
    simp only [isSpace, Bool.or_eq_true, beq_iff_eq] at hc
    rcases hc with ((rfl | rfl) | rfl) | rfl <;> exact ends_cons (by decide)

lemma SpellsItems.ends {ts : List Tree} {more : List Char} (h : SpellsItems false ts more)
    (rest : List Char) : Ends (more ++ rest) := by
  cases h with
  | close hws =>
    rw [List.append_assoc]
    exact ends_spaces hws (ends_cons (by decide))
  | item hbefore =>
    cases hbefore with
    | comma hws _ =>
      rw [List.append_assoc, List.append_assoc]
      exact ends_spaces hws (ends_cons (by decide))

lemma SpellsMembers.ends {ms : List (RawText × Tree)} {more : List Char}
    (h : SpellsMembers false ms more) (rest : List Char) : Ends (more ++ rest) := by
  cases h with
  | close hws =>
    rw [List.append_assoc]
    exact ends_spaces hws (ends_cons (by decide))
  | member hbefore =>
    cases hbefore with
    | comma hws _ =>
      rw [List.append_assoc, List.append_assoc]
      exact ends_spaces hws (ends_cons (by decide))

/-- A character with which a value may begin. -/
def opensValue (c : Char) : Bool :=
  c == 'n' || c == 't' || c == 'f' || c == '"' || c == '-' || c == '[' || c == '{' || c.isDigit

lemma SpellsNumeral.exists_cons {n : Numeral} (hn : IsNumeral n) {cs : List Char}
    (h : SpellsNumeral n cs) : ∃ c cs', cs = c :: cs' ∧ c.isDigit = true := by
  cases h with
  | @mk exponent _ =>
    obtain ⟨d, ds, hwhole⟩ := List.exists_cons_of_ne_nil hn.whole_ne_nil
    refine ⟨d, ds ++ (fractionChars n.fraction ++ exponent), ?_, hn.whole d (by simp [hwhole])⟩
    rw [hwhole, List.append_assoc, List.cons_append]

lemma Spells.exists_cons {t : Tree} {cs : List Char} (h : Spells t cs) :
    ∃ c cs', cs = c :: cs' ∧ opensValue c = true := by
  cases h with
  | null => exact ⟨_, _, rfl, rfl⟩
  | bool b => cases b <;> exact ⟨_, _, rfl, rfl⟩
  | @positive n _ h =>
    obtain ⟨c, cs', rfl, hc⟩ := h.exists_cons n.2
    exact ⟨c, cs', rfl, by simp [opensValue, hc]⟩
  | negative h => exact ⟨_, _, rfl, rfl⟩
  | text raw => exact ⟨_, _, rfl, rfl⟩
  | list h => exact ⟨_, _, rfl, rfl⟩
  | object h => exact ⟨_, _, rfl, rfl⟩

lemma not_space_of_opensValue {c : Char} (h : opensValue c = true) :
    isSpace c = false ∧ c ≠ ']' ∧ c ≠ '}' ∧ c ≠ ',' := by
  refine ⟨?_, ?_, ?_, ?_⟩
  · rw [Bool.eq_false_iff]
    intro hspace
    simp only [isSpace, Bool.or_eq_true, beq_iff_eq] at hspace
    rcases hspace with ((rfl | rfl) | rfl) | rfl <;> cases h
  all_goals
    rintro rfl
    cases h

end Dialogue.Json
