import Dialogue.Compile.ChoiceScript
import Dialogue.Proofs.Tokens
/-!
The script language, as far as the compiler writes it.

A script is cut into tokens from left to right.  What its author wrote as a condition is not looked
into: it is one symbol of the script, and whether it holds is given from outside.  All other symbols
are characters, which are read as the script language reads them: names and numbers, operators,
literals with their escapes, and marks.

Two things are understood.  A script may append to the arrays `choices` and `map`, also under a
condition (`run`), and a test may compare a variable of the game with a number (`test?`).  Anything
else is refused, so what is understood means the same to the engine.
-/

namespace Dialogue.Scripting

/-! ## Symbols and tokens -/

/-- A symbol of a script: a character, or a condition. -/
inductive Symbol
  | char (c : Char)
  | condition (expression : String)
deriving DecidableEq

/-- A token of a script. -/
inductive Token
  /-- A name. -/
  | word (name : String)
  /-- A number without sign. -/
  | number (value : Nat)
  /-- An operator. -/
  | operator (sign : String)
  /-- A bracket or another mark. -/
  | mark (c : Char)
  /-- A literal with this text. -/
  | text (value : String)
  /-- A condition. -/
  | condition (expression : String)
deriving DecidableEq

/-- Whether a character can stand in a name or a number. -/
def isWordChar (c : Char) : Bool :=
  c.isAlphanum || c == '_' || c == '$'

/-- Whether a character can stand in an operator. -/
def isOperatorChar (c : Char) : Bool :=
  ['=', '!', '<', '>'].contains c

/-- Whether a character is a token of its own. -/
def isMark (c : Char) : Bool :=
  ['(', ')', '{', '}', '.', ';', '?', ':', '-'].contains c

/-- The character that a letter after a backslash stands for.  Characters without a meaning of their
own stand for themselves.  Digits, the letter `x` and ends of lines would begin other escapes. -/
def escaped? (c : Char) : Option Char :=
  match c with
  | 'b' => some '\x08'
  | 'f' => some '\x0c'
  | 'n' => some '\n'
  | 'r' => some '\r'
  | 't' => some '\t'
  | 'v' => some '\x0b'
  | c => if c.isDigit || ['x', '\n', '\r'].contains c then none else some c

/-- How far a token has been read.  The characters of a token come in reverse. -/
inductive Mode
  /-- No token has been begun. -/
  | between
  /-- In a name or a number. -/
  | word (read : List Char)
  /-- In an operator. -/
  | operator (read : List Char)
  /-- In a literal. -/
  | literal (read : List Char)
  /-- Behind a backslash in a literal. -/
  | escape (read : List Char)
  /-- In an escape by a number, of which some digits have been read. -/
  | digits (read found : List Char)
deriving DecidableEq

/-- A name or a number.  A number has no leading zeros. -/
def wordToken (read : List Char) : Token :=
  let cs := read.reverse
  if Nat.toDigits 10 (Nat.ofDigitChars 10 cs 0) = cs then .number (Nat.ofDigitChars 10 cs 0)
  else .word (String.ofList cs)

/-- An operator. -/
def operatorToken (read : List Char) : Token :=
  .operator (String.ofList read.reverse)

/-- Begins a token with a character, if it does not belong to the one before. -/
def begin? (before : List Token) (c : Char) : Option (List Token × Mode) :=
  if c = ' ' ∨ c = '\n' then some (before, .between)
  else if c = '"' then some (before, .literal [])
  else if isWordChar c then some (before, .word [c])
  else if isOperatorChar c then some (before, .operator [c])
  else if isMark c then some (before ++ [.mark c], .between)
  else none

/-- Reads one symbol: the tokens that end with it, and how far the next one has been read. -/
def Mode.step : Mode → Symbol → Option (List Token × Mode)
  | between, .char c => begin? [] c
  | word read, .char c =>
    if isWordChar c then some ([], .word (c :: read)) else begin? [wordToken read] c
  | operator read, .char c =>
    if isOperatorChar c then some ([], .operator (c :: read)) else begin? [operatorToken read] c
  | literal read, .char c =>
    if c = '"' then some ([.text (String.ofList read.reverse)], .between)
    else if c = '\\' then some ([], .escape read)
    else if c = '\n' ∨ c = '\r' then none
    else some ([], .literal (c :: read))
  | escape read, .char c =>
    if c = 'u' then some ([], .digits read [])
    else (escaped? c).map fun x => ([], .literal (x :: read))
  | digits read [a, b, c], .char d => do
    let n ← Json.hexNumber? a b c d
    if n.isValidChar then some ([], .literal (Char.ofNat n :: read)) else none
  | digits read found, .char c => some ([], .digits read (found ++ [c]))
  | between, .condition e => some ([.condition e], .between)
  | word _, .condition _ | operator _, .condition _ | literal _, .condition _
  | escape _, .condition _ | digits _ _, .condition _ => none

/-- Reads symbols one after the other. -/
def scan : Mode → List Symbol → Option (List Token × Mode)
  | m, [] => some ([], m)
  | m, s :: symbols =>
    (m.step s).bind fun next => (scan next.2 symbols).map fun last => (next.1 ++ last.1, last.2)

/-- The token that ends where the script ends. -/
def Mode.last? : Mode → Option (List Token)
  | between => some []
  | word read => some [wordToken read]
  | operator read => some [operatorToken read]
  | literal _ | escape _ | digits _ _ => none

/-- The tokens of a script. -/
def tokens? (symbols : List Symbol) : Option (List Token) :=
  (scan .between symbols).bind fun last => last.2.last?.map fun t => last.1 ++ t

/-! ## What scripts do -/

/-- The two arrays that a script fills. -/
structure Arrays where
  choices : List String := []
  map : List Nat := []
deriving DecidableEq

/-- Appends to the first array, if all blocks around are entered. -/
def Arrays.pushChoice (a : Arrays) (entered : List Bool) (text : String) : Arrays :=
  if entered.all id then { a with choices := a.choices ++ [text] } else a

/-- Appends to the second array, if all blocks around are entered. -/
def Arrays.pushPlace (a : Arrays) (entered : List Bool) (place : Nat) : Arrays :=
  if entered.all id then { a with map := a.map ++ [place] } else a

/-- Runs a script inside of some blocks, of which it is known whether they are entered. -/
def run (holds : String → Bool) : List Token → List Bool → Arrays → Option Arrays
  | [], [], a => some a
  | .word "if" :: .mark '(' :: .operator "!" :: .mark '(' :: .condition e :: .mark ')' ::
      .mark ')' :: .mark '{' :: rest, entered, a =>
    run holds rest ((!holds e) :: entered) a
  | .mark '}' :: rest, _ :: entered, a => run holds rest entered a
  | .word "choices" :: .mark '.' :: .word "push" :: .mark '(' :: .text text :: .mark ')' ::
      .mark ';' :: rest, entered, a =>
    run holds rest entered (a.pushChoice entered text)
  | .word "choices" :: .mark '.' :: .word "push" :: .mark '(' :: .mark '(' :: .condition e ::
      .mark ')' :: .mark '?' :: .text yes :: .mark ':' :: .text no :: .mark ')' :: .mark ';' ::
      rest, entered, a =>
    run holds rest entered (a.pushChoice entered (if holds e then yes else no))
  | .word "map" :: .mark '.' :: .word "push" :: .mark '(' :: .number place :: .mark ')' ::
      .mark ';' :: rest, entered, a =>
    run holds rest entered (a.pushPlace entered place)
  | _, _, _ => none

lemma run_nil (holds : String → Bool) (a : Arrays) : run holds [] [] a = some a := rfl

/-- A block ends. -/
lemma run_close (holds : String → Bool) (rest : List Token) (b : Bool) (entered : List Bool)
    (a : Arrays) : run holds (.mark '}' :: rest) (b :: entered) a = run holds rest entered a := rfl

/-- Whether a test holds in a game whose variables have some values. -/
def test? (value : Nat → Int) : List Token → Option Bool
  | [.word "$gameVariables", .mark '.', .word "value", .mark '(', .number id, .mark ')',
      .operator "==", .number n] => some (value id = n)
  | [.word "$gameVariables", .mark '.', .word "value", .mark '(', .number id, .mark ')',
      .operator "==", .mark '-', .number n] => some (value id = -n)
  | _ => none

/-! ## Reading -/

/-- A text as symbols, each of its characters one. -/
def spell (s : String) : List Symbol :=
  s.toList.map .char

lemma scan_cons {m m' m'' : Mode} {s : Symbol} {symbols : List Symbol} {found more : List Token}
    (h : m.step s = some (found, m')) (h' : scan m' symbols = some (more, m'')) :
    scan m (s :: symbols) = some (found ++ more, m'') := by
  rw [scan, h, Option.bind_some, h']
  rfl

/-- A symbol with which no token ends. -/
lemma scan_quiet {m m' : Mode} {s : Symbol} {symbols : List Symbol}
    (h : m.step s = some ([], m')) : scan m (s :: symbols) = scan m' symbols := by
  rw [scan, h, Option.bind_some]
  simp

lemma scan_append {m m' m'' : Mode} {symbols symbols' : List Symbol} {found more : List Token}
    (h : scan m symbols = some (found, m')) (h' : scan m' symbols' = some (more, m'')) :
    scan m (symbols ++ symbols') = some (found ++ more, m'') := by
  induction symbols generalizing m found with
  | nil =>
    obtain ⟨rfl, rfl⟩ := Prod.mk.inj (Option.some.inj h)
    exact h'
  | cons s symbols ih =>
    obtain ⟨⟨first, m₁⟩, hstep, h⟩ := Option.bind_eq_some_iff.1 h
    obtain ⟨⟨others, m₂⟩, hscan, h⟩ := Option.map_eq_some_iff.1 h
    obtain ⟨rfl, rfl⟩ := Prod.mk.inj h
    rw [List.append_assoc]
    exact scan_cons hstep (ih hscan)

/-- The tokens of a script that is read up to its end. -/
lemma tokens?_of_scan {symbols : List Symbol} {found last : List Token} {m : Mode}
    (h : scan .between symbols = some (found, m)) (hm : m.last? = some last) :
    tokens? symbols = some (found ++ last) := by
  rw [tokens?, h, Option.bind_some, hm]
  rfl

/-! ### Numbers -/

lemma wordToken_toDigits (n : Nat) : wordToken (Nat.toDigits 10 n).reverse = .number n := by
  simp only [wordToken, List.reverse_reverse, Nat.ofDigitChars_ten_toDigits, if_true]

lemma isWordChar_of_isDigit {c : Char} (h : c.isDigit) : isWordChar c := by
  simp [isWordChar, Char.isAlphanum, h]

lemma scan_word {cs : List Char} (hcs : ∀ c ∈ cs, isWordChar c) (read : List Char) :
    scan (.word read) (cs.map .char) = some ([], .word (cs.reverse ++ read)) := by
  induction cs generalizing read with
  | nil => rfl
  | cons c cs ih =>
    have hstep : Mode.step (.word read) (.char c) = some ([], .word (c :: read)) :=
      if_pos (hcs c List.mem_cons_self)
    rw [List.map_cons, scan_quiet hstep, ih fun x hx => hcs x (List.mem_cons_of_mem _ hx)]
    simp

/-- A number is read up to its last digit. -/
lemma scan_number (n : Nat) :
    scan .between (spell (toString n)) = some ([], .word (Nat.toDigits 10 n).reverse) := by
  have hdigit : ∀ c ∈ Nat.toDigits 10 n, c.isDigit :=
    fun c hc => Nat.isDigit_of_mem_toDigits (by decide) (by decide) hc
  rw [spell, Nat.toString_eq_ofList_toDigits, String.toList_ofList]
  obtain ⟨d, ds, hds⟩ := List.exists_cons_of_ne_nil (Nat.toDigits_ne_nil (n := n) (b := 10))
  rw [hds] at hdigit ⊢
  have hstep : Mode.step .between (.char d) = some ([], .word [d]) := by
    have hd := hdigit d List.mem_cons_self
    have hblank : ¬(d = ' ' ∨ d = '\n') := by rintro (rfl | rfl) <;> cases hd
    have hquote : d ≠ '"' := by rintro rfl; cases hd
    rw [Mode.step, begin?, if_neg hblank, if_neg hquote, if_pos (isWordChar_of_isDigit hd)]
  have hds' : ∀ c ∈ ds, isWordChar c :=
    fun c hc => isWordChar_of_isDigit (hdigit c (List.mem_cons_of_mem _ hc))
  rw [List.map_cons, scan_quiet hstep, scan_word hds', List.reverse_cons]

/-! ### Literals -/

lemma toList_literal (s : String) :
    (literal s).toList = '"' :: (s.toList.flatMap Json.escapeChar ++ ['"']) := by
  rw [literal, Json.compact, String.toList_ofList, Json.write]
  rfl

/-- A character that is written with its escape is read as the character. -/
lemma scan_escapeChar (c : Char) (read : List Char) :
    scan (.literal read) ((Json.escapeChar c).map .char) = some ([], .literal (c :: read)) := by
  unfold Json.escapeChar
  split
  all_goals try rfl
  next hquote hslash _ _ hfeed hreturn _ =>
    split
    · next hcontrol =>
      obtain ⟨hhex, -, -⟩ := Json.hexNumber?_hexDigit c.toNat hcontrol
      have hvalid : c.toNat.isValidChar := .inl (by omega)
      have hlast : Mode.step (.digits read ['0', '0', Json.hexDigit (c.toNat / 16)])
          (.char (Json.hexDigit c.toNat)) = some ([], .literal (c :: read)) := by
        rw [Mode.step, hhex, Option.bind_eq_bind, Option.bind_some, if_pos hvalid, Char.ofNat_toNat]
      exact Eq.trans (scan_quiet rfl) <| Eq.trans (scan_quiet rfl) <| Eq.trans (scan_quiet rfl) <|
        Eq.trans (scan_quiet rfl) <| Eq.trans (scan_quiet rfl) (scan_quiet hlast)
    · next hcontrol =>
      have hstep : Mode.step (.literal read) (.char c) = some ([], .literal (c :: read)) := by
        rw [Mode.step, if_neg (by simpa using hquote), if_neg (by simpa using hslash),
          if_neg (by rintro (h | h); exacts [hfeed h, hreturn h])]
      exact scan_quiet hstep

/-- A text that is written as a literal is read as the text. -/
theorem scan_literal (s : String) :
    scan .between (spell (literal s)) = some ([.text s], .between) := by
  have hbody : ∀ (cs read : List Char), scan (.literal read)
      ((cs.flatMap Json.escapeChar).map .char) = some ([], .literal (cs.reverse ++ read)) := by
    intro cs
    induction cs with
    | nil => exact fun _ => rfl
    | cons c cs ih =>
      intro read
      rw [List.flatMap_cons, List.map_append]
      simpa using scan_append (scan_escapeChar c read) (ih (c :: read))
  have hquote : scan (.literal (s.toList.reverse ++ [])) [.char '"'] =
      some ([.text s], .between) := by
    simp [scan, Mode.step]
  rw [spell, toList_literal, List.map_cons, List.map_append]
  exact Eq.trans (scan_quiet rfl) (scan_append (hbody s.toList []) hquote)

/-- The places of the quotes in a text that no backslash takes their meaning; the first character
has place `k`. -/
def bareQuotes (k : Nat) : List Char → List Nat
  | [] => []
  | '\\' :: _ :: cs => bareQuotes (k + 2) cs
  | '"' :: cs => k :: bareQuotes (k + 1) cs
  | _ :: cs => bareQuotes (k + 1) cs

lemma bareQuotes_cons {c : Char} (hquote : c ≠ '"') (hslash : c ≠ '\\') (k : Nat)
    (rest : List Char) : bareQuotes k (c :: rest) = bareQuotes (k + 1) rest := by
  rw [bareQuotes]
  · exact fun _ _ hc _ => hslash hc
  · exact hquote

lemma hexDigit_plain (n : Nat) :
    Json.hexDigit n ≠ '"' ∧ Json.hexDigit n ≠ '\\' ∧ 0x20 ≤ (Json.hexDigit n).toNat := by
  have hdigit : ∀ m < 16, Nat.digitChar m ≠ '"' ∧ Nat.digitChar m ≠ '\\' ∧
      0x20 ≤ (Nat.digitChar m).toNat := by
    decide
  exact hdigit (n % 16) (Nat.mod_lt n (by decide))

/-- A character that is written with its escape is no bare quote. -/
lemma bareQuotes_escapeChar (c : Char) (k : Nat) (rest : List Char) :
    bareQuotes k (Json.escapeChar c ++ rest) =
      bareQuotes (k + (Json.escapeChar c).length) rest := by
  unfold Json.escapeChar
  split
  all_goals try rfl
  next hquote hslash _ _ _ _ _ =>
    split
    · obtain ⟨hhigh, hhigh', -⟩ := hexDigit_plain (c.toNat / 16)
      obtain ⟨hlow, hlow', -⟩ := hexDigit_plain c.toNat
      change bareQuotes (k + 2) ('0' :: '0' :: _ :: _ :: rest) = _
      rw [bareQuotes_cons (by decide) (by decide), bareQuotes_cons (by decide) (by decide),
        bareQuotes_cons hhigh hhigh', bareQuotes_cons hlow hlow']
      rfl
    · exact bareQuotes_cons hquote hslash k rest

/-- The bare quotes of a literal are its first and its last character. -/
theorem bareQuotes_literal (s : String) :
    bareQuotes 0 (literal s).toList = [0, (literal s).toList.length - 1] := by
  have hbody : ∀ (cs : List Char) (k : Nat), bareQuotes k (cs.flatMap Json.escapeChar ++ ['"']) =
      [k + (cs.flatMap Json.escapeChar).length] := by
    intro cs
    induction cs with
    | nil => exact fun _ => rfl
    | cons c cs ih =>
      intro k
      rw [List.flatMap_cons, List.append_assoc, bareQuotes_escapeChar, ih, List.length_append,
        Nat.add_assoc]
  rw [toList_literal, bareQuotes, hbody]
  simp [Nat.add_comm]

lemma le_toNat_of_mem_escapeChar {c x : Char} (h : x ∈ Json.escapeChar c) : 0x20 ≤ x.toNat := by
  unfold Json.escapeChar at h
  split at h
  case h_8 =>
    split at h
    · simp only [List.mem_cons, List.not_mem_nil, or_false] at h
      rcases h with rfl | rfl | rfl | rfl | rfl | rfl
      all_goals first | decide | exact (hexDigit_plain _).2.2
    · next hcontrol =>
      obtain rfl := List.mem_singleton.1 h
      omega
  all_goals
    simp only [List.mem_cons, List.not_mem_nil, or_false] at h
    rcases h with rfl | rfl <;> decide

/-- A literal holds no control character. -/
theorem le_toNat_of_mem_literal {s : String} {x : Char} (h : x ∈ (literal s).toList) :
    0x20 ≤ x.toNat := by
  rw [toList_literal, List.mem_cons, List.mem_append, List.mem_singleton] at h
  rcases h with rfl | h | rfl
  · decide
  · obtain ⟨c, -, h⟩ := List.mem_flatMap.1 h
    exact le_toNat_of_mem_escapeChar h
  · decide

/-- A literal stands for a text and cannot be left before its end: all its characters can be
written on one line, no quote inside of it is bare, and it is read as the text. -/
structure Quotes (literal text : String) : Prop where
  le_toNat : ∀ x ∈ literal.toList, 0x20 ≤ x.toNat
  bareQuotes_eq : bareQuotes 0 literal.toList = [0, literal.toList.length - 1]
  tokens?_eq : tokens? (spell literal) = some [.text text]

lemma quotes_literal (s : String) : Quotes (literal s) s where
  le_toNat _ := le_toNat_of_mem_literal
  bareQuotes_eq := bareQuotes_literal s
  tokens?_eq := tokens?_of_scan (scan_literal s) rfl

end Dialogue.Scripting
