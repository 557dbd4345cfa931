import Mathlib.Data.Stream.Defs
import Dialogue.Proofs.Grammar
import Dialogue.Proofs.Machine
/-!
The engine: what a program does when it is run.

The engine stands in front of the commands that are left.  Most commands do something and pass on to
the next one; a jump goes on behind its label, wherever that is, and the commands that divide a
block pass over the parts of it that are not run.  Blocks nest, so to find the next part of a block
is to count the blocks that are opened and closed on the way (`seek`).

What the program cannot know is asked: whether a condition holds, and what the player takes in a
window.  A window whose choices a script has set up leaves the player's choice in a variable, and a
game may decide conditions by the value of that variable on its own (`Game`).

Sequences of the grammar are passed over as a whole (`Derives.seek_append`).
-/

namespace Dialogue

/-- An answer of the player or of the game. -/
inductive Answer
  /-- Whether a condition holds. -/
  | truth (value : Bool)
  /-- The choice at `index` was taken. -/
  | choice (index : ℕ)
  /-- The window was cancelled. -/
  | cancel
  /-- A window without choices was left. -/
  | nothing
deriving DecidableEq

/-- What can be seen of a dialogue. -/
inductive Event
  /-- A command was carried out. -/
  | performed (opcode : Opcode) (parameters : List Parameter)
  /-- A condition was asked for. -/
  | evaluated (expression : String)
  /-- A window was shown. -/
  | window (parameters : List Parameter)
  /-- A choice of a menu that a script has set up was taken. -/
  | shown (menu : String) (value : Int64)
  /-- The block for a choice of a menu that a script has set up was entered by its test. -/
  | entered (menu : String) (value : Int64)
deriving DecidableEq

/-- What the player does in a menu: the value that stands for it and the outlet. -/
def Menu.route? (m : Menu) : Answer → Option (Int64 × String)
  | .choice i => if i < m.choices.length then some (Int64.ofNat i, choiceHandle i) else none
  | .cancel => if m.cancel = .branch then some (cancelledChoice, cancelHandle) else none
  | .truth _ | .nothing => none

/-- What a game adds to a program. -/
structure Game where
  /-- Decides a condition by the value of the variable that holds the player's choice.  Other
  conditions are asked. -/
  test? : Int64 → String → Option Bool
  /-- The menu whose choices a script sets up and to which a command belongs, by how many commands
  are left with it. -/
  menu? : ℕ → Option (String × Menu)

/-- A game without such menus, in which every condition is asked. -/
def Game.plain : Game where
  test? _ _ := none
  menu? _ := none

/-! ## Blocks -/

/-- Whether a command divides or closes the block of a window. -/
def Opcode.dividesWindow : Opcode → Bool
  | choiceBranch | choiceCancel | choiceBlockEnd => true
  | stop | showText | textLine | showChoices | conditionalBranch | conditionalElse | conditionalEnd
  | label | jumpToLabel | commonEvent | controlSwitches | controlVariables | script | scriptLine
  | pluginCommand => false

/-- Whether a command divides or closes a block. -/
def Opcode.divides : Opcode → Bool
  | choiceBranch | choiceCancel | choiceBlockEnd | conditionalElse | conditionalEnd => true
  | stop | showText | textLine | showChoices | conditionalBranch | label | jumpToLabel
  | commonEvent | controlSwitches | controlVariables | script | scriptLine | pluginCommand => false

/-- Whether a command closes a block. -/
def Opcode.closes (o : Opcode) : Bool :=
  o == .conditionalEnd || o == .choiceBlockEnd

/-- Whether a command opens a block.  A window does if its blocks follow. -/
def Command.opens (c : Command) (rest : List Command) : Bool :=
  c.opcode == .conditionalBranch ||
    c.opcode == .showChoices && rest.head?.any (·.opcode.dividesWindow)

/-- What stands behind the next command of a block that `p` holds of; `level` blocks have been
opened since. -/
def seek (p : Command → Bool) : ℕ → List Command → List Command
  | _, [] => []
  | 0, c :: rest =>
    if p c then rest
    else if c.opens rest then seek p 1 rest
    else if c.opcode.closes then []
    else seek p 0 rest
  | level + 1, c :: rest =>
    if c.opens rest then seek p (level + 2) rest
    else if c.opcode.closes then seek p level rest
    else seek p (level + 1) rest

/-- Whether a command of one of the given kinds stands at depth `indent`. -/
def Command.isAt (indent : UInt32) (opcodes : List Opcode) (c : Command) : Bool :=
  opcodes.contains c.opcode && c.indent == indent

/-- What runs if a condition that is tested at depth `indent` does not hold. -/
def otherwise (indent : UInt32) (rest : List Command) : List Command :=
  seek (Command.isAt indent [.conditionalElse, .conditionalEnd]) 0 rest

/-- What stands behind a conditional at depth `indent`. -/
def pastConditional (indent : UInt32) (rest : List Command) : List Command :=
  seek (Command.isAt indent [.conditionalEnd]) 0 rest

/-- What stands behind the blocks of a window at depth `indent`. -/
def pastWindow (indent : UInt32) (rest : List Command) : List Command :=
  seek (Command.isAt indent [.choiceBlockEnd]) 0 rest

/-- What stands behind the next block of a choice at depth `indent`. -/
def nextChoice (indent : UInt32) (rest : List Command) : List Command :=
  seek (Command.isAt indent [.choiceBranch]) 0 rest

/-- The block of the choice at `index`: so many others stand before it, and it carries that
number. -/
def choiceBlock (indent : UInt32) (index : ℕ) (rest : List Command) : List Command :=
  seek (fun c => c.isAt indent [.choiceBranch] &&
    c.parameters.head? == some (.int (Int64.ofNat index))) 0 ((nextChoice indent)^[index] rest)

/-- The block for cancelling. -/
def cancelBlock (indent : UInt32) (rest : List Command) : List Command :=
  seek (Command.isAt indent [.choiceCancel]) 0 rest

/-! ## Steps -/

/-- The condition of a command that tests one. -/
def Command.expression (c : Command) : String :=
  match c.parameters with
  | [_, .str expression] => expression
  | _ => ""

/-- How many choices a window has of its own. -/
def Command.choiceCount (c : Command) : ℕ :=
  match c.parameters with
  | .list texts :: _ => texts.length
  | _ => 0

/-- Whether a window says that it has a block for cancelling. -/
def Command.hasCancelBlock (c : Command) : Bool :=
  match c.parameters with
  | _ :: .int code :: _ => code == -2
  | _ => false

/-- The engine in front of the commands that are left. -/
structure Engine where
  /-- The commands that are left. -/
  rest : List Command
  /-- The value of the variable that holds the player's choice. -/
  choice : Int64
  /-- The answers that are still to be given. -/
  answers : Stream' Answer

namespace Engine

variable (game : Game) (program : List Command) (s : Engine) (c : Command) (rest : List Command)

/-- Goes on at some commands. -/
def goto (rest : List Command) : Engine :=
  { s with rest }

/-- Goes on at some commands after an answer. -/
def resume (rest : List Command) : Engine :=
  { s with rest, answers := s.answers.tail }

/-- Tests a condition. -/
def test : List Event × Engine :=
  match game.test? s.choice c.expression with
  | some true =>
    ((game.menu? (rest.length + 1)).toList.map fun m => .entered m.1 s.choice, s.goto rest)
  | some false => ([], s.goto (otherwise c.indent rest))
  | none => ([.evaluated c.expression],
      match s.answers.head with
      | .truth true => s.resume rest
      | .truth false => s.resume (otherwise c.indent rest)
      | .choice _ | .cancel | .nothing => s.goto [])

/-- Shows a window with choices of its own. -/
def choose : List Event × Engine :=
  ([.window c.parameters],
    match s.answers.head with
    | .choice i => if i < c.choiceCount then s.resume (choiceBlock c.indent i rest) else s.goto []
    | .cancel => if c.hasCancelBlock then s.resume (cancelBlock c.indent rest) else s.goto []
    | .nothing => if c.choiceCount = 0 then s.resume (pastWindow c.indent rest) else s.goto []
    | .truth _ => s.goto [])

/-- Shows a window whose choices a script has set up. -/
def select : List Event × Engine :=
  match game.menu? (rest.length + 1) with
  | none => ([.window c.parameters], s.goto rest)
  | some (id, m) =>
    match m.route? s.answers.head with
    | some route =>
      ([.window c.parameters, .shown id route.1], { s.resume rest with choice := route.1 })
    | none => ([.window c.parameters], s.goto [])

/-- Carries out one command. -/
def obey : List Event × Engine :=
  match c.opcode with
  | .stop | .label | .conditionalEnd | .choiceBlockEnd => ([], s.goto rest)
  | .jumpToLabel =>
    ([], s.goto (program.dropWhile fun c' =>
      !(c'.opcode == .label && c'.parameters == c.parameters)))
  | .conditionalBranch => s.test game c rest
  | .conditionalElse => ([], s.goto (pastConditional c.indent rest))
  | .showChoices => if c.opens rest then s.choose c rest else s.select game c rest
  | .choiceBranch | .choiceCancel => ([], s.goto (pastWindow c.indent rest))
  | .showText | .textLine | .commonEvent | .controlSwitches | .controlVariables | .script
  | .scriptLine | .pluginCommand => ([.performed c.opcode c.parameters], s.goto rest)

/-- One step: the next command is carried out.  The engine halts when no command is left. -/
def step : Option (List Event × Engine) :=
  match s.rest with
  | [] => none
  | c :: rest => some (s.obey game program c rest)

end Engine

/-! ## Passing over phrases -/

section Seek

variable {p : Command → Bool} {c : Command} {rest : List Command}

lemma seek_found (hp : p c) : seek p 0 (c :: rest) = rest := by
  rw [seek, if_pos hp]

lemma seek_opens (level : ℕ) (hp : p c = false) (hopens : c.opens rest) :
    seek p level (c :: rest) = seek p (level + 1) rest := by
  cases level <;> simp [seek, hp, hopens]

lemma seek_closes (level : ℕ) (hcloses : c.opcode.closes) :
    seek p (level + 1) (c :: rest) = seek p level rest := by
  have hopens : c.opens rest = false := by
    unfold Opcode.closes at hcloses
    cases hc : c.opcode <;> simp_all [Command.opens]
  simp [seek, hcloses, hopens]

lemma seek_passes (level : ℕ) (hp : level = 0 → p c = false) (hopens : c.opens rest = false)
    (hcloses : c.opcode.closes = false) : seek p level (c :: rest) = seek p level rest := by
  cases level with
  | zero => simp [seek, hp rfl, hopens, hcloses]
  | succ level => simp [seek, hopens, hcloses]

variable (hp : ∀ c, p c → c.opcode.divides)

include hp

/-- What is sought divides a block, so no other command is taken for it. -/
lemma eq_false_of_divides (hc : c.opcode.divides = false) : p c = false := by
  by_contra h
  rw [hp c (by simpa using h)] at hc
  cases hc

lemma Simple.seek_append {depth : UInt32} {cs : List Command} (h : Simple depth cs) (level : ℕ)
    (rest : List Command) : seek p level (cs ++ rest) = seek p level rest := by
  have hpass : ∀ c ∈ cs, c.opcode.divides = false ∧ c.opcode.closes = false ∧
      ∀ rest, c.opens rest = false := by
    cases h with
    | label ps => simp [Opcode.divides, Opcode.closes, Command.opens]
    | text ps hlines => simp [Opcode.divides, Opcode.closes, Command.opens]
    | script ps lines => simp [Opcode.divides, Opcode.closes, Command.opens]
    | single ps hopcode =>
      intro c hc
      obtain rfl := List.mem_singleton.1 hc
      simp only [List.mem_cons, List.not_mem_nil, or_false] at hopcode
      rcases hopcode with rfl | rfl | rfl | rfl <;>
        simp [Opcode.divides, Opcode.closes, Command.opens]
  clear h
  induction cs with
  | nil => rfl
  | cons c cs ih =>
    obtain ⟨hdivides, hcloses, hopens⟩ := hpass c (by simp)
    rw [List.cons_append, seek_passes level (fun _ => eq_false_of_divides hp hdivides)
      (hopens _) hcloses]
    exact ih fun c hc => hpass c (by simp [hc])

omit hp

/-- Whether a phrase is a part of the block of a window. -/
def Phrase.isPart : Phrase → Bool
  | branches _ _ | cancelling _ => true
  | body | sequence | tail | dispatch => false

/-- The parts of the block of a window begin with a command that says so. -/
lemma Derives.head?_of_isPart {lacks : Int64 → Prop} {ph : Phrase} {depth : UInt32}
    {cs : List Command} (h : Derives lacks ph depth cs) (hph : ph.isPart)
    (hrest : rest.head?.any (·.opcode.dividesWindow)) :
    (cs ++ rest).head?.any (·.opcode.dividesWindow) := by
  cases h with
  | noBranch => exact hrest
  | noCancel => exact hrest
  | branch => rfl
  | cancel => rfl
  | body | nothing | simple | tail | jump | conditional | menu | dispatch | lastTest | test =>
    cases hph

include hp

/-- A phrase is passed over as a whole: every block that it opens it closes. -/
theorem Derives.seek_append {lacks : Int64 → Prop} {ph : Phrase} {depth : UInt32}
    {cs : List Command} (h : Derives lacks ph depth cs) (level : ℕ) (hlevel : ph.isPart → level ≠ 0)
    (rest : List Command) : seek p level (cs ++ rest) = seek p level rest := by
  -- the level goes up inside a block, where parts of a window are passed over too
  induction h generalizing level rest with
  | body _ ih =>
    rw [List.append_assoc, ih level nofun, List.singleton_append]
    exact seek_passes level (fun _ => eq_false_of_divides hp rfl) rfl rfl
  | nothing => rfl
  | simple hcs _ ih =>
    rw [List.append_assoc, hcs.seek_append hp, ih level nofun]
  | tail _ ih => exact ih level nofun rest
  | jump ps => exact seek_passes level (fun _ => eq_false_of_divides hp rfl) rfl rfl
  | conditional ps _ _ ih₁ ih₂ =>
    simp only [List.cons_append, List.append_assoc, List.nil_append]
    rw [seek_opens level (eq_false_of_divides hp rfl) rfl, ih₁ (level + 1) nofun,
      seek_passes (level + 1) nofun rfl rfl, ih₂ (level + 1) nofun, seek_closes level rfl]
  | menu first position background hchoices hcancel ih₁ ih₂ =>
    simp only [List.cons_append, List.append_assoc, List.nil_append]
    rw [seek_opens level (eq_false_of_divides hp rfl), ih₁ (level + 1) nofun,
      ih₂ (level + 1) nofun, seek_closes level rfl]
    exact hchoices.head?_of_isPart rfl (hcancel.head?_of_isPart rfl rfl)
  | dispatch code first position background hgroups ih =>
    rw [List.cons_append, seek_passes level (fun _ => eq_false_of_divides hp rfl) ?_ rfl,
      ih level nofun]
    cases hgroups <;> rfl
  | noBranch => rfl
  | branch text _ _ ih₁ ih₂ =>
    simp only [List.cons_append, List.append_assoc]
    rw [seek_passes level (fun h => absurd h (hlevel rfl)) rfl rfl, ih₁ level nofun,
      ih₂ level hlevel]
  | noCancel _ => rfl
  | cancel _ ih =>
    rw [List.cons_append, seek_passes level (fun h => absurd h (hlevel rfl)) rfl rfl,
      ih level nofun]
  | lastTest ps _ ih =>
    simp only [List.cons_append, List.append_assoc, List.nil_append]
    rw [seek_opens level (eq_false_of_divides hp rfl) rfl, ih _ nofun, seek_closes level rfl]
  | test ps _ _ ih₁ ih₂ =>
    simp only [List.cons_append, List.append_assoc]
    rw [seek_opens level (eq_false_of_divides hp rfl) rfl, ih₁ _ nofun, seek_closes level rfl,
      ih₂ level nofun]

end Seek

end Dialogue
