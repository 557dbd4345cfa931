import Mathlib.Data.List.Chain
import Dialogue.Proofs.Coverage
/-!
The grammar of programs.

A program is a sequence of simple commands that ends in at most one command that branches or jumps,
and the blocks of a branching command are again such sequences, one level deeper, each closed by an
end.  `Derives` is this grammar; its phrases carry what a block has to agree on with the command
that opens it, such as the texts of a window.

Every tree of a forest is a sequence (`Forest.Follows.derives_codes`): a layout puts sequences into
the blocks that it opens, so the induction is on the forest and the cases are the kinds of nodes.
What the grammar says about neighbours in a program is then proved on the grammar alone.
-/

namespace Dialogue

/-- One simple command, with the lines that belong to it. -/
inductive Simple (depth : UInt32) : List Command → Prop
  | label (ps : List Parameter) : Simple depth [⟨.label, depth, ps⟩]
  | text (ps : List Parameter) {lines : List (List Parameter)} : lines ≠ [] →
      Simple depth (⟨.showText, depth, ps⟩ :: lines.map fun line => ⟨.textLine, depth, line⟩)
  | script (ps : List Parameter) (lines : List (List Parameter)) :
      Simple depth (⟨.script, depth, ps⟩ :: lines.map fun line => ⟨.scriptLine, depth, line⟩)
  | single {opcode : Opcode} (ps : List Parameter) :
      opcode ∈ [.commonEvent, .controlSwitches, .controlVariables, .pluginCommand] →
      Simple depth [⟨opcode, depth, ps⟩]

/-- The phrases of a program. -/
inductive Phrase
  /-- A sequence and the end that closes it. -/
  | body
  /-- Simple commands, and at most one tail. -/
  | sequence
  /-- A command that branches or jumps, with its blocks. -/
  | tail
  /-- The blocks of the choices with the given texts; the first of them has number `i`. -/
  | branches (i : Nat) (texts : List String)
  /-- The block for cancelling, if the window has the given code for that. -/
  | cancelling (code : Int64)
  /-- One or more conditionals without an alternative. -/
  | dispatch

/-- A list of commands is a phrase of a program at a depth.  Where a window has no block for
cancelling, `lacks` holds of its code. -/
inductive Derives (lacks : Int64 → Prop) : Phrase → UInt32 → List Command → Prop
  | body {depth cs} : Derives lacks .sequence depth cs →
      Derives lacks .body depth (cs ++ [.stop depth])
  | nothing {depth} : Derives lacks .sequence depth []
  | simple {depth cs rest} : Simple depth cs → Derives lacks .sequence depth rest →
      Derives lacks .sequence depth (cs ++ rest)
  | tail {depth cs} : Derives lacks .tail depth cs → Derives lacks .sequence depth cs
  | jump {depth} (ps : List Parameter) : Derives lacks .tail depth [⟨.jumpToLabel, depth, ps⟩]
  | conditional {depth yes no} (ps : List Parameter) :
      Derives lacks .body (depth + 1) yes → Derives lacks .body (depth + 1) no →
      Derives lacks .tail depth (⟨.conditionalBranch, depth, ps⟩ :: yes ++
        .conditionalElse depth :: no ++ [.conditionalEnd depth])
  | menu {depth texts code choices cancel} (first position background : Int64) :
      Derives lacks (.branches 0 texts) depth choices →
      Derives lacks (.cancelling code) depth cancel →
      Derives lacks .tail depth (.showChoices depth texts code first position background ::
        choices ++ cancel ++ [.choiceBlockEnd depth])
  | dispatch {depth groups} (code first position background : Int64) :
      Derives lacks .dispatch depth groups →
      Derives lacks .tail depth (.showChoices depth [] code first position background :: groups)
  | noBranch {depth i} : Derives lacks (.branches i []) depth []
  | branch {depth i texts cs rest} (text : String) : Derives lacks .body (depth + 1) cs →
      Derives lacks (.branches (i + 1) texts) depth rest →
      Derives lacks (.branches i (text :: texts)) depth (.choiceBranch depth i text :: cs ++ rest)
  | noCancel {depth code} : lacks code → Derives lacks (.cancelling code) depth []
  | cancel {depth cs} : Derives lacks .body (depth + 1) cs →
      Derives lacks (.cancelling (-2)) depth (.choiceCancel depth :: cs)
  | lastTest {depth cs} (ps : List Parameter) : Derives lacks .body (depth + 1) cs →
      Derives lacks .dispatch depth
        (⟨.conditionalBranch, depth, ps⟩ :: cs ++ [.conditionalEnd depth])
  | test {depth cs rest} (ps : List Parameter) : Derives lacks .body (depth + 1) cs →
      Derives lacks .dispatch depth rest →
      Derives lacks .dispatch depth
        (⟨.conditionalBranch, depth, ps⟩ :: cs ++ .conditionalEnd depth :: rest)

/-! ## The commands of a node -/

namespace Derives

variable {lacks : Int64 → Prop} {depth : UInt32} {rest : List Command}

lemma message_append (m : Message) (h : Derives lacks .sequence depth rest) :
    Derives lacks .sequence depth (m.commands depth ++ rest) := by
  refine .simple ?_ h
  have hlines : ∃ lines : List String, lines ≠ [] ∧
      m.commands depth = .showText depth m.faceName m.faceIndex m.background m.position ::
        lines.map (.textLine depth) := by
    rw [Message.commands]
    split
    · exact ⟨[""], by simp, rfl⟩
    · next h' => exact ⟨_, h', rfl⟩
  obtain ⟨lines, hne, heq⟩ := hlines
  have htext : Simple depth (.showText depth m.faceName m.faceIndex m.background m.position ::
      (lines.map fun line => [Parameter.str line]).map fun line => ⟨.textLine, depth, line⟩) :=
    .text _ (by simpa using hne)
  rw [List.map_map] at htext
  rw [heq]
  exact htext

lemma script_append (code : String) (h : Derives lacks .sequence depth rest) :
    Derives lacks .sequence depth (Command.script depth code ++ rest) := by
  refine .simple ?_ h
  rw [Command.script]
  split
  · exact .script [.str ""] []
  · next first lines _ =>
    have hscript := @Simple.script depth [.str first] (lines.map fun line => [.str line])
    rwa [List.map_map] at hscript

lemma action_append (a : Action) (h : Derives lacks .sequence depth rest) :
    Derives lacks .sequence depth (a.commands depth ++ rest) := by
  cases a with
  | script code => exact script_append code h
  | showText m => exact message_append m h
  | setVariable id operation value => exact .simple (.single _ (by decide)) h
  | setSwitch id on => exact .simple (.single _ (by decide)) h
  | commonEvent id => exact .simple (.single _ (by decide)) h
  | pluginCommand plugin command args => exact .simple (.single _ (by decide)) h

lemma actions_append (actions : List Action) (h : Derives lacks .sequence depth rest) :
    Derives lacks .sequence depth (actions.flatMap (Action.commands depth) ++ rest) := by
  induction actions with
  | nil => exact h
  | cons a as ih =>
    rw [List.flatMap_cons, List.append_assoc]
    exact action_append a ih

lemma prompt_append (m : Menu) (h : Derives lacks .sequence depth rest) :
    Derives lacks .sequence depth (m.promptCommands depth ++ rest) := by
  rw [Menu.promptCommands]
  split
  · exact message_append _ h
  · exact h

lemma labelAt_append {d : Document} (id : String) (h : Derives lacks .sequence depth rest) :
    Derives lacks .sequence depth (d.labelAt depth id ++ rest) := by
  rw [Document.labelAt]
  split
  · exact .simple (.label _) h
  · exact h

end Derives

namespace Derives

variable {lacks : Int64 → Prop} {d : Document} {indent : UInt32} {bodies : List (List Command)}

lemma fill_passing {head : List Command} {target : Option String}
    (hhead : ∀ rest, Derives lacks .sequence indent rest →
      Derives lacks .sequence indent (head ++ rest))
    (hlength : bodies.length = (Document.passingLayout head target indent).slots.length)
    (hbodies : ∀ body ∈ bodies, Derives lacks .sequence indent body) :
    Derives lacks .sequence indent
      ((Document.passingLayout head target indent).fill id bodies) := by
  obtain ⟨inside, rfl⟩ := List.length_eq_one_iff.1 hlength
  simpa [Layout.fill, weave, Document.passingLayout] using hhead inside (hbodies inside (by simp))

lemma fill_condition {owner : String} {condition : Condition}
    (hlength : bodies.length = (d.conditionLayout owner condition indent).slots.length)
    (hbodies : ∀ body ∈ bodies, Derives lacks .sequence (indent + 1) body) :
    Derives lacks .sequence indent ((d.conditionLayout owner condition indent).fill id bodies) := by
  obtain ⟨yes, no, rfl⟩ := List.length_eq_two.1 hlength
  have hyes : Derives lacks .body (indent + 1) (yes ++ [.stop (indent + 1)]) :=
    body (hbodies yes (by simp))
  have hno : Derives lacks .body (indent + 1) (no ++ [.stop (indent + 1)]) :=
    body (hbodies no (by simp))
  simpa [Layout.fill, weave, Document.conditionLayout, Slot.block, Command.conditionalBranch]
    using tail (conditional [.int Command.scriptCondition, .str condition.expression] hyes hno)

lemma weave_choices (owner : String) (i : Nat) {choices : List Choice}
    (hlength : bodies.length = choices.length)
    (hbodies : ∀ body ∈ bodies, Derives lacks .sequence (indent + 1) body) :
    Derives lacks (.branches i (choices.map Choice.text)) indent
      (weave id (d.choiceSlots owner indent i choices) bodies) := by
  induction choices generalizing i bodies with
  | nil => exact noBranch
  | cons c cs ih =>
    obtain ⟨inside, rest, rfl⟩ := List.exists_cons_of_length_eq_add_one hlength
    have hrest := ih (i + 1) (Nat.succ.inj hlength) fun body hbody => hbodies body (by simp [hbody])
    simpa [weave, Document.choiceSlots, Slot.block] using
      branch c.text (body (hbodies inside (by simp))) hrest

lemma weave_cancel (owner : String) {m : Menu}
    (hlacks : m.cancel ≠ .branch → lacks (m.cancel.code m.choices.length))
    (hlength : bodies.length = (d.cancelSlots owner m indent).length)
    (hbodies : ∀ body ∈ bodies, Derives lacks .sequence (indent + 1) body) :
    Derives lacks (.cancelling (m.cancel.code m.choices.length)) indent
      (weave id (d.cancelSlots owner m indent) bodies) := by
  by_cases hcancel : m.cancel = .branch
  · rw [Document.cancelSlots_branch hcancel] at hlength ⊢
    obtain ⟨inside, rfl⟩ := List.length_eq_one_iff.1 hlength
    simpa [weave, Slot.block, CancelMode.code, hcancel] using
      cancel (body (hbodies inside (by simp)))
  · rw [Document.cancelSlots_of_ne hcancel]
    exact noCancel (hlacks hcancel)

lemma fill_staticMenu {owner : String} {m : Menu}
    (hlacks : m.cancel ≠ .branch → lacks (m.cancel.code m.choices.length))
    (hlength : bodies.length = (d.staticMenuLayout owner m indent).slots.length)
    (hbodies : ∀ body ∈ bodies, Derives lacks .sequence (indent + 1) body) :
    Derives lacks .sequence indent ((d.staticMenuLayout owner m indent).fill id bodies) := by
  obtain ⟨taken, cancelled, rfl, htaken, hcancelled⟩ :=
    Document.exists_append_of_staticMenu hlength
  have hwindow := menu 0 m.position m.background
    (weave_choices (d := d) owner 0 htaken fun body hbody => hbodies body (by simp [hbody]))
    (weave_cancel (d := d) owner hlacks hcancelled
      fun body hbody => hbodies body (by simp [hbody]))
  simp only [Layout.fill, Document.staticMenuLayout,
    weave_append _ (htaken.trans (Document.length_choiceSlots owner indent 0 m.choices).symm)]
  simpa [Menu.window] using prompt_append m (tail hwindow)

lemma weave_selections {routes : List (Int64 × Option String)} (hne : routes ≠ [])
    (hlength : bodies.length = routes.length)
    (hbodies : ∀ body ∈ bodies, Derives lacks .sequence (indent + 1) body) :
    Derives lacks .dispatch indent
      (weave id (routes.map fun r => Document.selectionSlot indent r.1 r.2) bodies) := by
  induction routes generalizing bodies with
  | nil => contradiction
  | cons r rs ih =>
    obtain ⟨inside, rest, rfl⟩ := List.exists_cons_of_length_eq_add_one hlength
    have hinside := body (hbodies inside (by simp))
    cases rs with
    | nil =>
      obtain rfl : rest = [] := by simpa using hlength
      simpa [weave, Document.selectionSlot, Slot.block, Command.conditionalBranch] using
        lastTest _ hinside
    | cons r' rs =>
      have hrest := ih (by simp) (Nat.succ.inj hlength) fun body hbody =>
        hbodies body (by simp [hbody])
      simpa [weave, Document.selectionSlot, Slot.block, Command.conditionalBranch] using
        test _ hinside hrest

lemma fill_dynamicMenu (options : Options) {owner : String} {m : Menu} (hm : m.isDynamic)
    (hlength : bodies.length = (d.dynamicMenuLayout options owner m indent).slots.length)
    (hbodies : ∀ body ∈ bodies, Derives lacks .sequence (indent + 1) body) :
    Derives lacks .sequence indent
      ((d.dynamicMenuLayout options owner m indent).fill id bodies) := by
  have hroutes : m.routes ≠ [] := by
    obtain ⟨c, hc, -⟩ := List.any_eq_true.1 hm
    have hne : m.choices ≠ [] := List.ne_nil_of_mem hc
    simp [Menu.routes, hne]
  have hgroups := @weave_selections lacks indent bodies
    (m.routes.map fun r => (r.1, d.targetAt? owner r.2)) (by simpa using hroutes)
    (by simpa [Document.dynamicMenuLayout] using hlength) hbodies
  have htail := tail (dispatch (m.cancel.code 0) 0 m.position m.background hgroups)
  rw [List.map_map] at htail
  simpa [Layout.fill, Document.dynamicMenuLayout, Menu.emptyWindow, Function.comp_def] using
    prompt_append m (script_append (m.script options.disabledMark) htail)

/-- A layout that is filled with sequences is a sequence. -/
theorem fill_layout (options : Options) {n : Node}
    (hlacks : ∀ m, n.kind = .menu m → m.cancel ≠ .branch →
      lacks (m.cancel.code m.choices.length))
    (hlength : bodies.length = (d.layout options n indent).slots.length)
    (hbodies : ∀ body ∈ bodies, Derives lacks .sequence (d.layout options n indent).depth body) :
    Derives lacks .sequence indent ((d.layout options n indent).fill id bodies) := by
  rw [Document.layout] at hlength hbodies ⊢
  split at hlength
  · rename_i hmuted
    rw [if_pos hmuted] at hbodies ⊢
    exact fill_passing (fun rest h => h) hlength hbodies
  · rename_i hmuted
    rw [if_neg hmuted] at hbodies ⊢
    cases hkind : n.kind <;> rw [hkind] at hlength hbodies <;> dsimp only at hlength hbodies ⊢
    case start => exact fill_passing (fun rest h => h) hlength hbodies
    case action actions =>
      exact fill_passing (fun rest h => actions_append actions h) hlength hbodies
    case condition condition => exact fill_condition hlength hbodies
    case menu m =>
      split at hlength
      · rename_i hdynamic
        rw [if_pos hdynamic] at hbodies ⊢
        exact fill_dynamicMenu options hdynamic hlength hbodies
      · rename_i hstatic
        rw [if_neg hstatic] at hbodies ⊢
        exact fill_staticMenu (hlacks m hkind) hlength hbodies
    all_goals exact nothing

end Derives

/-- The trees of a forest are sequences. -/
theorem Forest.Follows.derives_codes {lacks : Int64 → Prop} {d : Document} {options : Options}
    (hlacks : ∀ n ∈ d.nodes, ∀ m, n.kind = .menu m → m.cancel ≠ .branch →
      lacks (m.cancel.code m.choices.length))
    {targets : List (Option String)} {f : Forest} (h : Follows d targets f) {indent : UInt32}
    {code : List Command} (hcode : code ∈ f.codes d options indent) :
    Derives lacks .sequence indent code := by
  induction h generalizing indent code with
  | nil => cases hcode
  | dead _ _ ih =>
    rcases List.mem_cons.1 hcode with rfl | hcode
    · exact .nothing
    · exact ih hcode
  | jump _ _ ih =>
    rcases List.mem_cons.1 hcode with rfl | hcode
    · exact .tail (.jump _)
    · exact ih hcode
  | @enter target targets n g f hn hg _ ih₁ ih₂ =>
    rw [codes_enter] at hcode
    rcases List.mem_cons.1 hcode with rfl | hcode
    · have hmem : n ∈ d.nodes := Document.mem_nodes_of_node? (Document.nodeAt?_eq_some hn).2
      refine .labelAt_append n.id (.fill_layout options (hlacks n hmem) ?_ ?_)
      · rw [codes, List.length_map, hg.length_bodies options indent]
      · exact fun body hbody => ih₁ hbody
    · exact ih₂ hcode

/-! ## Neighbours -/

/-- What stands behind a jump is the end of its block. -/
def Command.EndsAfterJump (c c' : Command) : Prop :=
  c.opcode = .jumpToLabel → c' = .stop c.indent

lemma isChain_cons_of_ne_jump {c : Command} {cs : List Command} (hc : c.opcode ≠ .jumpToLabel)
    (h : cs.IsChain Command.EndsAfterJump) : (c :: cs).IsChain Command.EndsAfterJump := by
  rw [List.isChain_cons]
  exact ⟨fun c' _ hjump => absurd hjump hc, h⟩

lemma Simple.isChain_append {depth : UInt32} {cs : List Command} (hcs : Simple depth cs)
    {rest : List Command} (h : rest.IsChain Command.EndsAfterJump) :
    (cs ++ rest).IsChain Command.EndsAfterJump := by
  have hne : ∀ c ∈ cs, c.opcode ≠ .jumpToLabel := by
    cases hcs with
    | label ps => simp
    | text ps hlines => simp
    | script ps lines => simp
    | single ps hopcode =>
      intro c hc
      obtain rfl := List.mem_singleton.1 hc
      rintro rfl
      simp at hopcode
  clear hcs
  induction cs with
  | nil => exact h
  | cons c cs ih =>
    exact isChain_cons_of_ne_jump (hne c (by simp)) (ih fun c hc => hne c (by simp [hc]))

/-- What may stand behind a phrase: the end of its block, if the phrase does not bring it along. -/
def Phrase.ClosedBy (depth : UInt32) (rest : List Command) : Phrase → Prop
  | sequence | tail => rest.head? = some (.stop depth)
  | body | branches _ _ | cancelling _ | dispatch => True

lemma Derives.isChain_append {lacks : Int64 → Prop} {p : Phrase} {depth : UInt32}
    {cs rest : List Command} (h : Derives lacks p depth cs)
    (hrest : rest.IsChain Command.EndsAfterJump)
    (hclosed : p.ClosedBy depth rest) : (cs ++ rest).IsChain Command.EndsAfterJump := by
  induction h generalizing rest with
  | body _ ih =>
    rw [List.append_assoc]
    exact ih (isChain_cons_of_ne_jump nofun hrest) rfl
  | nothing => exact hrest
  | simple hcs _ ih =>
    rw [List.append_assoc]
    exact hcs.isChain_append (ih hrest hclosed)
  | tail _ ih => exact ih hrest hclosed
  | jump ps =>
    -- the only place where a jump is added: what stands behind it closes its block
    rw [List.singleton_append, List.isChain_cons]
    exact ⟨fun c hc _ => Option.some.inj (hc.symm.trans hclosed), hrest⟩
  | conditional ps _ _ ih₁ ih₂ =>
    simp only [List.cons_append, List.append_assoc, List.nil_append]
    exact isChain_cons_of_ne_jump nofun (ih₁ (isChain_cons_of_ne_jump nofun
      (ih₂ (isChain_cons_of_ne_jump nofun hrest) trivial)) trivial)
  | menu first position background _ _ ih₁ ih₂ =>
    simp only [List.cons_append, List.append_assoc, List.nil_append]
    exact isChain_cons_of_ne_jump nofun
      (ih₁ (ih₂ (isChain_cons_of_ne_jump nofun hrest) trivial) trivial)
  | dispatch code first position background _ ih =>
    exact isChain_cons_of_ne_jump nofun (ih hrest trivial)
  | noBranch => exact hrest
  | branch text _ _ ih₁ ih₂ =>
    simp only [List.cons_append, List.append_assoc]
    exact isChain_cons_of_ne_jump nofun (ih₁ (ih₂ hrest trivial) trivial)
  | noCancel _ => exact hrest
  | cancel _ ih => exact isChain_cons_of_ne_jump nofun (ih hrest trivial)
  | lastTest ps _ ih =>
    simp only [List.cons_append, List.append_assoc, List.nil_append]
    exact isChain_cons_of_ne_jump nofun (ih (isChain_cons_of_ne_jump nofun hrest) trivial)
  | test ps _ _ ih₁ ih₂ =>
    simp only [List.cons_append, List.append_assoc]
    exact isChain_cons_of_ne_jump nofun
      (ih₁ (isChain_cons_of_ne_jump nofun (ih₂ hrest trivial)) trivial)

/-! ## Ends -/

/-- No menu has more choices than a number of a command can count. -/
def Document.MenusFit (d : Document) : Prop :=
  ∀ n ∈ d.nodes, ∀ m, n.kind = .menu m → m.choices.length < 2 ^ 63

/-- Only a menu with a block for cancelling says that it has one. -/
lemma CancelMode.code_eq_iff {cancel : CancelMode} {n : Nat} (h : n < 2 ^ 63) :
    cancel.code n = -2 ↔ cancel = .branch := by
  cases cancel with
  | disallow => simp [code]
  | branch => simp [code]
  | lastChoice =>
    have hn : (Int64.ofNat n).toInt = n := Int64.toInt_ofNat_of_lt h
    simp only [code, reduceCtorEq, iff_false]
    intro hcode
    have hofNat : Int64.ofNat n = -1 := by
      rw [← Int64.sub_add_cancel (Int64.ofNat n) 1, hcode]
      decide
    rw [hofNat] at hn
    have : (-1 : Int64).toInt = -1 := by decide
    omega

namespace Document

variable {d : Document} {options : Options}

lemma size_left_le (targets : List (Option String)) (u : IdSet) :
    (d.left targets u).size ≤ u.size :=
  (d.grow targets u).2.2

/-- The ends inside a tree stand deeper than the tree, as long as the depth can be counted. -/
lemma lt_indent_of_stop (targets : List (Option String)) (u : IdSet) {indent : UInt32}
    (hindent : indent.toNat + u.size < 2 ^ 32) {code : List Command}
    (hcode : code ∈ (d.forest targets u).codes d options indent) {c : Command} (hc : c ∈ code)
    (hstop : c.opcode = .stop) : indent.toNat < c.indent.toNat := by
  induction targets, u using grow_induction (d := d) generalizing indent code with
  | nil u => simp at hcode
  | dead h ih =>
    rw [forest_dead h, Forest.codes_dead] at hcode
    rcases List.mem_cons.1 hcode with rfl | hcode
    · cases hc
    · exact ih hindent hcode hc
  | jump h hu ih =>
    rw [forest_jump h hu, Forest.codes_jump] at hcode
    rcases List.mem_cons.1 hcode with rfl | hcode
    · obtain rfl := List.mem_singleton.1 hc
      cases hstop
    · exact ih hindent hcode hc
  | @enter target rest u n h hu ih₁ ih₂ =>
    -- one node is used up where the depth grows by one, so the sum does not grow
    have hsize := IdSet.size_erase_add_one hu
    rw [forest_enter h hu, Forest.codes_enter] at hcode
    rcases List.mem_cons.1 hcode with rfl | hcode
    · have hnext : (indent + 1).toNat = indent.toNat + 1 := by
        rw [UInt32.toNat_add, UInt32.toNat_one]
        exact Nat.mod_eq_of_lt (by omega)
      have hlength : ((d.forest (d.outlets n) (u.erase n.id)).codes d options
          (d.layout options n indent).depth).length = (d.layout options n indent).slots.length := by
        rw [Forest.codes, List.length_map]
        exact (Forest.follows_forest _ _).length_bodies options indent
      rw [List.mem_append, (fill_perm id _ _ hlength).mem_iff, List.map_id, List.mem_append,
        List.mem_flatten] at hc
      -- the command is a label, or the node's own, or stands in a body
      rcases hc with hc | hc | ⟨body, hbody, hc⟩
      · unfold labelAt at hc
        split at hc
        · obtain rfl := List.mem_singleton.1 hc
          cases hstop
        · cases hc
      · obtain ⟨rfl, -⟩ := eq_stop hc hstop
        rw [Command.stop, hnext]
        exact Nat.lt_succ_self _
      · rcases depth_layout options n indent with hdepth | ⟨-, hdepth⟩ <;> rw [hdepth] at hbody
        · exact ih₁ (by omega) hbody hc
        · have hroom : (indent + 1).toNat + (u.erase n.id).size < 2 ^ 32 := by omega
          have hdeeper := ih₁ hroom hbody hc
          omega
    · have hleft := size_left_le (d := d) (d.outlets n) (u.erase n.id)
      exact ih₂ (by omega) hcode hc

lemma size_allIds_le : d.allIds.size ≤ d.nodes.length := by
  have hnodes : ∀ (nodes : List Node) (byId : Std.HashMap String Node),
      (nodes.foldl (fun byId n => byId.insertIfNew n.id n) byId).size ≤
        byId.size + nodes.length := by
    intro nodes
    induction nodes with
    | nil => exact fun byId => Nat.le_refl _
    | cons n nodes ih =>
      intro byId
      have hsize : (byId.insertIfNew n.id n).size ≤ byId.size + 1 :=
        Std.HashMap.size_insertIfNew_le
      have hrest := ih (byId.insertIfNew n.id n)
      rw [List.foldl_cons, List.length_cons]
      omega
  calc d.allIds.size ≤ (Index.ofDocument d).nodes.keys.length := Std.HashSet.size_ofList_le
    _ = (nodesById d.nodes).size := Std.HashMap.length_keys
    _ ≤ (∅ : Std.HashMap String Node).size + d.nodes.length := hnodes d.nodes ∅
    _ = d.nodes.length := by rw [Std.HashMap.size_empty, Nat.zero_add]

/-- Every program is well structured.  There is none exactly if the document has no node at which
the dialogue begins; otherwise the program is a body at depth 0, so that what stands behind a jump
is the end of its block.  As long as the depth can be counted, the last command is the only end at
depth 0. -/
theorem compile_derives (d : Document) (options : Options) (hfit : d.MenusFit) :
    (d.compile options = [] ↔ d.start? = none) ∧
      (d.start? ≠ none → Derives (· ≠ -2) .body 0 (d.compile options)) ∧
      (d.compile options).IsChain Command.EndsAfterJump ∧
      (d.nodes.length < 2 ^ 32 →
        ∀ c ∈ (d.compile options).dropLast, c.opcode = .stop → c.indent ≠ 0) := by
  cases hstart : d.start? with
  | none => simp [compile_of_start_eq_none hstart]
  | some start =>
    have htrunk : ∃ code, d.trunk.codes d options 0 = [code] := by
      refine List.length_eq_one_iff.1 ?_
      rw [Forest.codes, List.length_map]
      exact follows_trunk.length_items 0
    obtain ⟨code, hcode⟩ := htrunk
    have hmem : code ∈ d.trunk.codes d options 0 := by
      rw [hcode]
      exact List.mem_singleton_self code
    have hcompile : d.compile options = code ++ [.stop 0] := by
      rw [compile_eq_codes hstart, hcode, List.flatten_singleton]
    have hbody : Derives (· ≠ -2) .body 0 (d.compile options) := by
      rw [hcompile]
      refine .body (follows_trunk.derives_codes ?_ hmem)
      intro n hn m hm hbranch
      exact mt (CancelMode.code_eq_iff (hfit n hn m hm)).1 hbranch
    refine ⟨by simp [hcompile], fun _ => hbody, ?_, ?_⟩
    · simpa using hbody.isChain_append (.nil) trivial
    · intro hcount c hc hstop
      rw [hcompile, List.dropLast_concat] at hc
      have hsize : (0 : UInt32).toNat + d.allIds.size < 2 ^ 32 := by
        simpa using Nat.lt_of_le_of_lt size_allIds_le hcount
      have hdepth := lt_indent_of_stop _ _ hsize hmem hc hstop
      intro hzero
      rw [hzero] at hdepth
      exact Nat.lt_irrefl _ hdepth

theorem compile_bargain_derives :
    bargain.MenusFit ∧ Derives (· ≠ -2) .body 0 (bargain.compile {}) ∧
      (bargain.compile {}).IsChain Command.EndsAfterJump ∧
      ∀ c ∈ (bargain.compile {}).dropLast, c.opcode = .stop → c.indent ≠ 0 := by
  have hfit : bargain.MenusFit := by
    intro n hn m hm
    simp only [bargain, List.mem_cons, List.not_mem_nil, or_false] at hn
    rcases hn with rfl | rfl | rfl | rfl <;> cases hm
    simp
  obtain ⟨-, hderives, hchain, hstop⟩ := compile_derives bargain {} hfit
  exact ⟨hfit, hderives (by decide), hchain, hstop (by decide)⟩

end Document

end Dialogue
