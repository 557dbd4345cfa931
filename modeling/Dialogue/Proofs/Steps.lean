import Dialogue.Proofs.Places
/-!
Running the commands of one node.

In front of the commands of a node, the engine does what the node says and comes to stand in front
of what fills one of its slots; behind a slot, it passes over the other slots and leaves the node.
This is shown here for each kind of layout.  The sought command of a block is found because what
fills the slots is passed over as a whole (`Passed`).
-/

namespace Dialogue

/-- Some steps lead from `s` to `t` and show `es`. -/
def Reaches {ε σ : Type*} (step : σ → Option (List ε × σ)) (s : σ) (es : List ε) (t : σ) : Prop :=
  ∃ k, Runs step k s es t

namespace Reaches

variable {ε σ : Type*} {step : σ → Option (List ε × σ)} {s t u : σ} {es fs : List ε}

lemma refl (s : σ) : Reaches step s [] s :=
  ⟨0, .refl s⟩

lemma cons (h : step s = some (es, t)) (h' : Reaches step t fs u) :
    Reaches step s (es ++ fs) u := by
  obtain ⟨k, hrun⟩ := h'
  exact ⟨k + 1, .cons h hrun⟩

lemma single (h : step s = some (es, t)) : Reaches step s es t :=
  ⟨1, .single h⟩

lemma trans (h : Reaches step s es t) (h' : Reaches step t fs u) : Reaches step s (es ++ fs) u := by
  obtain ⟨k, hrun⟩ := h
  obtain ⟨k', hrun'⟩ := h'
  exact ⟨k' + k, hrun.trans hrun'⟩

/-- Steps that show nothing, before others. -/
lemma quiet (h : Reaches step s [] t) (h' : Reaches step t fs u) : Reaches step s fs u :=
  h.trans h'

end Reaches

/-- Commands that are passed over when a part of a block around them is sought. -/
def Passed (cs : List Command) : Prop :=
  ∀ p : Command → Bool, (∀ c, p c → c.opcode.divides) →
    ∀ level rest, seek p level (cs ++ rest) = seek p level rest

lemma Derives.passed {lacks : Int64 → Prop} {depth : UInt32} {cs : List Command}
    (h : Derives lacks .sequence depth cs) : Passed cs :=
  fun _ hp level rest => h.seek_append hp level nofun rest

lemma Passed.append_stop {cs : List Command} (h : Passed cs) (depth : UInt32) :
    Passed (cs ++ [.stop depth]) := by
  intro p hp level rest
  rw [List.append_assoc, h p hp, List.singleton_append]
  exact seek_passes level (fun _ => eq_false_of_divides hp rfl) rfl rfl

lemma divides_of_isAt {indent : UInt32} {opcodes : List Opcode} (h : ∀ o ∈ opcodes, o.divides)
    (c : Command) (hc : c.isAt indent opcodes) : c.opcode.divides := by
  simp only [Command.isAt, Bool.and_eq_true, List.contains_iff_mem] at hc
  exact h _ hc.1

/-- The command behind a block is found. -/
lemma seek_block {p : Command → Bool} (hp : ∀ c, p c → c.opcode.divides) {cs : List Command}
    (hcs : Passed cs) (depth : UInt32) {c : Command} (hc : p c) (rest : List Command) :
    seek p 0 (cs ++ .stop depth :: c :: rest) = rest := by
  have h := hcs.append_stop depth p hp 0 (c :: rest)
  rw [List.append_assoc, List.singleton_append] at h
  rw [h, seek_found hc]

namespace Engine

variable {game : Game} {program : List Command} (s : Engine)

@[simp] lemma goto_goto (cs cs' : List Command) : (s.goto cs).goto cs' = s.goto cs' := rfl

@[simp] lemma resume_goto (cs cs' : List Command) : (s.goto cs).resume cs' = s.resume cs' := rfl

@[simp] lemma goto_answers (cs : List Command) : (s.goto cs).answers = s.answers := rfl

@[simp] lemma goto_choice (cs : List Command) : (s.goto cs).choice = s.choice := rfl

lemma step_goto_cons (c : Command) (rest : List Command) :
    step game program (s.goto (c :: rest)) =
      some ((s.goto (c :: rest)).obey game program c rest) := rfl

/-- A command that is only a mark is passed. -/
lemma step_mark {c : Command} (hc : c.opcode ∈ [.stop, .label, .conditionalEnd, .choiceBlockEnd])
    (rest : List Command) :
    step game program (s.goto (c :: rest)) = some ([], s.goto rest) := by
  rw [step_goto_cons]
  simp only [List.mem_cons, List.not_mem_nil, or_false] at hc
  rcases hc with hc | hc | hc | hc <;> simp [obey, hc]

lemma step_plain {c : Command} (hc : c.opcode.isPlain) (rest : List Command) :
    step game program (s.goto (c :: rest)) =
      some ([.performed c.opcode c.parameters], s.goto rest) := by
  rw [step_goto_cons]
  rw [obey]
  split <;> simp_all [Opcode.isPlain]

/-- Commands that do something are carried out one after the other. -/
lemma reaches_plain {cs : List Command} (hcs : ∀ c ∈ cs, c.opcode.isPlain) (rest : List Command) :
    Reaches (step game program) (s.goto (cs ++ rest)) (performed cs) (s.goto rest) := by
  induction cs with
  | nil => exact .refl _
  | cons c cs ih =>
    have hrest := ih fun c hc => hcs c (by simp [hc])
    exact .cons (s.step_plain (hcs c (by simp)) (cs ++ rest)) hrest

lemma reaches_labelAt (d : Document) (indent : UInt32) (id : String) (rest : List Command) :
    Reaches (step game program) (s.goto (d.labelAt indent id ++ rest)) [] (s.goto rest) := by
  rw [Document.labelAt]
  split
  · exact .single (s.step_mark (by simp [Command.label]) rest)
  · exact .refl _

lemma step_choose {c : Command} (hc : c.opcode = .showChoices) {rest : List Command}
    (hopens : c.opens rest) :
    step game program (s.goto (c :: rest)) = some (s.choose c rest) := by
  rw [step_goto_cons, obey, hc]
  exact congrArg some (if_pos hopens)

lemma step_select {c : Command} (hc : c.opcode = .showChoices) {rest : List Command}
    (hopens : c.opens rest = false) :
    step game program (s.goto (c :: rest)) = some (s.select game c rest) := by
  rw [step_goto_cons, obey, hc]
  exact congrArg some (if_neg (by simp [hopens]))

section Choose

variable {s} (c : Command) (rest : List Command)

lemma choose_truth {holds : Bool} (h : s.answers.head = .truth holds) :
    (s.choose c rest).2 = s.goto [] := by
  rw [choose, h]

lemma choose_choice {i : ℕ} (h : s.answers.head = .choice i) :
    (s.choose c rest).2 =
      if i < c.choiceCount then s.resume (choiceBlock c.indent i rest) else s.goto [] := by
  rw [choose, h]

lemma choose_cancel (h : s.answers.head = .cancel) :
    (s.choose c rest).2 =
      if c.hasCancelBlock then s.resume (cancelBlock c.indent rest) else s.goto [] := by
  rw [choose, h]

lemma choose_nothing (h : s.answers.head = .nothing) :
    (s.choose c rest).2 =
      if c.choiceCount = 0 then s.resume (pastWindow c.indent rest) else s.goto [] := by
  rw [choose, h]

end Choose

lemma step_jump (indent : UInt32) (id : String) (rest : List Command) :
    step game program (s.goto (.jumpToLabel indent id :: rest)) =
      some ([], s.goto (program.dropWhile fun c => !c.isLabelOf id)) := rfl

/-! ## Nodes without blocks -/

lemma reaches_passing {head : List Command} (hhead : ∀ c ∈ head, c.opcode.isPlain)
    (target : Option String) (indent : UInt32) (body after : List Command) :
    Reaches (step game program)
      (s.goto ((Document.passingLayout head target indent).fill id [body] ++ after))
      (performed head)
      (s.goto (body ++
        ((Document.passingLayout head target indent).behind id [body] 0 ++ after))) := by
  simpa [Document.passingLayout, Layout.fill, Layout.behind, weave] using
    s.reaches_plain hhead (body ++ after)

end Engine

/-- Nothing stands behind the slot of a node without blocks. -/
lemma Document.behind_passingLayout {α : Type} (wrap : Command → α) (head : List Command)
    (target : Option String) (indent : UInt32) {i : ℕ}
    (hi : i < (passingLayout head target indent).slots.length) (bodies : List (List α)) :
    (passingLayout head target indent).behind wrap bodies i = [] := by
  obtain rfl : i = 0 := Nat.lt_one_iff.1 hi
  simp [Layout.behind, passingLayout, weave]

/-! ## Conditions -/

namespace Document

variable {α : Type} (wrap : Command → α) (d : Document) (owner : String) (condition : Condition)
  (indent : UInt32) (yes no : List α)

lemma fill_conditionLayout :
    (d.conditionLayout owner condition indent).fill wrap [yes, no] =
      wrap (.conditionalBranch indent condition.expression) :: (yes ++
        (d.conditionLayout owner condition indent).behind wrap [yes, no] 0) := by
  simp [conditionLayout, Layout.fill, Layout.behind, weave, Slot.block]

lemma behind_conditionLayout_zero :
    (d.conditionLayout owner condition indent).behind wrap [yes, no] 0 =
      wrap (.stop (indent + 1)) :: wrap (.conditionalElse indent) :: (no ++
        (d.conditionLayout owner condition indent).behind wrap [yes, no] 1) := by
  simp [conditionLayout, Layout.behind, weave, Slot.block]

lemma behind_conditionLayout_one :
    (d.conditionLayout owner condition indent).behind wrap [yes, no] 1 =
      [wrap (.stop (indent + 1)), wrap (.conditionalEnd indent)] := by
  simp [conditionLayout, Layout.behind, weave, Slot.block]

end Document

lemma otherwise_else (indent depth : UInt32) {cs : List Command} (hcs : Passed cs)
    (rest : List Command) :
    otherwise indent (cs ++ .stop depth :: .conditionalElse indent :: rest) = rest :=
  seek_block (divides_of_isAt (by decide)) hcs depth
    (by simp [Command.isAt, Command.conditionalElse]) rest

lemma otherwise_end (indent depth : UInt32) {cs : List Command} (hcs : Passed cs)
    (rest : List Command) :
    otherwise indent (cs ++ .stop depth :: .conditionalEnd indent :: rest) = rest :=
  seek_block (divides_of_isAt (by decide)) hcs depth
    (by simp [Command.isAt, Command.conditionalEnd]) rest

lemma pastConditional_end (indent depth : UInt32) {cs : List Command} (hcs : Passed cs)
    (rest : List Command) :
    pastConditional indent (cs ++ .stop depth :: .conditionalEnd indent :: rest) = rest :=
  seek_block (divides_of_isAt (by decide)) hcs depth
    (by simp [Command.isAt, Command.conditionalEnd]) rest

/-- If a condition does not hold, the engine goes to the other block. -/
lemma otherwise_conditionLayout (d : Document) (owner : String) (condition : Condition)
    (indent : UInt32) {yes : List Command} (hyes : Passed yes) (no after : List Command) :
    otherwise indent (yes ++ ((d.conditionLayout owner condition indent).behind id [yes, no] 0 ++
        after)) =
      no ++ ((d.conditionLayout owner condition indent).behind id [yes, no] 1 ++ after) := by
  rw [Document.behind_conditionLayout_zero, List.cons_append, List.cons_append,
    List.append_assoc]
  exact otherwise_else indent (indent + 1) hyes _

namespace Engine

variable {game : Game} {program : List Command} (s : Engine)

/-- Testing a condition that belongs to no menu. -/
lemma step_conditionLayout (d : Document) (owner : String) (condition : Condition)
    (indent : UInt32) {yes : List Command} (hyes : Passed yes) (no after : List Command)
    (hmenu : game.menu? ((yes ++ ((d.conditionLayout owner condition indent).behind id
      [yes, no] 0 ++ after)).length + 1) = none) :
    step game program
        (s.goto ((d.conditionLayout owner condition indent).fill id [yes, no] ++ after)) =
      let yesBlock :=
        yes ++ ((d.conditionLayout owner condition indent).behind id [yes, no] 0 ++ after)
      let noBlock :=
        no ++ ((d.conditionLayout owner condition indent).behind id [yes, no] 1 ++ after)
      match game.test? s.choice condition.expression with
      | some true => some ([], s.goto yesBlock)
      | some false => some ([], s.goto noBlock)
      | none =>
        some ([.evaluated condition.expression],
          match s.answers.head with
          | .truth true => s.resume yesBlock
          | .truth false => s.resume noBlock
          | .choice _ | .cancel | .nothing => s.goto []) := by
  rw [Document.fill_conditionLayout, List.cons_append, List.append_assoc, id, step_goto_cons]
  simp only [obey, Command.conditionalBranch, test, Command.expression, goto_choice, goto_answers,
    goto_goto, resume_goto, hmenu, otherwise_conditionLayout d owner condition indent hyes]
  cases game.test? s.choice condition.expression with
  | none => rfl
  | some holds => cases holds <;> rfl

/-- Behind the block of a condition that holds, the other block is passed over. -/
lemma reaches_behind_yes (d : Document) (owner : String) (condition : Condition) (indent : UInt32)
    (yes after : List Command) {no : List Command} (hno : Passed no) :
    Reaches (step game program)
      (s.goto ((d.conditionLayout owner condition indent).behind id [yes, no] 0 ++ after)) []
      (s.goto after) := by
  have hpast : step game program (s.goto (.conditionalElse indent :: (no ++
      ([.stop (indent + 1), .conditionalEnd indent] ++ after)))) = some ([], s.goto after) := by
    rw [step_goto_cons]
    exact congrArg (fun rest => some ([], s.goto rest))
      (pastConditional_end indent (indent + 1) hno after)
  rw [Document.behind_conditionLayout_zero, Document.behind_conditionLayout_one, List.cons_append,
    List.cons_append, List.append_assoc]
  exact .cons (s.step_mark (by simp [Command.stop]) _) (.single hpast)

lemma reaches_behind_no (d : Document) (owner : String) (condition : Condition) (indent : UInt32)
    (yes no after : List Command) :
    Reaches (step game program)
      (s.goto ((d.conditionLayout owner condition indent).behind id [yes, no] 1 ++ after)) []
      (s.goto after) := by
  rw [Document.behind_conditionLayout_one]
  exact .cons (s.step_mark (by simp [Command.stop]) _)
    (.single (s.step_mark (by simp [Command.conditionalEnd]) after))

end Engine

/-! ## Menus with fixed choices -/

/-- A slot of the block of a window at depth `indent`. -/
def Slot.IsPart (indent : UInt32) (s : Slot) : Prop :=
  ∃ opening target, s = .block indent opening target ∧ opening.indent = indent ∧
    (opening.opcode = .choiceBranch ∨ opening.opcode = .choiceCancel)

namespace Document

variable {d : Document} {owner : String} {indent : UInt32}

lemma isPart_choiceSlots {i : ℕ} {choices : List Choice} {s : Slot}
    (h : s ∈ d.choiceSlots owner indent i choices) : s.IsPart indent := by
  induction choices generalizing i with
  | nil => cases h
  | cons c cs ih =>
    rcases List.mem_cons.1 h with rfl | h
    · exact ⟨_, _, rfl, rfl, .inl rfl⟩
    · exact ih h

lemma opcode_of_mem_choiceSlots {i : ℕ} {choices : List Choice} {s : Slot}
    (h : s ∈ d.choiceSlots owner indent i choices) {c : Command} (hc : c ∈ s.before) :
    c.opcode = .choiceBranch := by
  induction choices generalizing i with
  | nil => cases h
  | cons choice choices ih =>
    rcases List.mem_cons.1 h with rfl | h
    · obtain rfl := List.mem_singleton.1 hc
      rfl
    · exact ih h

lemma isPart_cancelSlots {m : Menu} {s : Slot} (h : s ∈ d.cancelSlots owner m indent) :
    s.IsPart indent := by
  unfold cancelSlots at h
  split at h
  · obtain rfl := List.mem_singleton.1 h
    exact ⟨_, _, rfl, rfl, .inr rfl⟩
  · cases h
  · cases h

lemma isPart_staticMenuLayout {m : Menu} {s : Slot}
    (h : s ∈ (d.staticMenuLayout owner m indent).slots) : s.IsPart indent := by
  rcases List.mem_append.1 h with h | h
  · exact isPart_choiceSlots h
  · exact isPart_cancelSlots h

end Document

/-- The parts of the block of a window are passed over, if they are not what is sought. -/
lemma seek_parts {p : Command → Bool} (hp : ∀ c, p c → c.opcode.divides) {indent : UInt32}
    {slots : List Slot} (hslots : ∀ s ∈ slots, s.IsPart indent)
    (hbefore : ∀ s ∈ slots, ∀ c ∈ s.before, p c = false) {bodies : List (List Command)}
    (hbodies : ∀ body ∈ bodies, Passed body) (hlength : bodies.length = slots.length)
    (rest : List Command) : seek p 0 (weave id slots bodies ++ rest) = seek p 0 rest := by
  induction slots generalizing bodies with
  | nil =>
    obtain rfl := List.length_eq_zero_iff.1 hlength
    rfl
  | cons s ss ih =>
    obtain ⟨body, bodies, rfl⟩ := List.exists_cons_of_length_eq_add_one hlength
    have ih := ih (fun s hs => hslots s (by simp [hs])) (fun s hs => hbefore s (by simp [hs]))
      (fun b hb => hbodies b (by simp [hb])) (Nat.succ.inj hlength)
    -- what opens the part is passed over, then the part up to its end
    obtain ⟨opening, target, rfl, -, hopening⟩ := hslots s (by simp)
    have hmiss : p opening = false := hbefore _ List.mem_cons_self opening (by simp [Slot.block])
    have hbody := (hbodies body (by simp)).append_stop (indent + 1) p hp 0
      (weave id ss bodies ++ rest)
    simp only [weave, Slot.block, List.map_id, List.cons_append, List.append_assoc,
      List.nil_append] at hbody ⊢
    rw [seek_passes 0 (fun _ => hmiss), hbody, ih]
    · rcases hopening with h | h <;> simp [Command.opens, h]
    · rcases hopening with h | h <;> simp [Opcode.closes, h]

lemma passed_nil : Passed [] :=
  fun _ _ _ _ => rfl

lemma pastWindow_parts {indent : UInt32} {slots : List Slot}
    (hslots : ∀ s ∈ slots, s.IsPart indent) {bodies : List (List Command)}
    (hbodies : ∀ body ∈ bodies, Passed body) (hlength : bodies.length = slots.length)
    {before : List Command} (hbefore : Passed before) (rest : List Command) :
    pastWindow indent (before ++ (weave id slots bodies ++ .choiceBlockEnd indent :: rest)) =
      rest := by
  have hdivides : ∀ c : Command, c.isAt indent [.choiceBlockEnd] → c.opcode.divides :=
    divides_of_isAt (by decide)
  rw [pastWindow, hbefore _ hdivides, seek_parts hdivides hslots ?_ hbodies hlength]
  · exact seek_found (by simp [Command.isAt, Command.choiceBlockEnd])
  · intro s hs c hc
    obtain ⟨opening, target, rfl, -, hopening⟩ := hslots s hs
    obtain rfl := List.mem_singleton.1 hc
    rcases hopening with h | h <;> simp [Command.isAt, h]

/-- The parts of the block of a window are passed over if none of them is chosen. -/
lemma Engine.reaches_parts {game : Game} {program : List Command} (s : Engine) {indent : UInt32}
    {slots : List Slot} (hslots : ∀ t ∈ slots, t.IsPart indent) {bodies : List (List Command)}
    (hbodies : ∀ body ∈ bodies, Passed body) (hlength : bodies.length = slots.length)
    (after : List Command) :
    Reaches (step game program)
      (s.goto (weave id slots bodies ++ .choiceBlockEnd indent :: after)) [] (s.goto after) := by
  cases slots with
  | nil =>
    obtain rfl := List.length_eq_zero_iff.1 hlength
    exact .single (s.step_mark (by simp [Command.choiceBlockEnd]) after)
  | cons t ts =>
    obtain ⟨body, bodies, rfl⟩ := List.exists_cons_of_length_eq_add_one hlength
    have hskip := pastWindow_parts (fun t ht => hslots t (by simp [ht]))
      (fun b hb => hbodies b (by simp [hb])) (Nat.succ.inj hlength)
      ((hbodies body (by simp)).append_stop (indent + 1)) after
    obtain ⟨opening, target, rfl, hindent, hopening⟩ := hslots t (by simp)
    have hstep : step game program (s.goto (opening :: (body ++ [.stop (indent + 1)] ++
        (weave id ts bodies ++ .choiceBlockEnd indent :: after)))) = some ([], s.goto after) := by
      rw [step_goto_cons]
      rcases hopening with h | h <;> simp only [obey, h, hindent, hskip, goto_goto]
    simpa [weave, Slot.block] using Reaches.single hstep

/-- The block of a choice is found behind the blocks of those before it. -/
lemma seek_choice (d : Document) (owner : String) (indent : UInt32) {choices : List Choice}
    {bodies : List (List Command)} (hbodies : ∀ body ∈ bodies, Passed body)
    (hlength : bodies.length = choices.length) {before : List Command} (hbefore : Passed before)
    (j i : ℕ) {body : List Command} (hbody : bodies[i]? = some body) (rest : List Command) :
    seek (fun c => c.isAt indent [.choiceBranch] &&
        c.parameters.head? == some (.int (Int64.ofNat (j + i)))) 0
      ((nextChoice indent)^[i]
        (before ++ (weave id (d.choiceSlots owner indent j choices) bodies ++ rest))) =
      body ++ .stop (indent + 1) :: (weave id ((d.choiceSlots owner indent j choices).drop (i + 1))
        (bodies.drop (i + 1)) ++ rest) := by
  have hdivides : ∀ c : Command, c.isAt indent [.choiceBranch] → c.opcode.divides :=
    divides_of_isAt (by decide)
  induction i generalizing choices bodies before j with
  | zero =>
    obtain ⟨hi, -⟩ := List.getElem?_eq_some_iff.1 hbody
    obtain ⟨first, bodies, rfl⟩ := List.exists_cons_of_length_pos hi
    obtain ⟨c, cs, rfl⟩ := List.exists_cons_of_length_eq_add_one hlength.symm
    obtain rfl : first = body := by simpa using hbody
    rw [Function.iterate_zero_apply, hbefore _ (fun c hc => hdivides c (by simp at hc; exact hc.1))]
    simp only [Document.choiceSlots, weave, Slot.block, List.map_id, List.cons_append,
      List.nil_append, List.append_assoc, List.drop_succ_cons, List.drop_zero]
    exact seek_found (by simp [Command.isAt, Command.choiceBranch])
  | succ i ih =>
    obtain ⟨hi, -⟩ := List.getElem?_eq_some_iff.1 hbody
    obtain ⟨first, bodies, rfl⟩ := List.exists_cons_of_length_pos (Nat.zero_lt_of_lt hi)
    obtain ⟨c, cs, rfl⟩ := List.exists_cons_of_length_eq_add_one hlength.symm
    have hfirst : Passed (first ++ [.stop (indent + 1)]) :=
      (hbodies first (by simp)).append_stop (indent + 1)
    have ih := ih (fun b hb => hbodies b (by simp [hb])) (Nat.succ.inj hlength) hfirst (j + 1)
      (by simpa using hbody)
    -- the block of the first choice is what is passed over next
    have hnext : nextChoice indent (before ++
        (weave id (d.choiceSlots owner indent j (c :: cs)) (first :: bodies) ++ rest)) =
        first ++ [.stop (indent + 1)] ++
          (weave id (d.choiceSlots owner indent (j + 1) cs) bodies ++ rest) := by
      rw [nextChoice, hbefore _ hdivides]
      simp only [Document.choiceSlots, weave, Slot.block, List.map_id, List.cons_append,
        List.nil_append, List.append_assoc]
      exact seek_found (by simp [Command.isAt, Command.choiceBranch])
    rw [Function.iterate_succ_apply, hnext, ← Nat.add_assoc, Nat.add_right_comm, ih]
    rfl

lemma Layout.behind_of_isPart {l : Layout} {indent : UInt32}
    (hslots : ∀ s ∈ l.slots, s.IsPart indent) {i : ℕ} (hi : i < l.slots.length)
    (bodies : List (List Command)) :
    l.behind id bodies i = .stop (indent + 1) ::
      (weave id (l.slots.drop (i + 1)) (bodies.drop (i + 1)) ++ l.last) := by
  obtain ⟨opening, target, hslot, -⟩ := hslots l.slots[i] (List.getElem_mem hi)
  simp [Layout.behind, List.getElem?_eq_getElem hi, hslot, Slot.block]

section StaticMenu

variable {d : Document} {owner : String} {m : Menu} {indent : UInt32}
  {bodies : List (List Command)} (hbodies : ∀ body ∈ bodies, Passed body)
  (hlength : bodies.length = (d.staticMenuLayout owner m indent).slots.length)

include hbodies hlength

lemma choiceBlock_staticMenu {i : ℕ} (hi : i < m.choices.length) {body : List Command}
    (hbody : bodies[i]? = some body) (after : List Command) :
    choiceBlock indent i (weave id (d.staticMenuLayout owner m indent).slots bodies ++
        .choiceBlockEnd indent :: after) =
      body ++ ((d.staticMenuLayout owner m indent).behind id bodies i ++ after) := by
  have hi' : i < (d.staticMenuLayout owner m indent).slots.length := by
    rw [← hlength]
    exact (List.getElem?_eq_some_iff.1 hbody).1
  obtain ⟨taken, cancelled, rfl, htaken, hcancelled⟩ :=
    Document.exists_append_of_staticMenu hlength
  have hslots := Document.length_choiceSlots (d := d) owner indent 0 m.choices
  have htaken' : taken[i]? = some body := by
    rwa [List.getElem?_append_left (by omega)] at hbody
  have hseek := seek_choice d owner indent (fun b hb => hbodies b (by simp [hb])) htaken
    passed_nil 0 i htaken'
    (weave id (d.cancelSlots owner m indent) cancelled ++ .choiceBlockEnd indent :: after)
  rw [Layout.behind_of_isPart (fun s => Document.isPart_staticMenuLayout) hi']
  simp only [Document.staticMenuLayout]
  rw [weave_append _ (htaken.trans hslots.symm), List.drop_append_of_le_length (by omega),
    List.drop_append_of_le_length (by omega), weave_append _ (by simp; omega)]
  simpa [choiceBlock] using hseek

/-- What is sought in a menu with fixed choices, if it is not the block of a choice. -/
lemma seek_staticMenu {p : Command → Bool} (hp : ∀ c, p c → c.opcode.divides)
    (hchoice : ∀ c, c.opcode = .choiceBranch → p c = false) {taken cancelled : List (List Command)}
    (happend : bodies = taken ++ cancelled) (htaken : taken.length = m.choices.length)
    (rest : List Command) :
    seek p 0 (weave id (d.staticMenuLayout owner m indent).slots bodies ++ rest) =
      seek p 0 (weave id (d.cancelSlots owner m indent) cancelled ++ rest) := by
  subst happend
  have hslots := Document.length_choiceSlots (d := d) owner indent 0 m.choices
  simp only [Document.staticMenuLayout]
  rw [weave_append _ (htaken.trans hslots.symm), List.append_assoc,
    seek_parts hp (fun s => Document.isPart_choiceSlots) ?_ (fun b hb => hbodies b (by simp [hb]))
      (htaken.trans hslots.symm)]
  intro s hs c hc
  refine hchoice c ?_
  exact Document.opcode_of_mem_choiceSlots hs hc

lemma cancelBlock_staticMenu_branch (hcancel : m.cancel = .branch) {body : List Command}
    (hbody : bodies[m.choices.length]? = some body) (after : List Command) :
    cancelBlock indent (weave id (d.staticMenuLayout owner m indent).slots bodies ++
        .choiceBlockEnd indent :: after) =
      body ++ ((d.staticMenuLayout owner m indent).behind id bodies m.choices.length ++ after) := by
  have hi : m.choices.length < (d.staticMenuLayout owner m indent).slots.length := by
    rw [← hlength]
    exact (List.getElem?_eq_some_iff.1 hbody).1
  obtain ⟨taken, cancelled, hbodies', htaken, hcancelled⟩ :=
    Document.exists_append_of_staticMenu hlength
  rw [cancelBlock, seek_staticMenu hbodies hlength (divides_of_isAt (by decide))
    (fun c hc => by simp [Command.isAt, hc]) hbodies' htaken,
    Layout.behind_of_isPart (fun s => Document.isPart_staticMenuLayout) hi]
  rw [Document.cancelSlots_branch hcancel] at hcancelled ⊢
  obtain ⟨inside, rfl⟩ := List.length_eq_one_iff.1 hcancelled
  obtain rfl : inside = body := by
    rw [hbodies', List.getElem?_append_right (Nat.le_of_eq htaken), htaken, Nat.sub_self] at hbody
    simpa using hbody
  have hdrop : (d.staticMenuLayout owner m indent).slots.drop (m.choices.length + 1) = [] := by
    refine List.drop_eq_nil_of_le (Nat.le_of_eq ?_)
    rw [← hlength, hbodies', List.length_append, htaken]
    rfl
  rw [hdrop]
  simp only [weave, Slot.block, Document.staticMenuLayout, List.map_id, List.cons_append,
    List.append_assoc, List.nil_append]
  exact seek_found (by simp [Command.isAt, Command.choiceCancel])

lemma cancelBlock_staticMenu_of_ne (hcancel : m.cancel ≠ .branch) (after : List Command) :
    cancelBlock indent (weave id (d.staticMenuLayout owner m indent).slots bodies ++
        .choiceBlockEnd indent :: after) = [] := by
  obtain ⟨taken, cancelled, hbodies', htaken, hcancelled⟩ :=
    Document.exists_append_of_staticMenu hlength
  rw [cancelBlock, seek_staticMenu hbodies hlength (divides_of_isAt (by decide))
    (fun c hc => by simp [Command.isAt, hc]) hbodies' htaken, Document.cancelSlots_of_ne hcancel]
  rfl

lemma pastWindow_staticMenu (after : List Command) :
    pastWindow indent (weave id (d.staticMenuLayout owner m indent).slots bodies ++
        .choiceBlockEnd indent :: after) = after :=
  pastWindow_parts (fun _ => Document.isPart_staticMenuLayout) hbodies hlength passed_nil after

omit hbodies in
/-- Showing the window of a menu with fixed choices. -/
lemma Engine.step_window {game : Game} {program : List Command} (s : Engine)
    (after : List Command) :
    step game program (s.goto (m.window indent ::
        (weave id (d.staticMenuLayout owner m indent).slots bodies ++
          .choiceBlockEnd indent :: after))) =
      some (s.choose (m.window indent) (weave id (d.staticMenuLayout owner m indent).slots bodies ++
        .choiceBlockEnd indent :: after)) := by
  have hopens : (m.window indent).opens
      (weave id (d.staticMenuLayout owner m indent).slots bodies ++
        .choiceBlockEnd indent :: after) := by
    have hhead : (weave id (d.staticMenuLayout owner m indent).slots bodies ++
        .choiceBlockEnd indent :: after).head?.any (·.opcode.dividesWindow) := by
      cases hslots : (d.staticMenuLayout owner m indent).slots with
      | nil => rfl
      | cons t ts =>
        rw [hslots] at hlength
        obtain ⟨body, bodies, rfl⟩ := List.exists_cons_of_length_eq_add_one hlength
        obtain ⟨opening, target, rfl, -, hopening⟩ :=
          Document.isPart_staticMenuLayout (s := t) (by rw [hslots]; simp)
        rcases hopening with h | h <;> simp [weave, Slot.block, Opcode.dividesWindow, h]
    simpa [Command.opens, Menu.window, Command.showChoices] using hhead
  exact s.step_choose rfl hopens

omit hbodies in
/-- A menu with fixed choices says its prompt and shows its window. -/
lemma Engine.reaches_window {game : Game} {program : List Command} (s : Engine)
    (after : List Command) :
    Reaches (step game program)
      (s.goto ((d.staticMenuLayout owner m indent).fill id bodies ++ after))
      (performed (m.promptCommands 0) ++ [.window (m.window 0).parameters])
      (s.choose (m.window indent) (weave id (d.staticMenuLayout owner m indent).slots bodies ++
        .choiceBlockEnd indent :: after)).2 := by
  have hprompt := @Engine.reaches_plain game program s (m.promptCommands indent)
    (fun c hc => (Menu.isPlainAt_of_mem_promptCommands hc).isPlain) (m.window indent ::
      (weave id (d.staticMenuLayout owner m indent).slots bodies ++
        .choiceBlockEnd indent :: after))
  have hwindow := Reaches.single
    (@Engine.step_window d owner m indent bodies hlength game program s after)
  have hfill : (d.staticMenuLayout owner m indent).fill id bodies ++ after =
      m.promptCommands indent ++ m.window indent ::
        (weave id (d.staticMenuLayout owner m indent).slots bodies ++
          .choiceBlockEnd indent :: after) := by
    simp [Layout.fill, Document.staticMenuLayout]
  rw [performed_promptCommands] at hprompt
  rw [hfill]
  exact hprompt.trans hwindow

/-- Behind one of its slots, the others are passed over and the menu is left. -/
lemma Engine.reaches_behind_staticMenu {game : Game} {program : List Command} (s : Engine) {i : ℕ}
    (hi : i < (d.staticMenuLayout owner m indent).slots.length) (after : List Command) :
    Reaches (step game program)
      (s.goto ((d.staticMenuLayout owner m indent).behind id bodies i ++ after)) []
      (s.goto after) := by
  rw [Layout.behind_of_isPart (fun _ => Document.isPart_staticMenuLayout) hi, List.cons_append,
    List.append_assoc]
  refine .cons (s.step_mark (by simp [Command.stop]) _) (s.reaches_parts ?_ ?_ ?_ after)
  · exact fun t ht => Document.isPart_staticMenuLayout (List.mem_of_mem_drop ht)
  · exact fun b hb => hbodies b (List.mem_of_mem_drop hb)
  · rw [List.length_drop, List.length_drop, hlength]

end StaticMenu

end Dialogue
