import Dialogue.Proofs.EditorReaders
/-!
Actions as records of their own.

An action takes the fields of its message among its own members.  When it is read, these are kept
with all other members that are no fields of the action itself, and are looked at when the last
member was read.  An action that can be read is the same as if they were fields of its own
(`flatFields`) and each member was looked at in its turn (`onTree_readAction_eq_ok_iff`); only
faults are reported in another order.
-/

namespace Dialogue.Editor

open Json

/-- The action with another message. -/
def Action.withMessage (a : Action) (message : Message) : Action :=
  { a with message }

/-- A slot of the message as a field of the action. -/
def messageField (slot : Slot Message) : RecordField Action where
  name := slot.name
  aliases := slot.aliases
  read depth := do
    let j ← value depth
    let change ← slot.put j
    return fun a => a.withMessage (change a.message)

/-- The fields of an action together with those of its message. -/
def flatFields : List (RecordField Action) :=
  actionFields ++ messageSlots.map messageField

/-- What a member does that is no field: it is read and then forgotten. -/
def forgotten (depth : Nat) (_ : String) (t : Tree) : Except Fault (Action → Action) :=
  (fun _ => id) <$> onTree (value depth) t

/-- A member of an action: a field of the action itself, or what is kept for the message. -/
inductive Part
  | field (name : String) (change : Action → Action)
  | kept (key : String) (j : Json)

/-- What a member of an action stands for. -/
def partOn (depth : Nat) (m : RawText × Tree) : Except Fault Part := do
  let k ← m.1.text
  match actionFields.find? (·.isNamed k) with
  | some f => .field f.name <$> onTree (f.read depth) m.2
  | none => .kept k <$> onTree (value depth) m.2

/-- What a member does to the draft of an action. -/
def Part.onDraft : Part → Option String × (ActionDraft → ActionDraft)
  | field name change => (some name, fun d => { d with action := change d.action })
  | kept key j => (none, fun d => { d with others := (key, j) :: d.others })

/-- What a member that was kept does to the message. -/
def slotChange (e : String × Json) : Except Fault (Option String × (Message → Message)) :=
  match messageSlots.find? (·.field.isNamed e.1) with
  | none => .ok (none, id)
  | some slot => (some slot.name, ·) <$> slot.put e.2

/-- A change of the message as a change of the action. -/
def onMessage (c : Option String × (Message → Message)) : Option String × (Action → Action) :=
  (c.1, fun a => a.withMessage (c.2 a.message))

/-- What a member does to an action. -/
def Part.onAction : Part → Except Fault (Option String × (Action → Action))
  | field name change => .ok (some name, change)
  | kept key j => onMessage <$> slotChange (key, j)

variable {depth : Nat} {m : RawText × Tree}

lemma changeOn_draft :
    changeOn (actionFields.map Editor.onAction)
        (fun k t => (fun j d => { d with others := (k, j) :: d.others }) <$> onTree (value depth) t)
        depth = fun m => Part.onDraft <$> partOn depth m := by
  funext m
  rw [changeOn, partOn]
  cases m.1.text with
  | error fault => rfl
  | ok k =>
    have hfind : (actionFields.map Editor.onAction).find? (fun f => f.isNamed k) =
        (actionFields.find? (fun f => f.isNamed k)).map Editor.onAction := List.find?_map
    rw [ok_bind, ok_bind, hfind]
    cases actionFields.find? (fun f => f.isNamed k) with
    | none =>
      change _ <$> _ <$> onTree (value depth) m.2 = _ <$> _ <$> onTree (value depth) m.2
      cases onTree (value depth) m.2 <;> rfl
    | some f =>
      change _ <$> onTree (_ <$> f.read depth) m.2 = _ <$> _ <$> onTree (f.read depth) m.2
      rw [onTree_map]
      cases onTree (f.read depth) m.2 <;> rfl

lemma onTree_messageField (slot : Slot Message) (t : Tree) :
    onTree ((messageField slot).read depth) t = onTree (value depth) t >>= fun j =>
      (fun change a => a.withMessage (change a.message)) <$> slot.put j := by
  have hgives : Gives ((messageField slot).read depth) t (onTree (value depth) t >>= fun j =>
      (fun change a => a.withMessage (change a.message)) <$> slot.put j) := by
    intro ws cs rest hws hcs hrest
    refine (bind_of_eq (regular_value depth t ws cs rest hws hcs hrest)).trans ?_
    cases onTree (value depth) t with
    | error fault => rfl
    | ok j =>
      rw [ok_bind, ok_bind, bind_lift]
      cases slot.put j <;> rfl
  exact hgives.onTree_eq

lemma changeOn_flat :
    changeOn flatFields (forgotten depth) depth = fun m => partOn depth m >>= Part.onAction := by
  funext m
  rw [changeOn, partOn]
  cases m.1.text with
  | error fault => rfl
  | ok k =>
    rw [ok_bind, ok_bind, flatFields, List.find?_append]
    cases actionFields.find? (fun f => f.isNamed k) with
    | some f =>
      change _ <$> onTree (f.read depth) m.2 = (_ <$> onTree (f.read depth) m.2) >>= _
      cases onTree (f.read depth) m.2 <;> rfl
    | none =>
      have hfind : (messageSlots.map messageField).find? (fun f => f.isNamed k) =
          (messageSlots.find? (fun slot => slot.field.isNamed k)).map messageField := List.find?_map
      have hslotChange : ∀ j, slotChange (k, j) =
          match messageSlots.find? (fun slot => slot.field.isNamed k) with
          | none => .ok (none, id)
          | some slot => (some slot.name, ·) <$> slot.put j := fun _ => rfl
      rw [Option.none_or, hfind]
      cases hslot : messageSlots.find? (fun slot => slot.field.isNamed k) with
      | none =>
        change _ <$> _ <$> onTree (value depth) m.2 = (_ <$> onTree (value depth) m.2) >>= _
        cases onTree (value depth) m.2 with
        | error fault => rfl
        | ok j =>
          change _ = onMessage <$> slotChange (k, j)
          rw [hslotChange, hslot]
          rfl
      | some slot =>
        change _ <$> onTree ((messageField slot).read depth) m.2 =
          (_ <$> onTree (value depth) m.2) >>= _
        rw [onTree_messageField]
        cases onTree (value depth) m.2 with
        | error fault => rfl
        | ok j =>
          change _ <$> _ <$> slot.put j = onMessage <$> slotChange (k, j)
          rw [hslotChange, hslot]
          change _ = onMessage <$> _ <$> slot.put j
          cases slot.put j <;> rfl

/-! ## The slots of a message -/

lemma fillSlots_eq_ok_iff {seen : List String} {es : List (String × Json)}
    {message message' : Message} :
    fillSlots messageSlots seen es message = .ok message' ↔
      ∃ changes, es.mapM slotChange = .ok changes ∧ Fresh (changed changes) seen ∧
        applyAll changes message = message' := by
  induction es generalizing seen message with
  | nil =>
    rw [fillSlots, List.mapM_nil]
    constructor
    · rintro ⟨⟩
      exact ⟨[], rfl, ⟨.nil, nofun⟩, rfl⟩
    · rintro ⟨_, ⟨⟩, -, rfl⟩
      rfl
  | cons e es ih =>
    have hstep : fillSlots messageSlots seen (e :: es) message = .ok message' ↔
        ∃ c, slotChange e = .ok c ∧ (∀ name ∈ c.1, name ∉ seen) ∧
          fillSlots messageSlots (c.1.toList ++ seen) es (c.2 message) = .ok message' := by
      rw [fillSlots, slotChange]
      cases messageSlots.find? (fun slot => slot.field.isNamed e.1) with
      | none =>
        constructor
        · exact fun h => ⟨_, rfl, nofun, h⟩
        · rintro ⟨_, ⟨⟩, -, h⟩
          exact h
      | some slot =>
        by_cases hseen : slot.name ∈ seen
        · simp only [List.contains_iff_mem.2 hseen, if_true]
          refine ⟨nofun, ?_⟩
          rintro ⟨c, hc, hnot, -⟩
          obtain ⟨change, -, rfl⟩ := map_eq_ok_iff.1 hc
          exact absurd hseen (hnot slot.name rfl)
        · have hcontains : ¬seen.contains slot.name = true :=
            fun h => hseen (List.contains_iff_mem.1 h)
          simp only [hcontains, Bool.false_eq_true, if_false]
          rw [bind_eq_ok_iff]
          constructor
          · rintro ⟨change, hchange, h⟩
            refine ⟨_, map_eq_ok_iff.2 ⟨change, hchange, rfl⟩, ?_, h⟩
            rintro name ⟨⟩
            exact hseen
          · rintro ⟨c, hc, -, h⟩
            obtain ⟨change, hchange, rfl⟩ := map_eq_ok_iff.1 hc
            exact ⟨change, hchange, h⟩
    rw [hstep]
    constructor
    · rintro ⟨c, hc, hfresh, h⟩
      obtain ⟨changes, hchanges, hfresh', h⟩ := ih.1 h
      refine ⟨c :: changes, mapM_cons_eq_ok_iff.2 ⟨c, changes, hc, hchanges, rfl⟩, ?_, h⟩
      rw [changed_cons]
      exact fresh_append_iff.2 ⟨hfresh, hfresh'⟩
    · rintro ⟨_, hmap, hfresh, h⟩
      obtain ⟨c, changes, hc, hchanges, rfl⟩ := mapM_cons_eq_ok_iff.1 hmap
      rw [changed_cons] at hfresh
      obtain ⟨hfresh, hfresh'⟩ := fresh_append_iff.1 hfresh
      exact ⟨c, hc, hfresh, ih.2 ⟨changes, hchanges, hfresh', h⟩⟩

/-! ## Members of an action in their order -/

/-- The members that are kept. -/
def keptIn : List Part → List (String × Json)
  | [] => []
  | .field _ _ :: parts => keptIn parts
  | .kept key j :: parts => (key, j) :: keptIn parts

/-- The changes of an action: those of its own fields, and those of its message in the places of the
members that were kept. -/
inductive Merges : List Part → List (Option String × (Message → Message)) →
    List (Option String × (Action → Action)) → Prop
  | nil : Merges [] [] []
  | field {name : String} {change : Action → Action} {parts : List Part}
      {inner : List (Option String × (Message → Message))}
      {changes : List (Option String × (Action → Action))} (h : Merges parts inner changes) :
      Merges (.field name change :: parts) inner ((some name, change) :: changes)
  | kept {key : String} {j : Json} {c : Option String × (Message → Message)} {parts : List Part}
      {inner : List (Option String × (Message → Message))}
      {changes : List (Option String × (Action → Action))} (h : Merges parts inner changes) :
      Merges (.kept key j :: parts) (c :: inner) (onMessage c :: changes)

variable {parts : List Part} {inner : List (Option String × (Message → Message))}
  {changes : List (Option String × (Action → Action))}

lemma mapM_onAction_eq_ok_iff :
    parts.mapM Part.onAction = .ok changes ↔
      ∃ inner, (keptIn parts).mapM slotChange = .ok inner ∧ Merges parts inner changes := by
  induction parts generalizing changes with
  | nil =>
    rw [keptIn, List.mapM_nil, List.mapM_nil]
    constructor
    · rintro ⟨⟩
      exact ⟨[], rfl, .nil⟩
    · rintro ⟨_, -, ⟨⟩⟩
      rfl
  | cons part parts ih =>
    rw [mapM_cons_eq_ok_iff]
    cases part with
    | field name change =>
      rw [keptIn]
      constructor
      · rintro ⟨_, changes, ⟨⟩, h, rfl⟩
        obtain ⟨inner, hinner, hmerges⟩ := ih.1 h
        exact ⟨inner, hinner, .field hmerges⟩
      · rintro ⟨inner, hinner, h⟩
        cases h with
        | field hmerges => exact ⟨_, _, rfl, ih.2 ⟨inner, hinner, hmerges⟩, rfl⟩
    | kept key j =>
      rw [keptIn]
      constructor
      · rintro ⟨b, changes, hb, h, rfl⟩
        obtain ⟨c, hc, rfl⟩ := map_eq_ok_iff.1 hb
        obtain ⟨inner, hinner, hmerges⟩ := ih.1 h
        exact ⟨c :: inner, mapM_cons_eq_ok_iff.2 ⟨c, inner, hc, hinner, rfl⟩, .kept hmerges⟩
      · rintro ⟨_, hinner, h⟩
        obtain ⟨c, inner, hc, hrest, rfl⟩ := mapM_cons_eq_ok_iff.1 hinner
        cases h with
        | kept hmerges =>
          exact ⟨_, _, map_eq_ok_iff.2 ⟨c, hc, rfl⟩, ih.2 ⟨inner, hrest, hmerges⟩, rfl⟩

lemma exists_merges (h : (keptIn parts).mapM slotChange = .ok inner) :
    ∃ changes, Merges parts inner changes := by
  induction parts generalizing inner with
  | nil =>
    cases h
    exact ⟨[], .nil⟩
  | cons part parts ih =>
    cases part with
    | field name change =>
      obtain ⟨changes, hmerges⟩ := ih h
      exact ⟨_, .field hmerges⟩
    | kept key j =>
      obtain ⟨c, inner, -, hinner, rfl⟩ := mapM_cons_eq_ok_iff.1 h
      obtain ⟨changes, hmerges⟩ := ih hinner
      exact ⟨_, .kept hmerges⟩

lemma Merges.changed_perm (h : Merges parts inner changes) :
    (changed changes).Perm (changed (parts.map Part.onDraft) ++ changed inner) := by
  induction h with
  | nil => exact .refl _
  | field _ ih =>
    rw [List.map_cons, changed_cons, changed_cons, List.append_assoc]
    exact ih.append_left _
  | @kept key j c parts inner changes _ ih =>
    rw [List.map_cons, changed_cons, changed_cons, changed_cons]
    refine (ih.append_left _).trans ?_
    rw [← List.append_assoc]
    exact (List.perm_append_comm.append_right _).trans (by rw [List.append_assoc]; exact .refl _)

/-- The change leaves the message alone. -/
def KeepsMessage (change : Action → Action) : Prop :=
  ∀ (a : Action) message, change (a.withMessage message) = (change a).withMessage message

lemma KeepsMessage.message_eq {change : Action → Action} (h : KeepsMessage change) (a : Action) :
    (change a).message = a.message := by
  have hchange : change a = (change a).withMessage a.message := h a a.message
  rw [hchange]
  rfl

/-- The changes of the fields of the action itself. -/
def applyOwn : List Part → Action → Action
  | [], a => a
  | .field _ change :: parts, a => applyOwn parts (change a)
  | .kept _ _ :: parts, a => applyOwn parts a

/-- All fields of the action itself leave the message alone. -/
def OwnKeepsMessage (parts : List Part) : Prop :=
  ∀ name change, Part.field name change ∈ parts → KeepsMessage change

lemma OwnKeepsMessage.tail {part : Part} (h : OwnKeepsMessage (part :: parts)) :
    OwnKeepsMessage parts :=
  fun name change hmem => h name change (List.mem_cons_of_mem _ hmem)

lemma OwnKeepsMessage.applyOwn (h : OwnKeepsMessage parts) : KeepsMessage (applyOwn parts) := by
  induction parts with
  | nil => exact fun _ _ => rfl
  | cons part parts ih =>
    cases part with
    | field name change =>
      intro a message
      have hchange := h name change List.mem_cons_self a message
      rw [Editor.applyOwn, hchange]
      exact ih h.tail (change a) message
    | kept key j => exact ih h.tail

lemma applyAll_onDraft (d : ActionDraft) :
    applyAll (parts.map Part.onDraft) d =
      ⟨applyOwn parts d.action, (keptIn parts).reverse ++ d.others⟩ := by
  induction parts generalizing d with
  | nil => rfl
  | cons part parts ih =>
    cases part with
    | field name change => exact ih _
    | kept key j =>
      refine (ih _).trans ?_
      rw [keptIn, List.reverse_cons, List.append_assoc]
      rfl

lemma Merges.applyAll_eq (h : Merges parts inner changes) (hown : OwnKeepsMessage parts)
    (a : Action) :
    applyAll changes a = (applyOwn parts a).withMessage (applyAll inner a.message) := by
  induction h generalizing a with
  | nil => rfl
  | @field name change parts inner changes _ ih =>
    refine (ih hown.tail (change a)).trans ?_
    rw [(hown name change List.mem_cons_self).message_eq]
    rfl
  | @kept key j c parts inner changes _ ih =>
    have hrest := ih hown.tail (a.withMessage (c.2 a.message))
    rw [hown.tail.applyOwn] at hrest
    exact hrest

/-! ## Names -/

lemma keepsMessage_of_read {f : RecordField Action} (hf : f ∈ actionFields) {t : Tree}
    {change : Action → Action} (h : onTree (f.read depth) t = .ok change) :
    KeepsMessage change := by
  have hkeeps : ∀ {α : Type} {put : α → Action → Action}, Puts f put →
      (∀ v, KeepsMessage (put v)) → KeepsMessage change := by
    intro α put hputs hput
    obtain ⟨v, rfl⟩ := hputs _ _ _ h
    exact hput v
  simp only [actionFields, List.mem_cons, List.not_mem_nil, or_false] at hf
  rcases hf with rfl | rfl | rfl | rfl | rfl | rfl | rfl | rfl | rfl | rfl <;>
    exact hkeeps (puts_of_map fun _ => rfl) fun _ _ _ => rfl

variable {ms : List (RawText × Tree)}

lemma exists_field_of_partOn {name : String} {change : Action → Action}
    (h : partOn depth m = .ok (.field name change)) :
    ∃ f ∈ actionFields, f.name = name ∧ onTree (f.read depth) m.2 = .ok change := by
  obtain ⟨k, -, h⟩ := bind_eq_ok_iff.1 h
  split at h
  · next f hfind =>
    obtain ⟨change, hchange, ⟨⟩⟩ := map_eq_ok_iff.1 h
    exact ⟨f, List.mem_of_find?_eq_some hfind, rfl, hchange⟩
  · obtain ⟨j, -, ⟨⟩⟩ := map_eq_ok_iff.1 h

lemma ownKeepsMessage_of_mapM (h : ms.mapM (partOn depth) = .ok parts) : OwnKeepsMessage parts := by
  intro name change hmem
  obtain ⟨m, -, hm⟩ := exists_of_mem_mapM h hmem
  obtain ⟨f, hf, -, hread⟩ := exists_field_of_partOn hm
  exact keepsMessage_of_read hf hread

lemma mem_actionFields_of_changed (h : ms.mapM (partOn depth) = .ok parts) {name : String}
    (hname : name ∈ changed (parts.map Part.onDraft)) : name ∈ actionFields.map (·.name) := by
  obtain ⟨c, hc, hfst⟩ := List.mem_filterMap.1 hname
  obtain ⟨part, hpart, rfl⟩ := List.mem_map.1 hc
  obtain ⟨m, -, hm⟩ := exists_of_mem_mapM h hpart
  cases part with
  | kept key j => cases hfst
  | field name' change =>
    obtain ⟨f, hf, hname', -⟩ := exists_field_of_partOn hm
    exact List.mem_map.2 ⟨f, hf, hname'.trans (Option.some.inj hfst)⟩

lemma mem_messageSlots_of_changed {es : List (String × Json)} (h : es.mapM slotChange = .ok inner)
    {name : String} (hname : name ∈ changed inner) : name ∈ messageSlots.map (·.name) := by
  obtain ⟨c, hc, hfst⟩ := List.mem_filterMap.1 hname
  obtain ⟨e, -, he⟩ := exists_of_mem_mapM h hc
  rw [slotChange] at he
  split at he
  · cases he
    cases hfst
  · next slot hfind =>
    obtain ⟨change, -, rfl⟩ := map_eq_ok_iff.1 he
    exact List.mem_map.2 ⟨slot, List.mem_of_find?_eq_some hfind, Option.some.inj hfst⟩

lemma names_disjoint :
    ∀ name ∈ actionFields.map (·.name), name ∉ messageSlots.map (·.name) := by
  decide

/-! ## Both ways to read an action -/

/-- The members of an action: no field stands twice, no field is missing, and the action is made
from its own fields and from those of the message. -/
def MadeOf (depth : Nat) (ms : List (RawText × Tree)) (a : Action) : Prop :=
  ∃ parts inner, ms.mapM (partOn depth) = .ok parts ∧ (keptIn parts).mapM slotChange = .ok inner ∧
    (changed (parts.map Part.onDraft)).Nodup ∧ (changed inner).Nodup ∧
    (∀ f ∈ actionFields, f.required = true → f.name ∈ changed (parts.map Part.onDraft)) ∧
    (applyOwn parts {}).withMessage (applyAll inner {}) = a

lemma draft_eq_ok_iff {a : Action} :
    (do
      let draft ← recordMembersOn (actionFields.map onAction) (fun k t =>
        (fun j d => { d with others := (k, j) :: d.others }) <$> onTree (value depth) t) {} depth ms
      let message ← fillSlots messageSlots [] draft.others.reverse {}
      return { draft.action with message }) = .ok a ↔ MadeOf depth ms a := by
  simp only [bind_eq_ok_iff, recordMembersOn_eq_ok_iff, changeOn_draft, mapM_map_eq_ok_iff]
  constructor
  · rintro ⟨_, ⟨_, ⟨parts, hparts, rfl⟩, hnodup, hrequired, rfl⟩, message, hmessage, ⟨⟩⟩
    rw [applyAll_onDraft, List.append_nil, List.reverse_reverse] at hmessage
    obtain ⟨inner, hinner, hfresh, rfl⟩ := fillSlots_eq_ok_iff.1 hmessage
    refine ⟨parts, inner, hparts, hinner, hnodup, hfresh.1, fun f hf hr => ?_, ?_⟩
    · exact hrequired (onAction f) (List.mem_map_of_mem hf) hr
    · rw [applyAll_onDraft]
      rfl
  · rintro ⟨parts, inner, hparts, hinner, hnodup, hnodup', hrequired, rfl⟩
    refine ⟨_, ⟨_, ⟨parts, hparts, rfl⟩, hnodup, fun f hf hr => ?_, rfl⟩, applyAll inner {}, ?_, ?_⟩
    · obtain ⟨g, hg, rfl⟩ := List.mem_map.1 hf
      exact hrequired g hg hr
    · rw [applyAll_onDraft, List.append_nil, List.reverse_reverse]
      exact fillSlots_eq_ok_iff.2 ⟨inner, hinner, fresh_nil_iff.2 hnodup', rfl⟩
    · rw [applyAll_onDraft]
      rfl

lemma flat_eq_ok_iff {a : Action} :
    recordMembersOn flatFields (forgotten depth) {} depth ms = .ok a ↔ MadeOf depth ms a := by
  simp only [recordMembersOn_eq_ok_iff, changeOn_flat, mapM_bind_eq_ok_iff, mapM_onAction_eq_ok_iff]
  constructor
  · rintro ⟨changes, ⟨parts, hparts, inner, hinner, hmerges⟩, hnodup, hrequired, rfl⟩
    have hown := ownKeepsMessage_of_mapM hparts
    rw [hmerges.changed_perm.nodup_iff, List.nodup_append] at hnodup
    refine ⟨parts, inner, hparts, hinner, hnodup.1, hnodup.2.1, fun f hf hr => ?_, ?_⟩
    · have hmem := hmerges.changed_perm.mem_iff.1 (hrequired f (List.mem_append_left _ hf) hr)
      rcases List.mem_append.1 hmem with hmem | hmem
      · exact hmem
      · have hslot := mem_messageSlots_of_changed hinner hmem
        exact absurd hslot (names_disjoint f.name (List.mem_map_of_mem hf))
    · exact (hmerges.applyAll_eq hown {}).symm
  · rintro ⟨parts, inner, hparts, hinner, hnodup, hnodup', hrequired, rfl⟩
    obtain ⟨changes, hmerges⟩ := exists_merges hinner
    have hown := ownKeepsMessage_of_mapM hparts
    refine ⟨changes, ⟨parts, hparts, inner, hinner, hmerges⟩, ?_, fun f hf hr => ?_,
      hmerges.applyAll_eq hown {}⟩
    · rw [hmerges.changed_perm.nodup_iff, List.nodup_append]
      refine ⟨hnodup, hnodup', fun name hname name' hname' heq => ?_⟩
      exact names_disjoint name (mem_actionFields_of_changed hparts hname)
        (heq ▸ mem_messageSlots_of_changed hinner hname')
    · rcases List.mem_append.1 hf with hf | hf
      · exact hmerges.changed_perm.mem_iff.2 (List.mem_append_left _ (hrequired f hf hr))
      · obtain ⟨slot, -, rfl⟩ := List.mem_map.1 hf
        cases hr

/-- An action that can be read is the same as if the fields of its message were its own. -/
theorem onTree_readAction_eq_ok_iff {t : Tree} {a : Action} :
    onTree (readAction depth) t = .ok a ↔ ∃ inner ms, depth = inner + 1 ∧ t = .object ms ∧
      recordMembersOn flatFields (forgotten inner) {} inner ms = .ok a := by
  rw [(gives_readAction depth t).onTree_eq, actionOn]
  cases t with
  | object ms =>
    cases depth with
    | zero =>
      constructor
      · intro h
        cases h
      · rintro ⟨_, _, h, -⟩
        cases h
    | succ depth =>
      refine draft_eq_ok_iff.trans (flat_eq_ok_iff.symm.trans ?_)
      constructor
      · exact fun h => ⟨depth, ms, rfl, rfl, h⟩
      · rintro ⟨_, _, ⟨⟩, ⟨⟩, h⟩
        exact h
  | _ =>
    constructor
    · intro h
      obtain ⟨draft, hdraft, -⟩ := bind_eq_ok_iff.1 h
      obtain ⟨j, -, ⟨⟩⟩ := bind_eq_ok_iff.1 hdraft
    · rintro ⟨_, _, -, h, -⟩
      cases h

end Dialogue.Editor
