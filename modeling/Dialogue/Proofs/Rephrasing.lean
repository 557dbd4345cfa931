import Dialogue.Proofs.Edits
import Dialogue.Proofs.Rendering
import Dialogue.Proofs.UnknownTags
/-!
Texts that say the same.

The forms of documents (`documentForms`) and of their parts list the fields of each record, with all
their names, and say which of them may be left out.  A text is rephrased by writing the same tree
with other spaces, or by an edit of its tree.  However often a text of a document is rephrased, it
stands for the same document; so loading it gives the same dialogue graph or the same error.
-/

namespace Dialogue.Editor

open Json

/-! ## The form of a document -/

/-- A scalar that has to be written if its field is. -/
def plainForm (names : List String) : FieldForm := ⟨names, false, .scalar⟩

/-- A scalar that may be left out. -/
def optionalForm (names : List String) : FieldForm := ⟨names, true, .scalar⟩

/-- The fields of a message. -/
def messageForms : List FieldForm :=
  [optionalForm ["text"], optionalForm ["face_name", "faceName"],
    optionalForm ["face_index", "faceIndex"], optionalForm ["background"],
    optionalForm ["position"]]

/-- The fields of a condition. -/
def conditionForms : List FieldForm :=
  [plainForm ["type"], optionalForm ["switch_id", "switchId"],
    optionalForm ["variable_id", "variableId"], optionalForm ["operator"], ⟨["value"], true, .any⟩,
    optionalForm ["expression", "script"]]

/-- The fields of an action, with those of its message. -/
def actionForms : List FieldForm :=
  [plainForm ["type"], optionalForm ["script", "code"], optionalForm ["variable_id", "variableId"],
    optionalForm ["operation"], optionalForm ["switch_id", "switchId"],
    optionalForm ["event_id", "eventId", "commonEventId"], ⟨["value"], true, .any⟩,
    optionalForm ["plugin_name", "pluginName"], optionalForm ["command_name", "commandName"],
    ⟨["args"], true, .any⟩] ++ messageForms

/-- The fields of a choice. -/
def choiceForms : List FieldForm :=
  [plainForm ["id"], plainForm ["text"],
    ⟨["hide_condition", "hideCondition"], true, .record conditionForms⟩,
    ⟨["disable_condition", "disableCondition"], true, .record conditionForms⟩]

/-- The fields of the content of a node. -/
def nodeDataForms : List FieldForm :=
  [optionalForm ["label"], plainForm ["muted"], ⟨["actions"], false, .list (.record actionForms)⟩,
    ⟨["condition"], true, .record conditionForms⟩,
    ⟨["choices"], false, .list (.record choiceForms)⟩,
    optionalForm ["cancel_type", "cancelType"], optionalForm ["window_position", "windowPosition"],
    optionalForm ["window_background", "windowBackground"],
    ⟨["prompt"], true, .record messageForms⟩]

/-- The fields of a node. -/
def nodeForms : List FieldForm :=
  [plainForm ["id"], plainForm ["type"], ⟨["data"], false, .record nodeDataForms⟩]

/-- The fields of an edge. -/
def edgeForms : List FieldForm :=
  [plainForm ["id"], plainForm ["source"], plainForm ["target"],
    optionalForm ["source_handle", "sourceHandle"]]

/-- The fields of a document. -/
def documentForms : List FieldForm :=
  [⟨["nodes"], false, .list (.record nodeForms)⟩, ⟨["edges"], false, .list (.record edgeForms)⟩]

/-- The second text is the first one with other spaces, or says the same in a different way at one
place. -/
inductive Rephrases (s s' : String) : Prop
  | spaces {t : Tree} (h : SpellsText t s) (h' : SpellsText t s')
  | edit {t t' : Tree} (h : SpellsText t s) (h' : SpellsText t' s')
      (hedit : Edit depthLimit (.record documentForms) t t')

/-! ## Fields of records -/

section Fields

variable {σ α β : Type} {blank : σ} {name : String} {aliases : List String} {required : Bool}
  {form : Form} {reader : (depth : Nat) → Reader α} {f g : RecordField σ} {put : α → σ → σ}
  {put' : β → σ → σ}

lemma describes_plain {as : Json → Except Fault α} :
    Describes blank (plainForm (name :: aliases)) (.ofScalar name aliases required as put) :=
  ⟨rfl, nofun, respects_scalar⟩

lemma describes_optional {as : Json → Except Fault α} {put : Option α → σ → σ}
    (h : RefusesContainers as) (hblank : put none blank = blank) :
    Describes blank (optionalForm (name :: aliases))
      (.ofScalar name aliases false (asOptional as) put) where
  names := rfl
  optional _ :=
    ⟨rfl, fun _ => ⟨put none, onTree_ofScalar (j := .null) h.optional .null rfl, hblank⟩⟩
  respects := respects_scalar

lemma describes_read (h : Respects form reader) :
    Describes blank ⟨name :: aliases, false, form⟩
      ⟨name, aliases, required, fun depth => put <$> reader depth⟩ :=
  ⟨rfl, nofun, h.map put⟩

lemma describes_readOptional {put : Option α → σ → σ} (hreader : ∀ depth, Regular (reader depth))
    (h : Respects form reader) (hblank : put none blank = blank) :
    Describes blank ⟨name :: aliases, true, form⟩
      ⟨name, aliases, false, fun depth => put <$> optional reader depth⟩ where
  names := rfl
  optional _ := by
    refine ⟨rfl, fun depth => ⟨put none, onTree_put ?_, hblank⟩⟩
    exact (gives_optional hreader depth .null).onTree_eq
  respects := (h.optional hreader).map put

lemma commutes_of_map {reader' : (depth : Nat) → Reader β}
    (hf : ∀ depth, f.read depth = put <$> reader depth)
    (hg : ∀ depth, g.read depth = put' <$> reader' depth)
    (h : ∀ v w s, put v (put' w s) = put' w (put v s)) : Commutes f g := by
  intro depth t t' change change' hread hread' s
  obtain ⟨v, rfl⟩ := puts_of_map hf _ _ _ hread
  obtain ⟨w, rfl⟩ := puts_of_map hg _ _ _ hread'
  exact h v w s

end Fields

/-! ## Fields that do not interfere

The fields of a record change different parts of it.  There is one goal for each pair of fields. -/

lemma commutes_conditionFields : conditionFields.Pairwise Commutes := by
  simp only [conditionFields, List.pairwise_cons, List.forall_mem_cons, List.not_mem_nil,
    false_implies, implies_true, and_true, List.Pairwise.nil]
  and_intros
  all_goals exact commutes_of_map (fun _ => rfl) (fun _ => rfl) fun _ _ _ => rfl

lemma commutes_actionFields : actionFields.Pairwise Commutes := by
  simp only [actionFields, List.pairwise_cons, List.forall_mem_cons, List.not_mem_nil,
    false_implies, implies_true, and_true, List.Pairwise.nil]
  and_intros
  all_goals exact commutes_of_map (fun _ => rfl) (fun _ => rfl) fun _ _ _ => rfl

lemma commutes_choiceFields : choiceFields.Pairwise Commutes := by
  simp only [choiceFields, List.pairwise_cons, List.forall_mem_cons, List.not_mem_nil,
    false_implies, implies_true, and_true, List.Pairwise.nil]
  and_intros
  all_goals exact commutes_of_map (fun _ => rfl) (fun _ => rfl) fun _ _ _ => rfl

lemma commutes_nodeDataFields : nodeDataFields.Pairwise Commutes := by
  simp only [nodeDataFields, List.pairwise_cons, List.forall_mem_cons, List.not_mem_nil,
    false_implies, implies_true, and_true, List.Pairwise.nil]
  and_intros
  all_goals exact commutes_of_map (fun _ => rfl) (fun _ => rfl) fun _ _ _ => rfl

lemma commutes_nodeFields : nodeFields.Pairwise Commutes := by
  simp only [nodeFields, List.pairwise_cons, List.forall_mem_cons, List.not_mem_nil,
    false_implies, implies_true, and_true, List.Pairwise.nil]
  and_intros
  all_goals exact commutes_of_map (fun _ => rfl) (fun _ => rfl) fun _ _ _ => rfl

lemma commutes_edgeFields : edgeFields.Pairwise Commutes := by
  simp only [edgeFields, List.pairwise_cons, List.forall_mem_cons, List.not_mem_nil,
    false_implies, implies_true, and_true, List.Pairwise.nil]
  and_intros
  all_goals exact commutes_of_map (fun _ => rfl) (fun _ => rfl) fun _ _ _ => rfl

lemma commutes_documentFields : documentFields.Pairwise Commutes := by
  simp only [documentFields, List.pairwise_cons, List.forall_mem_cons, List.not_mem_nil,
    false_implies, implies_true, and_true, List.Pairwise.nil]
  exact commutes_of_map (fun _ => rfl) (fun _ => rfl) fun _ _ _ => rfl

/-! ## Messages and conditions -/

/-- The slots change the message in either order. -/
def SlotsCommute (slot slot' : Slot Message) : Prop :=
  ∀ ⦃j j' change change'⦄, slot.put j = .ok change → slot'.put j' = .ok change' →
    ∀ m, change (change' m) = change' (change m)

lemma slotsCommute_of_map {α β : Type} {slot slot' : Slot Message} {as : Json → Except Fault α}
    {as' : Json → Except Fault β} {put : α → Message → Message} {put' : β → Message → Message}
    (hslot : slot.put = fun j => put <$> as j) (hslot' : slot'.put = fun j => put' <$> as' j)
    (h : ∀ v w m, put v (put' w m) = put' w (put v m)) : SlotsCommute slot slot' := by
  intro j j' change change' hput hput' m
  rw [hslot] at hput
  rw [hslot'] at hput'
  obtain ⟨v, -, rfl⟩ := map_eq_ok_iff.1 hput
  obtain ⟨w, -, rfl⟩ := map_eq_ok_iff.1 hput'
  exact h v w m

lemma slotsCommute_message : messageSlots.Pairwise SlotsCommute := by
  simp only [messageSlots, List.pairwise_cons, List.forall_mem_cons, List.not_mem_nil,
    false_implies, implies_true, and_true, List.Pairwise.nil]
  and_intros
  all_goals
    refine slotsCommute_of_map rfl rfl ?_
    exact fun _ _ _ => rfl

lemma exists_takes_null {slot : Slot Message} (h : slot ∈ messageSlots) :
    ∃ change, Takes slot .null change ∧ change {} = {} := by
  simp only [messageSlots, List.mem_cons, List.not_mem_nil, or_false] at h
  rcases h with rfl | rfl | rfl | rfl | rfl
  · exact ⟨_, takes_text none, rfl⟩
  · exact ⟨_, takes_text none, rfl⟩
  · exact ⟨_, takes_int none, rfl⟩
  · exact ⟨_, takes_int none, rfl⟩
  · exact ⟨_, takes_int none, rfl⟩

/-- The form of a slot. -/
def slotForm (slot : Slot Message) : FieldForm :=
  optionalForm (slot.name :: slot.aliases)

lemma describes_messageSlots {σ : Type} {blank : σ} {field : Slot Message → RecordField σ}
    (h : ∀ slot ∈ messageSlots, Describes blank (slotForm slot) (field slot)) :
    List.Forall₂ (Describes blank) messageForms (messageSlots.map field) :=
  List.forall₂_map_left_iff.2 (List.forall₂_map_right_iff.2 (List.forall₂_same.2 h))

lemma conforms_message : Conforms {} messageForms (messageSlots.map Slot.field) where
  describes := by
    refine describes_messageSlots fun slot hslot => ⟨rfl, fun _ => ⟨rfl, fun depth => ?_⟩, ?_⟩
    · obtain ⟨change, htakes, hblank⟩ := exists_takes_null hslot
      exact ⟨change, htakes.onTree_field, hblank⟩
    · exact respects_scalar
  apart := by decide
  commutes := by
    refine List.pairwise_map.2 (slotsCommute_message.imp_of_mem ?_)
    intro slot slot' hslot hslot' hcommute depth t t' change change' hread hread'
    have hfield : ∀ {slot : Slot Message} {t change}, slot ∈ messageSlots →
        onTree (slot.field.read depth) t = .ok change → ∃ j, slot.put j = .ok change := by
      intro slot t change hslot hread
      obtain ⟨change, hput, rfl⟩ :=
        map_eq_ok_iff.1 ((onTree_map (scalar slot.put) id t).symm.trans hread)
      rw [(refusesContainers_slot hslot).onTree_scalar] at hput
      obtain ⟨j, -, hput⟩ := bind_eq_ok_iff.1 hput
      exact ⟨j, hput⟩
    obtain ⟨j, hput⟩ := hfield hslot hread
    obtain ⟨j', hput'⟩ := hfield hslot' hread'
    exact hcommute hput hput'

lemma respects_readMessage : Respects (.record messageForms) readMessage :=
  conforms_message.respects_record regularFields_message _

lemma conforms_condition : Conforms {} conditionForms conditionFields where
  describes :=
    .cons describes_plain <| .cons (describes_optional refusesContainers_asWord rfl) <|
    .cons (describes_optional refusesContainers_asWord rfl) <|
    .cons (describes_optional refusesContainers_asText rfl) <|
    .cons (describes_readOptional regular_value respects_value rfl) <|
    .cons (describes_optional refusesContainers_asText rfl) .nil
  apart := by decide
  commutes := commutes_conditionFields

lemma respects_readCondition : Respects (.record conditionForms) readCondition :=
  conforms_condition.respects_record regularFields_condition _

/-! ## Actions -/

lemma forgets_forgotten (depth : Nat) : Forgets (forgotten depth) depth where
  eq_id h := by
    obtain ⟨j, -, rfl⟩ := map_eq_ok_iff.1 h
    rfl
  fits h := by
    obtain ⟨j, hj⟩ := h.exists_value
    exact map_eq_ok_iff.2 ⟨j, hj, rfl⟩
  permuted h := (h.sameResult_value depth).map _

lemma exists_put_of_messageField {depth : Nat} {slot : Slot Message} {t : Tree}
    {change : Action → Action} (h : onTree ((messageField slot).read depth) t = .ok change) :
    ∃ j inner, slot.put j = .ok inner ∧ change = fun a => a.withMessage (inner a.message) := by
  rw [onTree_messageField] at h
  obtain ⟨j, -, h⟩ := bind_eq_ok_iff.1 h
  obtain ⟨inner, hinner, rfl⟩ := map_eq_ok_iff.1 h
  exact ⟨j, inner, hinner, rfl⟩

lemma commutes_flatFields : flatFields.Pairwise Commutes := by
  refine List.pairwise_append.2 ⟨commutes_actionFields, ?_, ?_⟩
  · refine List.pairwise_map.2 (slotsCommute_message.imp ?_)
    intro slot slot' hcommute depth t t' change change' hread hread' a
    obtain ⟨j, inner, hput, rfl⟩ := exists_put_of_messageField hread
    obtain ⟨j', inner', hput', rfl⟩ := exists_put_of_messageField hread'
    exact congrArg a.withMessage (hcommute hput hput' a.message)
  · intro f hf g hg depth t t' change change' hread hread' a
    obtain ⟨slot, -, rfl⟩ := List.mem_map.1 hg
    obtain ⟨j, inner, -, rfl⟩ := exists_put_of_messageField hread'
    have hkeeps := keepsMessage_of_read hf hread
    refine (hkeeps a _).trans ?_
    exact congrArg (fun m => (change a).withMessage (inner m)) (hkeeps.message_eq a).symm

lemma describes_messageFields :
    List.Forall₂ (Describes {}) messageForms (messageSlots.map messageField) := by
  refine describes_messageSlots fun slot hslot => ⟨rfl, fun _ => ⟨rfl, fun depth => ?_⟩, ?_⟩
  · obtain ⟨change, htakes, hblank⟩ := exists_takes_null hslot
    exact ⟨_, htakes.onTree_messageField, congrArg (Action.withMessage {}) hblank⟩
  · exact respects_scalar

lemma conforms_action : Conforms {} actionForms flatFields where
  describes :=
    .cons describes_plain <| .cons (describes_optional refusesContainers_asText rfl) <|
    .cons (describes_optional refusesContainers_asWord rfl) <|
    .cons (describes_optional refusesContainers_asText rfl) <|
    .cons (describes_optional refusesContainers_asWord rfl) <|
    .cons (describes_optional refusesContainers_asWord rfl) <|
    .cons (describes_readOptional regular_value respects_value rfl) <|
    .cons (describes_optional refusesContainers_asText rfl) <|
    .cons (describes_optional refusesContainers_asText rfl) <|
    .cons (describes_readOptional (regular_dictOf regular_value) respects_dictOf rfl)
      describes_messageFields
  apart := by decide
  commutes := commutes_flatFields

lemma respects_readAction : Respects (.record actionForms) readAction := by
  intro depth t t' hedit a
  obtain ⟨inner, ms, ms', rfl, rfl, rfl⟩ := hedit.exists_object
  have hsame := conforms_action.sameResult_edit (forgets_forgotten inner) hedit a
  rw [onTree_readAction_eq_ok_iff, onTree_readAction_eq_ok_iff]
  constructor
  · rintro ⟨_, _, ⟨⟩, ⟨⟩, h⟩
    exact ⟨inner, ms', rfl, rfl, hsame.1 h⟩
  · rintro ⟨_, _, ⟨⟩, ⟨⟩, h⟩
    exact ⟨inner, ms, rfl, rfl, hsame.2 h⟩

/-! ## Documents -/

lemma conforms_choice : Conforms {} choiceForms choiceFields where
  describes :=
    .cons describes_plain <| .cons describes_plain <|
    .cons (describes_readOptional regular_readCondition respects_readCondition rfl) <|
    .cons (describes_readOptional regular_readCondition respects_readCondition rfl) .nil
  apart := by decide
  commutes := commutes_choiceFields

lemma respects_readChoice : Respects (.record choiceForms) readChoice :=
  conforms_choice.respects_record regularFields_choice _

lemma conforms_nodeData : Conforms {} nodeDataForms nodeDataFields where
  describes :=
    .cons (describes_optional refusesContainers_asText rfl) <| .cons describes_plain <|
    .cons (describes_read (respects_readAction.listOf regular_readAction)) <|
    .cons (describes_readOptional regular_readCondition respects_readCondition rfl) <|
    .cons (describes_read (respects_readChoice.listOf regular_readChoice)) <|
    .cons (describes_optional refusesContainers_asText rfl) <|
    .cons (describes_optional refusesContainers_asInt rfl) <|
    .cons (describes_optional refusesContainers_asInt rfl) <|
    .cons (describes_readOptional regular_readMessage respects_readMessage rfl) .nil
  apart := by decide
  commutes := commutes_nodeDataFields

lemma respects_readNodeData : Respects (.record nodeDataForms) readNodeData :=
  conforms_nodeData.respects_record regularFields_nodeData _

lemma conforms_node : Conforms {} nodeForms nodeFields where
  describes :=
    .cons describes_plain <| .cons describes_plain <|
    .cons (describes_read respects_readNodeData) .nil
  apart := by decide
  commutes := commutes_nodeFields

lemma respects_readNode : Respects (.record nodeForms) readNode :=
  conforms_node.respects_record regularFields_node _

lemma conforms_edge : Conforms {} edgeForms edgeFields where
  describes :=
    .cons describes_plain <| .cons describes_plain <| .cons describes_plain <|
    .cons (describes_optional refusesContainers_asText rfl) .nil
  apart := by decide
  commutes := commutes_edgeFields

lemma respects_readEdge : Respects (.record edgeForms) readEdge :=
  conforms_edge.respects_record regularFields_edge _

lemma conforms_document : Conforms {} documentForms documentFields where
  describes :=
    .cons (describes_read (respects_readNode.listOf regular_readNode)) <|
    .cons (describes_read (respects_readEdge.listOf regular_readEdge)) .nil
  apart := by decide
  commutes := commutes_documentFields

theorem respects_readDocument : Respects (.record documentForms) readDocument :=
  conforms_document.respects_record regularFields_document _

theorem Rephrases.sameResult_parse {s s' : String} (h : Rephrases s s') :
    SameResult (Document.parse s) (Document.parse s') := by
  have hparse : ∀ {t s}, SpellsText t s → Document.parse s = onTree (readDocument depthLimit) t :=
    fun hs => readAll_eq (regular_readDocument depthLimit) hs
  cases h with
  | spaces hs hs' =>
    rw [hparse hs, hparse hs']
    exact .refl _
  | edit hs hs' hedit =>
    rw [hparse hs, hparse hs']
    exact respects_readDocument hedit

theorem sameResult_parse_of_eqvGen {s s' : String} (h : Relation.EqvGen Rephrases s s') :
    SameResult (Document.parse s) (Document.parse s') := by
  induction h with
  | rel _ _ h => exact h.sameResult_parse
  | refl _ => exact .refl _
  | symm _ _ _ ih => exact ih.symm
  | trans _ _ _ _ _ ih ih' => exact ih.trans ih'

end Dialogue.Editor

namespace Dialogue

open Json

/-- A text of a document that is rephrased in whatever ways is loaded with the same result: the same
dialogue graph, or the same error about an unknown tag. -/
theorem Document.load_eq_of_rephrases {s s' : String} (hs : ∃ e, Editor.Document.parse s = .ok e)
    (h : Relation.EqvGen Editor.Rephrases s s') :
    load s' = load s ∧ ∀ fault, load s ≠ .error (.badText fault) := by
  obtain ⟨e, he⟩ := hs
  have he' : Editor.Document.parse s' = .ok e := (Editor.sameResult_parse_of_eqvGen h e).1 he
  have hload : load s = e.convert := by rw [load, he]
  have hload' : load s' = e.convert := by rw [load, he']
  rw [hload, hload']
  exact ⟨rfl, e.convert_ne_badText⟩

/-! ### A text in other words -/

/-- An edge between two nodes. -/
def Editor.bridgeEdge : Editor.Edge where
  id := "e"
  source := "a"
  target := "b"
  handle := some "true"

/-- A document with a single edge. -/
def Editor.bridge : Editor.Document where
  edges := [bridgeEdge]

/-- The document with its edge in front. -/
def Editor.turnedBridge (edge : Json) : Json :=
  obj [("edges", arr [edge]), ("nodes", arr [])]

/-- The edge with its outlet in front, under one of its names. -/
def Editor.turnedEdge (name : String) : Json :=
  obj [(name, str "true"), ("id", str "e"), ("source", str "a"), ("target", str "b")]

/-- The document in other words: members stand in another order, a field goes by another name, and
there is a member that is no field. -/
def Editor.rewordedBridge : Json :=
  obj [("zoom", str "wide"), ("edges", arr [turnedEdge "sourceHandle"]), ("nodes", arr [])]

lemma Editor.isExact_bridge : bridge.IsExact 120 := List.forall_mem_nil _

lemma Editor.rephrases_compact {j j' : Json} (hj : Whole j) (hj' : Whole j')
    (h : Edit depthLimit (.record documentForms) j.tree j'.tree) : Rephrases j.compact j'.compact :=
  .edit (spellsText_ofList hj.spells_write) (spellsText_ofList hj'.spells_write) h

/-- A change of the edge is a change of the document. -/
lemma Editor.edit_turnedBridge {j j' : Json} (h : Edit 125 (.record edgeForms) j.tree j'.tree) :
    Edit depthLimit (.record documentForms) (turnedBridge j).tree (turnedBridge j').tree :=
  .field (f := ⟨["edges"], false, .list (.record edgeForms)⟩)
    (List.mem_cons_of_mem _ List.mem_cons_self)
    ⟨"edges", List.mem_cons_self, text_quoted "edges"⟩ (.item [] [] h)

lemma Editor.whole_turnedBridge {j : Json} (h : Whole j) : Whole (turnedBridge j) :=
  .obj <| WholeMembers.cons (.arr (by simpa using h)) <| .cons (.arr nofun) wholeMembers_nil

lemma Editor.whole_turnedEdge (name : String) : Whole (turnedEdge name) :=
  .obj <| WholeMembers.cons (.str _) <| .cons (.str _) <| .cons (.str _) <|
    .cons (.str _) wholeMembers_nil

lemma Editor.eqvGen_rewordedBridge :
    Relation.EqvGen Rephrases bridge.json.compact rewordedBridge.pretty := by
  have hwhole : Whole bridge.json := .obj (Document.wholeMembers isExact_bridge)
  have hedge : Whole bridgeEdge.json := .obj bridgeEdge.wholeMembers
  have hreworded : Whole rewordedBridge :=
    .obj <| WholeMembers.cons (.str _) <| .cons (.arr (by simpa using whole_turnedEdge _)) <|
      .cons (.arr nofun) wholeMembers_nil
  -- The edge comes before the nodes.
  have hturn : Rephrases bridge.json.compact (turnedBridge bridgeEdge.json).compact :=
    rephrases_compact hwhole (whole_turnedBridge hedge) (.order (.swap _ _ _))
  -- Its outlet comes first, and then goes by its other name.
  have houtlet : Rephrases _ (turnedBridge (turnedEdge "source_handle")).compact :=
    rephrases_compact (whole_turnedBridge hedge) (whole_turnedBridge (whole_turnedEdge _))
      (edit_turnedBridge (.order (List.perm_append_singleton _ [_, _, _])))
  have hname : Rephrases _ (turnedBridge (turnedEdge "sourceHandle")).compact :=
    rephrases_compact (whole_turnedBridge (whole_turnedEdge _))
      (whole_turnedBridge (whole_turnedEdge _))
      (edit_turnedBridge (.name (f := optionalForm ["source_handle", "sourceHandle"])
        (by simp [edgeForms]) ⟨"source_handle", List.mem_cons_self, text_quoted _⟩
        ⟨"sourceHandle", List.mem_cons_of_mem _ List.mem_cons_self, text_quoted _⟩))
  -- A member is added that is no field, and the text gets its spaces.
  have hforeign : Rephrases _ rewordedBridge.compact :=
    rephrases_compact (whole_turnedBridge (whole_turnedEdge _)) hreworded
      (.foreign ⟨"zoom", text_quoted _, by decide⟩ (.text (text_quoted _)))
  have hspaces : Rephrases rewordedBridge.compact rewordedBridge.pretty :=
    .spaces (spellsText_ofList hreworded.spells_write)
      (spellsText_ofList (hreworded.spells_writePretty 0))
  exact .trans _ _ _ (.rel _ _ hturn) <| .trans _ _ _ (.rel _ _ houtlet) <|
    .trans _ _ _ (.rel _ _ hname) <| .trans _ _ _ (.rel _ _ hforeign) (.rel _ _ hspaces)

theorem Document.load_rewordedBridge :
    (∃ e, Editor.Document.parse Editor.bridge.json.compact = .ok e) ∧
      Relation.EqvGen Editor.Rephrases Editor.bridge.json.compact Editor.rewordedBridge.pretty ∧
      load Editor.rewordedBridge.pretty = load Editor.bridge.json.compact := by
  have hparse : ∃ e, Editor.Document.parse Editor.bridge.json.compact = .ok e :=
    ⟨_, Editor.Document.parse_compact Editor.isExact_bridge⟩
  exact ⟨hparse, Editor.eqvGen_rewordedBridge,
    (load_eq_of_rephrases hparse Editor.eqvGen_rewordedBridge).1⟩

end Dialogue
