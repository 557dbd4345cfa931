import Dialogue.Editor.Format
import Dialogue.Proofs.Records
/-!
The editor's format on trees.

The readers of the parts of a document are regular: what they make of a text depends on the tree
that it is a spelling of, and on nothing else.
-/

namespace Dialogue.Json

section Scalars

variable {σ α : Type} {as : Json → Except Fault α}

/-- Whatever a container holds, it is not accepted. -/
structure RefusesContainers (as : Json → Except Fault α) : Prop where
  list : ∃ fault, as (.arr []) = .error fault
  object : ∃ fault, as (.obj []) = .error fault

lemma refusesContainers_asText : RefusesContainers asText := ⟨⟨_, rfl⟩, ⟨_, rfl⟩⟩

lemma refusesContainers_asFlag : RefusesContainers asFlag := ⟨⟨_, rfl⟩, ⟨_, rfl⟩⟩

lemma refusesContainers_asWord : RefusesContainers asWord := ⟨⟨_, rfl⟩, ⟨_, rfl⟩⟩

lemma refusesContainers_asInt : RefusesContainers asInt := ⟨⟨_, rfl⟩, ⟨_, rfl⟩⟩

lemma RefusesContainers.map {β : Type} (h : RefusesContainers as) (g : α → β) :
    RefusesContainers fun j => g <$> as j := by
  obtain ⟨⟨fault, hlist⟩, ⟨fault', hobject⟩⟩ := h
  exact ⟨⟨fault, by rw [hlist]; rfl⟩, ⟨fault', by rw [hobject]; rfl⟩⟩

lemma RefusesContainers.optional (h : RefusesContainers as) : RefusesContainers (asOptional as) :=
  ⟨(h.map some).list, (h.map some).object⟩

lemma RefusesContainers.onTree_scalar (h : RefusesContainers as) (t : Tree) :
    onTree (scalar as) t = t.seen >>= as :=
  (gives_scalar h.list h.object t).onTree_eq

lemma RefusesContainers.regular (h : RefusesContainers as) : Regular (scalar as) :=
  regular_of_gives fun t => ⟨_, gives_scalar h.list h.object t⟩

end Scalars

/-! ## Fields -/

section Fields

variable {σ α : Type}

/-- The readers of the fields are regular at every depth. -/
def RegularFields (fields : List (RecordField σ)) : Prop :=
  ∀ f ∈ fields, ∀ depth, Regular (f.read depth)

lemma regularFields_nil : RegularFields ([] : List (RecordField σ)) := nofun

lemma RegularFields.cons {f : RecordField σ} {fields : List (RecordField σ)}
    (hf : ∀ depth, Regular (f.read depth)) (h : RegularFields fields) :
    RegularFields (f :: fields) :=
  List.forall_mem_cons.2 ⟨hf, h⟩

lemma regular_ofScalar {name : String} {aliases : List String} {required : Bool}
    {as : Json → Except Fault α} {put : α → σ → σ} (h : RefusesContainers as) (depth : Nat) :
    Regular ((RecordField.ofScalar name aliases required as put).read depth) :=
  h.regular.map put

lemma RegularFields.record {name : String} {fields : List (RecordField σ)} {blank : σ}
    (h : RegularFields fields) (depth : Nat) : Regular (record name fields blank depth) :=
  regular_of_gives fun t => ⟨_, gives_record h depth t⟩

lemma RegularFields.onTree_record {name : String} {fields : List (RecordField σ)} {blank : σ}
    (h : RegularFields fields) (depth : Nat) (t : Tree) :
    onTree (Json.record name fields blank depth) t = recordOn name fields blank depth t :=
  (gives_record h depth t).onTree_eq

variable {reader : (depth : Nat) → Reader α}

lemma regular_listOf (h : ∀ depth, Regular (reader depth)) (depth : Nat) :
    Regular (listOf reader depth) :=
  regular_of_gives fun t => ⟨_, gives_listOf h depth t⟩

lemma regular_dictOf (h : ∀ depth, Regular (reader depth)) (depth : Nat) :
    Regular (dictOf reader depth) :=
  regular_of_gives fun t => ⟨_, gives_dictOf h depth t⟩

lemma regular_optional (h : ∀ depth, Regular (reader depth)) (depth : Nat) :
    Regular (optional reader depth) :=
  regular_of_gives fun t => ⟨_, gives_optional h depth t⟩

end Fields

end Dialogue.Json

namespace Dialogue.Editor

open Json

/-! ## The parts of a document -/

lemma refusesContainers_slot {slot : Slot Message} (h : slot ∈ messageSlots) :
    RefusesContainers slot.put := by
  simp only [messageSlots, List.mem_cons, List.not_mem_nil, or_false] at h
  rcases h with rfl | rfl | rfl | rfl | rfl
  · exact refusesContainers_asText.optional.map _
  · exact refusesContainers_asText.optional.map _
  · exact refusesContainers_asInt.optional.map _
  · exact refusesContainers_asInt.optional.map _
  · exact refusesContainers_asInt.optional.map _

lemma regularFields_message : RegularFields (messageSlots.map Slot.field) := by
  intro f hf depth
  obtain ⟨slot, hslot, rfl⟩ := List.mem_map.1 hf
  exact regular_ofScalar (refusesContainers_slot hslot) depth

lemma regular_readMessage (depth : Nat) : Regular (readMessage depth) :=
  regularFields_message.record depth

lemma regularFields_condition : RegularFields conditionFields :=
  .cons (regular_ofScalar refusesContainers_asText)
  (.cons (regular_ofScalar refusesContainers_asWord.optional)
  (.cons (regular_ofScalar refusesContainers_asWord.optional)
  (.cons (regular_ofScalar refusesContainers_asText.optional)
  (.cons (fun depth => (regular_optional regular_value depth).map _)
  (.cons (regular_ofScalar refusesContainers_asText.optional) regularFields_nil)))))

lemma regular_readCondition (depth : Nat) : Regular (readCondition depth) :=
  regularFields_condition.record depth

lemma regularFields_action : RegularFields actionFields :=
  .cons (regular_ofScalar refusesContainers_asText)
  (.cons (regular_ofScalar refusesContainers_asText.optional)
  (.cons (regular_ofScalar refusesContainers_asWord.optional)
  (.cons (regular_ofScalar refusesContainers_asText.optional)
  (.cons (regular_ofScalar refusesContainers_asWord.optional)
  (.cons (regular_ofScalar refusesContainers_asWord.optional)
  (.cons (fun depth => (regular_optional regular_value depth).map _)
  (.cons (regular_ofScalar refusesContainers_asText.optional)
  (.cons (regular_ofScalar refusesContainers_asText.optional)
  (.cons (fun depth => (regular_optional (regular_dictOf regular_value) depth).map _)
  regularFields_nil)))))))))

/-- What is made of a tree that has to be an action. -/
def actionOn (depth : Nat) (t : Tree) : Except Fault Action := do
  let draft ← openRecordOn "EditorAction" (actionFields.map onAction)
    (fun key j d => { d with others := (key, j) :: d.others }) {} depth t
  let message ← fillSlots messageSlots [] draft.others.reverse {}
  return { draft.action with message }

lemma gives_readAction (depth : Nat) (t : Tree) :
    Gives (readAction depth) t (actionOn depth t) := by
  intro ws cs rest hws hcs hrest
  have hfields : RegularFields (actionFields.map onAction) := by
    intro f hf depth
    obtain ⟨g, hg, rfl⟩ := List.mem_map.1 hf
    exact (regularFields_action g hg depth).map _
  rw [readAction, bind_of_eq (gives_openRecord hfields depth t ws cs rest hws hcs hrest), actionOn]
  cases openRecordOn _ _ _ _ _ _ with
  | error fault => rfl
  | ok draft =>
    rw [ok_bind, ok_bind, bind_lift]
    cases fillSlots messageSlots [] draft.others.reverse {} <;> rfl

lemma regular_readAction (depth : Nat) : Regular (readAction depth) :=
  regular_of_gives fun t => ⟨_, gives_readAction depth t⟩

lemma regularFields_choice : RegularFields choiceFields :=
  .cons (regular_ofScalar refusesContainers_asText)
  (.cons (regular_ofScalar refusesContainers_asText)
  (.cons (fun depth => (regular_optional regular_readCondition depth).map _)
  (.cons (fun depth => (regular_optional regular_readCondition depth).map _) regularFields_nil)))

lemma regular_readChoice (depth : Nat) : Regular (readChoice depth) :=
  regularFields_choice.record depth

lemma regularFields_nodeData : RegularFields nodeDataFields :=
  .cons (regular_ofScalar refusesContainers_asText.optional)
  (.cons (regular_ofScalar refusesContainers_asFlag)
  (.cons (fun depth => (regular_listOf regular_readAction depth).map _)
  (.cons (fun depth => (regular_optional regular_readCondition depth).map _)
  (.cons (fun depth => (regular_listOf regular_readChoice depth).map _)
  (.cons (regular_ofScalar refusesContainers_asText.optional)
  (.cons (regular_ofScalar refusesContainers_asInt.optional)
  (.cons (regular_ofScalar refusesContainers_asInt.optional)
  (.cons (fun depth => (regular_optional regular_readMessage depth).map _) regularFields_nil))))))))

lemma regular_readNodeData (depth : Nat) : Regular (readNodeData depth) :=
  regularFields_nodeData.record depth

lemma regularFields_node : RegularFields nodeFields :=
  .cons (regular_ofScalar refusesContainers_asText)
  (.cons (regular_ofScalar refusesContainers_asText)
  (.cons (fun depth => (regular_readNodeData depth).map _) regularFields_nil))

lemma regular_readNode (depth : Nat) : Regular (readNode depth) :=
  regularFields_node.record depth

lemma regularFields_edge : RegularFields edgeFields :=
  .cons (regular_ofScalar refusesContainers_asText)
  (.cons (regular_ofScalar refusesContainers_asText)
  (.cons (regular_ofScalar refusesContainers_asText)
  (.cons (regular_ofScalar refusesContainers_asText.optional) regularFields_nil)))

lemma regular_readEdge (depth : Nat) : Regular (readEdge depth) :=
  regularFields_edge.record depth

lemma regularFields_document : RegularFields documentFields :=
  .cons (fun depth => (regular_listOf regular_readNode depth).map _)
  (.cons (fun depth => (regular_listOf regular_readEdge depth).map _) regularFields_nil)

theorem regular_readDocument (depth : Nat) : Regular (readDocument depth) :=
  regularFields_document.record depth

end Dialogue.Editor
