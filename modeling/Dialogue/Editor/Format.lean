import Dialogue.Editor.Document
import Dialogue.Json.Record
/-!
The JSON format of the editor's documents.

Each record is given by the list of its fields, in the order in which they stand when the record is
written as a list.  An action takes the fields of a message among its own members; these are looked
at after all the others.
-/

namespace Dialogue.Editor

open Json (RecordField Reader Fault)

/-- A field that holds a text and has no default. -/
def requiredText {σ : Type} (name : String) (put : String → σ → σ) : RecordField σ :=
  .ofScalar name [] true Json.asText put

/-- A field that holds a text. -/
def plainText {σ : Type} (name : String) (put : String → σ → σ) : RecordField σ :=
  .ofScalar name [] false Json.asText put

/-- A field that may hold a text. -/
def optionalText {σ : Type} (name : String) (aliases : List String) (put : Option String → σ → σ) :
    RecordField σ :=
  .ofScalar name aliases false (Json.asOptional Json.asText) put

/-- A field that may hold a number without sign. -/
def optionalWord {σ : Type} (name : String) (aliases : List String) (put : Option UInt32 → σ → σ) :
    RecordField σ :=
  .ofScalar name aliases false (Json.asOptional Json.asWord) put

/-- A field that may hold a number with sign. -/
def optionalInt {σ : Type} (name : String) (aliases : List String) (put : Option Int64 → σ → σ) :
    RecordField σ :=
  .ofScalar name aliases false (Json.asOptional Json.asInt) put

/-- A field that may hold any value. -/
def optionalValue {σ : Type} (name : String) (put : Option Json → σ → σ) : RecordField σ where
  name := name
  read depth := put <$> Json.optional Json.value depth

/-! ## Messages -/

/-- A scalar field that can also be taken from a member which was kept as it is. -/
structure Slot (σ : Type) where
  /-- The name of the field. -/
  name : String
  /-- Other names under which it may be written. -/
  aliases : List String
  /-- Puts a scalar into a draft. -/
  put : Json → Except Fault (σ → σ)

/-- The slot as a field. -/
def Slot.field {σ : Type} (s : Slot σ) : RecordField σ :=
  .ofScalar s.name s.aliases false s.put id

/-- A slot that may hold a text. -/
def Slot.text {σ : Type} (name : String) (aliases : List String) (put : Option String → σ → σ) :
    Slot σ :=
  ⟨name, aliases, fun j => put <$> Json.asOptional Json.asText j⟩

/-- A slot that may hold a number. -/
def Slot.int {σ : Type} (name : String) (aliases : List String) (put : Option Int64 → σ → σ) :
    Slot σ :=
  ⟨name, aliases, fun j => put <$> Json.asOptional Json.asInt j⟩

/-- Fills slots from members that were kept; members that fit no slot do not matter. -/
def fillSlots {σ : Type} (slots : List (Slot σ)) :
    (seen : List String) → List (String × Json) → σ → Except Fault σ
  | _, [], draft => .ok draft
  | seen, (key, j) :: more, draft =>
    match slots.find? (·.field.isNamed key) with
    | none => fillSlots slots seen more draft
    | some slot =>
      if seen.contains slot.name then .error (.duplicateField slot.name)
      else do
        let change ← slot.put j
        fillSlots slots (slot.name :: seen) more (change draft)

/-- The fields of a message. -/
def messageSlots : List (Slot Message) :=
  [.text "text" [] fun v m => { m with text := v },
    .text "face_name" ["faceName"] fun v m => { m with faceName := v },
    .int "face_index" ["faceIndex"] fun v m => { m with faceIndex := v },
    .int "background" [] fun v m => { m with background := v },
    .int "position" [] fun v m => { m with position := v }]

/-- A message. -/
def readMessage (depth : Nat) : Reader Message :=
  Json.record "EditorMessage" (messageSlots.map Slot.field) {} depth

/-! ## Conditions, actions, choices -/

/-- The fields of a condition. -/
def conditionFields : List (RecordField Condition) :=
  [requiredText "type" fun v c => { c with tag := v },
    optionalWord "switch_id" ["switchId"] fun v c => { c with switchId := v },
    optionalWord "variable_id" ["variableId"] fun v c => { c with variableId := v },
    optionalText "operator" [] fun v c => { c with operator := v },
    optionalValue "value" fun v c => { c with value := v },
    optionalText "expression" ["script"] fun v c => { c with expression := v }]

/-- A condition. -/
def readCondition (depth : Nat) : Reader Condition :=
  Json.record "EditorCondition" conditionFields {} depth

/-- An action whose message has not been looked at, with the members that may belong to it, the last
one first. -/
structure ActionDraft where
  /-- The action without its message. -/
  action : Action := {}
  /-- Members that are no fields of the action itself. -/
  others : List (String × Json) := []

/-- A field of an action as a field of its draft. -/
def onAction (f : RecordField Action) : RecordField ActionDraft where
  name := f.name
  aliases := f.aliases
  required := f.required
  read depth := (fun change d => { d with action := change d.action }) <$> f.read depth

/-- The fields of an action, without those of its message. -/
def actionFields : List (RecordField Action) :=
  [requiredText "type" fun v a => { a with tag := v },
    optionalText "script" ["code"] fun v a => { a with script := v },
    optionalWord "variable_id" ["variableId"] fun v a => { a with variableId := v },
    optionalText "operation" [] fun v a => { a with operation := v },
    optionalWord "switch_id" ["switchId"] fun v a => { a with switchId := v },
    optionalWord "event_id" ["eventId", "commonEventId"] fun v a => { a with eventId := v },
    optionalValue "value" fun v a => { a with value := v },
    optionalText "plugin_name" ["pluginName"] fun v a => { a with pluginName := v },
    optionalText "command_name" ["commandName"] fun v a => { a with commandName := v },
    { name := "args"
      read := fun depth =>
        (fun v a => { a with args := v }) <$> Json.optional (Json.dictOf Json.value) depth }]

/-- An action. -/
def readAction (depth : Nat) : Reader Action := do
  let draft ← Json.openRecord "EditorAction" (actionFields.map onAction)
    (fun key j d => { d with others := (key, j) :: d.others }) {} depth
  let message ← fillSlots messageSlots [] draft.others.reverse {}
  return { draft.action with message }

/-- The fields of a choice. -/
def choiceFields : List (RecordField Choice) :=
  [plainText "id" fun v c => { c with id := v },
    plainText "text" fun v c => { c with text := v },
    { name := "hide_condition"
      aliases := ["hideCondition"]
      read := fun depth =>
        (fun v c => { c with hide := v }) <$> Json.optional readCondition depth },
    { name := "disable_condition"
      aliases := ["disableCondition"]
      read := fun depth =>
        (fun v c => { c with disable := v }) <$> Json.optional readCondition depth }]

/-- A choice. -/
def readChoice (depth : Nat) : Reader Choice :=
  Json.record "EditorChoice" choiceFields {} depth

/-! ## Nodes, edges, documents -/

/-- The fields of the content of a node. -/
def nodeDataFields : List (RecordField NodeData) :=
  [optionalText "label" [] fun v d => { d with label := v },
    .ofScalar "muted" [] false Json.asFlag fun v d => { d with muted := v },
    { name := "actions"
      read := fun depth => (fun v d => { d with actions := v }) <$> Json.listOf readAction depth },
    { name := "condition"
      read := fun depth =>
        (fun v d => { d with condition := v }) <$> Json.optional readCondition depth },
    { name := "choices"
      read := fun depth => (fun v d => { d with choices := v }) <$> Json.listOf readChoice depth },
    optionalText "cancel_type" ["cancelType"] fun v d => { d with cancelType := v },
    optionalInt "window_position" ["windowPosition"] fun v d => { d with windowPosition := v },
    optionalInt "window_background" ["windowBackground"] fun v d =>
      { d with windowBackground := v },
    { name := "prompt"
      read := fun depth =>
        (fun v d => { d with prompt := v }) <$> Json.optional readMessage depth }]

/-- The content of a node. -/
def readNodeData (depth : Nat) : Reader NodeData :=
  Json.record "EditorNodeData" nodeDataFields {} depth

/-- The fields of a node. -/
def nodeFields : List (RecordField Node) :=
  [requiredText "id" fun v n => { n with id := v },
    requiredText "type" fun v n => { n with tag := v },
    { name := "data"
      read := fun depth => (fun v n => { n with data := v }) <$> readNodeData depth }]

/-- A node. -/
def readNode (depth : Nat) : Reader Node :=
  Json.record "EditorNode" nodeFields {} depth

/-- The fields of an edge. -/
def edgeFields : List (RecordField Edge) :=
  [plainText "id" fun v e => { e with id := v },
    requiredText "source" fun v e => { e with source := v },
    requiredText "target" fun v e => { e with target := v },
    optionalText "source_handle" ["sourceHandle"] fun v e => { e with handle := v }]

/-- An edge. -/
def readEdge (depth : Nat) : Reader Edge :=
  Json.record "EditorEdge" edgeFields {} depth

/-- The fields of a document. -/
def documentFields : List (RecordField Document) :=
  [{ name := "nodes"
     read := fun depth => (fun v d => { d with nodes := v }) <$> Json.listOf readNode depth },
    { name := "edges"
      read := fun depth => (fun v d => { d with edges := v }) <$> Json.listOf readEdge depth }]

/-- A document. -/
def readDocument (depth : Nat) : Reader Document :=
  Json.record "EditorDocument" documentFields {} depth

/-- The document that a JSON text stands for. -/
def Document.parse (s : String) : Except Fault Document :=
  Json.readAll (readDocument Json.depthLimit) s

end Dialogue.Editor
