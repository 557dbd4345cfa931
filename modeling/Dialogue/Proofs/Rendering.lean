import Dialogue.Editor.Conversion
import Dialogue.Proofs.FlatActions
import Dialogue.Proofs.Printed
/-!
Writing documents in the editor's format.

A record is written with all its fields in their order (`Fills`); what is left out becomes `null`.
A document that is written so is read back, as far as the values in it are exact
(`Document.parse_compact`).  The values of conditions and actions are the only parts of a document
that may not be: they can hold fractions, or objects whose keys do not increase.
-/

namespace Dialogue.Json

/-! ## Records with all their fields -/

section Fills

variable {σ : Type} {depth : Nat}

/-- The members are all the fields in their order, each with a value that is read as a change. -/
inductive Fills (depth : Nat) :
    List (RecordField σ) → List (RawText × Tree) → (σ → σ) → Prop
  | nil : Fills depth [] [] id
  | cons {f : RecordField σ} {fields : List (RecordField σ)} {t : Tree} {ms : List (RawText × Tree)}
      {change rest : σ → σ} (h : onTree (f.read depth) t = .ok change)
      (hrest : Fills depth fields ms rest) :
      Fills depth (f :: fields) ((quoted f.name, t) :: ms) (rest ∘ change)

lemma Fills.append {fields fields' : List (RecordField σ)} {ms ms' : List (RawText × Tree)}
    {total total' : σ → σ} (h : Fills depth fields ms total) (h' : Fills depth fields' ms' total') :
    Fills depth (fields ++ fields') (ms ++ ms') (total' ∘ total) := by
  induction h with
  | nil => exact h'
  | cons hread _ ih =>
    rw [← Function.comp_assoc]
    exact .cons hread ih

variable {fields part : List (RecordField σ)} {ms : List (RawText × Tree)} {total : σ → σ}
  {other : String → Tree → Except Fault (σ → σ)}

lemma Fills.exists_changes (h : Fills depth part ms total) (hapart : Apart fields)
    (hpart : part ⊆ fields) :
    ∃ changes, ms.mapM (changeOn fields other depth) = .ok changes ∧
      changed changes = part.map (·.name) ∧ ∀ s, applyAll changes s = total s := by
  induction h with
  | nil => exact ⟨[], rfl, rfl, fun _ => rfl⟩
  | @cons f part t ms change rest hread _ ih =>
    obtain ⟨hf, hpart⟩ := List.cons_subset.1 hpart
    obtain ⟨changes, hchanges, hnames, happly⟩ := ih hpart
    have hfind := hapart.find?_eq_some hf (k := f.name) List.mem_cons_self
    have hchange : changeOn fields other depth (quoted f.name, t) = .ok (some f.name, change) := by
      rw [changeOn_of_some (m := (quoted f.name, t)) (text_quoted f.name) hfind, hread]
      rfl
    refine ⟨_ :: changes, mapM_cons_eq_ok_iff.2 ⟨_, changes, hchange, hchanges, rfl⟩, ?_, ?_⟩
    · rw [changed_cons, hnames]
      rfl
    · exact fun s => happly (change s)

lemma Apart.nodup_names (h : Apart fields) : (fields.map (·.name)).Nodup := by
  induction fields with
  | nil => exact .nil
  | cons f fields ih =>
    rw [Apart, List.flatMap_cons, List.nodup_append] at h
    refine List.nodup_cons.2 ⟨fun hmem => ?_, ih h.2.1⟩
    obtain ⟨g, hg, hname⟩ := List.mem_map.1 hmem
    exact h.2.2 f.name List.mem_cons_self g.name
      (List.mem_flatMap.2 ⟨g, hg, List.mem_cons_self⟩) hname.symm

theorem Fills.recordMembersOn (h : Fills depth fields ms total) (hapart : Apart fields)
    (blank : σ) :
    recordMembersOn fields other blank depth ms = .ok (total blank) := by
  obtain ⟨changes, hchanges, hnames, happly⟩ := h.exists_changes hapart (List.Subset.refl _)
  refine recordMembersOn_eq_ok_iff.2 ⟨changes, hchanges, ?_, fun f hf _ => ?_, happly blank⟩
  · rw [hnames]
    exact hapart.nodup_names
  · rw [hnames]
    exact List.mem_map_of_mem hf

end Fills

/-! ## Fields with a value -/

/-- What may be left out, as a value. -/
def optJson {α : Type} (f : α → Json) : Option α → Json
  | none => null
  | some a => f a

section Values

variable {σ α : Type} {as : Json → Except Fault α} {j : Json} {v : α} {f : α → Json}
  {reader : (depth : Nat) → Reader α} {depth : Nat}

lemma seen_tree (h : Exact 0 j) : j.tree.seen = .ok j := by
  cases h with
  | null => rfl
  | bool b => rfl
  | int hmin hmax => exact seen_int hmin hmax
  | str s =>
    rw [tree, Tree.seen, text_quoted]
    rfl

lemma onTree_ofScalar {name : String} {aliases : List String} {required : Bool} {put : α → σ → σ}
    (h : RefusesContainers as) (hj : Exact 0 j) (hv : as j = .ok v) :
    onTree ((RecordField.ofScalar name aliases required as put).read depth) j.tree =
      .ok (put v) := by
  have hread : onTree (scalar as) j.tree = .ok v := by
    rw [h.onTree_scalar, seen_tree hj, ok_bind, hv]
  refine (onTree_map (scalar as) put j.tree).trans ?_
  rw [hread]
  rfl

lemma onTree_put {r : Reader α} {t : Tree} {put : α → σ → σ} (h : onTree r t = .ok v) :
    onTree (put <$> r) t = .ok (put v) := by
  rw [onTree_map, h]
  rfl

lemma onTree_listOf (hreader : ∀ depth, Regular (reader depth)) {vs : List α}
    (h : ∀ v ∈ vs, onTree (reader depth) (f v).tree = .ok v) :
    onTree (listOf reader (depth + 1)) (arr (vs.map f)).tree = .ok vs := by
  have hitems : (vs.map fun v => (f v).tree).mapM (onTree (reader depth)) = .ok (vs.map id) :=
    mapM_eq_ok h
  rw [(gives_listOf hreader _ _).onTree_eq, tree, listOn, within, itemTrees_eq, List.map_map]
  rw [List.map_id] at hitems
  exact hitems

lemma onTree_optional (hreader : ∀ depth, Regular (reader depth)) {o : Option α}
    (hnull : ∀ v ∈ o, (f v).tree ≠ .null) (h : ∀ v ∈ o, onTree (reader depth) (f v).tree = .ok v) :
    onTree (optional reader depth) (optJson f o).tree = .ok o := by
  rw [(gives_optional hreader _ _).onTree_eq]
  cases o with
  | none => rfl
  | some v =>
    rw [optJson, optionalOn_of_ne (hnull v rfl), h v rfl]
    rfl

lemma tree_obj_ne_null (members : List (String × Json)) : (obj members).tree ≠ .null := nofun

lemma tree_ne_null_of_exact (h : Exact depth j) (hnull : j ≠ null) : j.tree ≠ .null := by
  cases h with
  | null => exact absurd rfl hnull
  | _ => nofun

lemma onTree_dictOf {es : List (String × Json)} (h : Exact depth (obj es)) :
    onTree (dictOf value depth) (obj es).tree = .ok es := by
  have hvalue := onTree_tree h
  rw [tree, onTree_value_object] at hvalue
  obtain ⟨es', hes', ⟨⟩⟩ := map_eq_ok_iff.1 hvalue
  exact hes'

lemma exact_optJson {o : Option α} (h : ∀ v, Exact depth (f v)) : Exact depth (optJson f o) := by
  cases o with
  | none => exact .null
  | some v => exact h v

lemma asOptional_optJson {o : Option α} (hnull : ∀ v, f v ≠ null) (h : ∀ v, as (f v) = .ok v) :
    asOptional as (optJson f o) = .ok o := by
  cases o with
  | none => rfl
  | some v =>
    rw [optJson, asOptional, h]
    · rfl
    · exact hnull v

end Values

/-- A number without sign. -/
def wordJson (n : UInt32) : Json :=
  int n.toNat

/-- A number with sign. -/
def intJson (n : Int64) : Json :=
  int n.toInt

lemma exact_wordJson {depth : Nat} (n : UInt32) : Exact depth (wordJson n) := by
  have := n.toNat_lt
  exact .int (by omega) (by omega)

lemma exact_intJson {depth : Nat} (n : Int64) : Exact depth (intJson n) := by
  have := n.le_toInt
  have := n.toInt_lt
  exact .int (by omega) (by omega)

lemma asWord_wordJson (n : UInt32) : asWord (wordJson n) = .ok n := by
  have hlt : (n.toNat : Int) < UInt32.size := by
    have := n.toNat_lt_size
    omega
  have hrange : (decide (0 ≤ (n.toNat : Int)) && decide ((n.toNat : Int) < UInt32.size)) = true :=
    Bool.and_eq_true_iff.2 ⟨decide_eq_true (Int.natCast_nonneg _), decide_eq_true hlt⟩
  have hword : UInt32.ofNat (n.toNat : Int).toNat = n := UInt32.ofNat_toNat
  rw [wordJson, int, asWord, if_pos hrange, hword]

lemma asInt_intJson (n : Int64) : asInt (intJson n) = .ok n := by
  have hrange : (decide (Int64.minValue.toInt ≤ n.toInt) &&
      decide (n.toInt ≤ Int64.maxValue.toInt)) = true :=
    Bool.and_eq_true_iff.2 ⟨decide_eq_true n.minValue_le_toInt, decide_eq_true n.toInt_le⟩
  rw [intJson, int, asInt, if_pos hrange, Int64.ofInt_toInt]

lemma asOptional_text (o : Option String) : asOptional asText (optJson str o) = .ok o :=
  asOptional_optJson (fun _ => nofun) fun _ => rfl

lemma asOptional_word (o : Option UInt32) : asOptional asWord (optJson wordJson o) = .ok o :=
  asOptional_optJson (fun _ => nofun) asWord_wordJson

lemma asOptional_int (o : Option Int64) : asOptional asInt (optJson intJson o) = .ok o :=
  asOptional_optJson (fun _ => nofun) asInt_intJson

section Fields

variable {σ : Type} {depth : Nat} {name : String} {aliases : List String} {required : Bool}

lemma onTree_text {put : String → σ → σ} (s : String) :
    onTree ((RecordField.ofScalar name aliases required asText put).read depth) (str s).tree =
      .ok (put s) :=
  onTree_ofScalar refusesContainers_asText (.str s) rfl

lemma onTree_flag {put : Bool → σ → σ} (b : Bool) :
    onTree ((RecordField.ofScalar name aliases required asFlag put).read depth) (bool b).tree =
      .ok (put b) :=
  onTree_ofScalar refusesContainers_asFlag (.bool b) rfl

lemma onTree_optionalText {put : Option String → σ → σ} (o : Option String) :
    onTree ((RecordField.ofScalar name aliases required (asOptional asText) put).read depth)
      (optJson str o).tree = .ok (put o) :=
  onTree_ofScalar refusesContainers_asText.optional (exact_optJson .str) (asOptional_text o)

lemma onTree_optionalWord {put : Option UInt32 → σ → σ} (o : Option UInt32) :
    onTree ((RecordField.ofScalar name aliases required (asOptional asWord) put).read depth)
      (optJson wordJson o).tree = .ok (put o) :=
  onTree_ofScalar refusesContainers_asWord.optional (exact_optJson exact_wordJson)
    (asOptional_word o)

lemma onTree_optionalInt {put : Option Int64 → σ → σ} (o : Option Int64) :
    onTree ((RecordField.ofScalar name aliases required (asOptional asInt) put).read depth)
      (optJson intJson o).tree = .ok (put o) :=
  onTree_ofScalar refusesContainers_asInt.optional (exact_optJson exact_intJson) (asOptional_int o)

end Fields

section Whole

/-- The values of the members have no fractions. -/
def WholeMembers (members : List (String × Json)) : Prop :=
  ∀ m ∈ members, Whole m.2

lemma wholeMembers_nil : WholeMembers [] := nofun

lemma WholeMembers.cons {key : String} {j : Json} {members : List (String × Json)} (hj : Whole j)
    (h : WholeMembers members) : WholeMembers ((key, j) :: members) :=
  List.forall_mem_cons.2 ⟨hj, h⟩

variable {α : Type} {f : α → Json}

lemma whole_optJson {o : Option α} (h : ∀ v ∈ o, Whole (f v)) : Whole (optJson f o) := by
  cases o with
  | none => exact .null
  | some v => exact h v rfl

lemma whole_list {vs : List α} (h : ∀ v ∈ vs, Whole (f v)) : Whole (arr (vs.map f)) := by
  refine .arr fun j hj => ?_
  obtain ⟨v, hv, rfl⟩ := List.mem_map.1 hj
  exact h v hv

lemma whole_text (o : Option String) : Whole (optJson str o) :=
  whole_optJson fun s _ => .str s

lemma whole_word (o : Option UInt32) : Whole (optJson wordJson o) :=
  whole_optJson fun _ _ => .int _

lemma whole_int (o : Option Int64) : Whole (optJson intJson o) :=
  whole_optJson fun _ _ => .int _

end Whole

end Dialogue.Json

namespace Dialogue.Editor

open Json

/-! ## The parts of a document as values -/

/-- The members of a message. -/
def Message.members (m : Message) : List (String × Json) :=
  [("text", optJson str m.text), ("face_name", optJson str m.faceName),
    ("face_index", optJson intJson m.faceIndex), ("background", optJson intJson m.background),
    ("position", optJson intJson m.position)]

/-- A message as a value. -/
def Message.json (m : Message) : Json :=
  obj m.members

/-- The members of a condition. -/
def Condition.members (c : Condition) : List (String × Json) :=
  [("type", str c.tag), ("switch_id", optJson wordJson c.switchId),
    ("variable_id", optJson wordJson c.variableId), ("operator", optJson str c.operator),
    ("value", optJson id c.value), ("expression", optJson str c.expression)]

/-- A condition as a value. -/
def Condition.json (c : Condition) : Json :=
  obj c.members

/-- The members of an action, without those of its message. -/
def Action.ownMembers (a : Action) : List (String × Json) :=
  [("type", str a.tag), ("script", optJson str a.script),
    ("variable_id", optJson wordJson a.variableId), ("operation", optJson str a.operation),
    ("switch_id", optJson wordJson a.switchId), ("event_id", optJson wordJson a.eventId),
    ("value", optJson id a.value), ("plugin_name", optJson str a.pluginName),
    ("command_name", optJson str a.commandName), ("args", optJson obj a.args)]

/-- The members of an action, with those of its message at the end. -/
def Action.members (a : Action) : List (String × Json) :=
  a.ownMembers ++ a.message.members

/-- An action as a value. -/
def Action.json (a : Action) : Json :=
  obj a.members

/-- The members of a choice. -/
def Choice.members (c : Choice) : List (String × Json) :=
  [("id", str c.id), ("text", str c.text), ("hide_condition", optJson Condition.json c.hide),
    ("disable_condition", optJson Condition.json c.disable)]

/-- A choice as a value. -/
def Choice.json (c : Choice) : Json :=
  obj c.members

/-- The members of the content of a node. -/
def NodeData.members (d : NodeData) : List (String × Json) :=
  [("label", optJson str d.label), ("muted", bool d.muted),
    ("actions", arr (d.actions.map Action.json)), ("condition", optJson Condition.json d.condition),
    ("choices", arr (d.choices.map Choice.json)), ("cancel_type", optJson str d.cancelType),
    ("window_position", optJson intJson d.windowPosition),
    ("window_background", optJson intJson d.windowBackground),
    ("prompt", optJson Message.json d.prompt)]

/-- The content of a node as a value. -/
def NodeData.json (d : NodeData) : Json :=
  obj d.members

/-- The members of a node. -/
def Node.members (n : Node) : List (String × Json) :=
  [("id", str n.id), ("type", str n.tag), ("data", n.data.json)]

/-- A node as a value. -/
def Node.json (n : Node) : Json :=
  obj n.members

/-- The members of an edge. -/
def Edge.members (e : Edge) : List (String × Json) :=
  [("id", str e.id), ("source", str e.source), ("target", str e.target),
    ("source_handle", optJson str e.handle)]

/-- An edge as a value. -/
def Edge.json (e : Edge) : Json :=
  obj e.members

/-- The members of a document. -/
def Document.members (d : Document) : List (String × Json) :=
  [("nodes", arr (d.nodes.map Node.json)), ("edges", arr (d.edges.map Edge.json))]

/-- A document as a value. -/
def Document.json (d : Document) : Json :=
  obj d.members

/-! ## Values in a document -/

/-- A value that was left out, or one that is read back. -/
def Keeps (depth : Nat) (o : Option Json) : Prop :=
  ∀ j ∈ o, j ≠ null ∧ Exact depth j

/-- The value of the condition is read back. -/
def Condition.IsExact (depth : Nat) (c : Condition) : Prop :=
  Keeps depth c.value

/-- The value and the arguments of the action are read back. -/
def Action.IsExact (depth : Nat) (a : Action) : Prop :=
  Keeps depth a.value ∧ ∀ es ∈ a.args, Exact depth (obj es)

/-- The conditions of the choice are read back. -/
def Choice.IsExact (depth : Nat) (c : Choice) : Prop :=
  (∀ e ∈ c.hide, e.IsExact depth) ∧ ∀ e ∈ c.disable, e.IsExact depth

/-- What the content of a node holds is read back, with `depth` containers for the values of the
conditions of its choices; the other values stand in less containers. -/
structure NodeData.IsExact (depth : Nat) (d : NodeData) : Prop where
  actions : ∀ a ∈ d.actions, a.IsExact (depth + 1)
  condition : ∀ c ∈ d.condition, c.IsExact (depth + 2)
  choices : ∀ c ∈ d.choices, c.IsExact depth

/-- What the nodes of a document hold is read back. -/
def Document.IsExact (depth : Nat) (d : Document) : Prop :=
  ∀ n ∈ d.nodes, n.data.IsExact depth

/-! ## Reading the parts back -/

section Reading

variable {depth : Nat}

/-- The slot makes a change of a value, whether the value is read as a field or was kept before. -/
structure Takes (slot : Slot Message) (j : Json) (change : Message → Message) : Prop where
  refuses : RefusesContainers slot.put
  isExact : Exact 0 j
  put : slot.put j = .ok change

lemma takes_text {name : String} {aliases : List String} {put : Option String → Message → Message}
    (o : Option String) : Takes (.text name aliases put) (optJson str o) (put o) where
  refuses := refusesContainers_asText.optional.map put
  isExact := exact_optJson .str
  put := congrArg (put <$> ·) (asOptional_text o)

lemma takes_int {name : String} {aliases : List String} {put : Option Int64 → Message → Message}
    (o : Option Int64) : Takes (.int name aliases put) (optJson intJson o) (put o) where
  refuses := refusesContainers_asInt.optional.map put
  isExact := exact_optJson exact_intJson
  put := congrArg (put <$> ·) (asOptional_int o)

variable {slot : Slot Message} {j : Json} {change : Message → Message}

lemma Takes.onTree_field (h : Takes slot j change) :
    onTree (slot.field.read depth) j.tree = .ok change :=
  onTree_ofScalar h.refuses h.isExact h.put

lemma Takes.onTree_messageField (h : Takes slot j change) :
    onTree ((messageField slot).read depth) j.tree =
      .ok fun a => a.withMessage (change a.message) := by
  have hvalue := onTree_tree (h.isExact.of_le depth.zero_le)
  rw [Editor.onTree_messageField, hvalue, ok_bind, h.put]
  rfl

theorem onTree_readMessage (m : Message) :
    onTree (readMessage (depth + 1)) m.json.tree = .ok m := by
  have hfills : Fills depth (messageSlots.map Slot.field) (memberTrees m.members) _ :=
    .cons (takes_text m.text).onTree_field <| .cons (takes_text m.faceName).onTree_field <|
    .cons (takes_int m.faceIndex).onTree_field <| .cons (takes_int m.background).onTree_field <|
    .cons (takes_int m.position).onTree_field .nil
  exact (regularFields_message.onTree_record _ _).trans (hfills.recordMembersOn (by decide) {})

lemma onTree_optionalValue {σ : Type} {name : String} {put : Option Json → σ → σ} {o : Option Json}
    (h : Keeps depth o) :
    onTree ((optionalValue name put).read depth) (optJson id o).tree = .ok (put o) :=
  onTree_put (onTree_optional regular_value
    (fun j hj => tree_ne_null_of_exact (h j hj).2 (h j hj).1)
    fun j hj => onTree_tree (h j hj).2)

theorem onTree_readCondition {c : Condition} (h : c.IsExact depth) :
    onTree (readCondition (depth + 1)) c.json.tree = .ok c := by
  have hfills : Fills depth conditionFields (memberTrees c.members) _ :=
    .cons (onTree_text c.tag) <| .cons (onTree_optionalWord c.switchId) <|
    .cons (onTree_optionalWord c.variableId) <| .cons (onTree_optionalText c.operator) <|
    .cons (onTree_optionalValue h) <| .cons (onTree_optionalText c.expression) .nil
  exact (regularFields_condition.onTree_record _ _).trans (hfills.recordMembersOn (by decide) {})

lemma onTree_optionalCondition {o : Option Condition} (h : ∀ c ∈ o, c.IsExact depth) :
    onTree (optional readCondition (depth + 1)) (optJson Condition.json o).tree = .ok o :=
  onTree_optional regular_readCondition (fun _ _ => tree_obj_ne_null _)
    fun c hc => onTree_readCondition (h c hc)

lemma exists_fills_own {a : Action} (h : a.IsExact depth) :
    ∃ total, Fills depth actionFields (memberTrees a.ownMembers) total ∧
      total {} = a.withMessage {} := by
  have hargs : onTree (optional (dictOf value) depth) (optJson obj a.args).tree = .ok a.args :=
    onTree_optional (regular_dictOf regular_value) (fun _ _ => tree_obj_ne_null _)
      fun es hes => onTree_dictOf (h.2 es hes)
  have hfills : Fills depth actionFields (memberTrees a.ownMembers) _ :=
    .cons (onTree_text a.tag) <| .cons (onTree_optionalText a.script) <|
    .cons (onTree_optionalWord a.variableId) <| .cons (onTree_optionalText a.operation) <|
    .cons (onTree_optionalWord a.switchId) <| .cons (onTree_optionalWord a.eventId) <|
    .cons (onTree_optionalValue h.1) <| .cons (onTree_optionalText a.pluginName) <|
    .cons (onTree_optionalText a.commandName) <| .cons (onTree_put hargs) .nil
  exact ⟨_, hfills, rfl⟩

lemma exists_fills_message (depth : Nat) (m : Message) :
    ∃ total, Fills depth (messageSlots.map messageField) (memberTrees m.members) total ∧
      ∀ a, total a = a.withMessage m := by
  have hfills : Fills depth (messageSlots.map messageField) (memberTrees m.members) _ :=
    .cons (takes_text m.text).onTree_messageField <|
    .cons (takes_text m.faceName).onTree_messageField <|
    .cons (takes_int m.faceIndex).onTree_messageField <|
    .cons (takes_int m.background).onTree_messageField <|
    .cons (takes_int m.position).onTree_messageField .nil
  refine ⟨_, hfills, fun a => ?_⟩
  simp only [Function.comp_apply, Action.withMessage, id_eq]

theorem onTree_readAction {a : Action} (h : a.IsExact depth) :
    onTree (readAction (depth + 1)) a.json.tree = .ok a := by
  obtain ⟨own, hown, hblank⟩ := exists_fills_own h
  obtain ⟨inner, hinner, hmessage⟩ := exists_fills_message depth a.message
  have htotal : (inner ∘ own) {} = a := by
    rw [Function.comp_apply, hblank, hmessage]
    rfl
  have hmembers : memberTrees a.members =
      memberTrees a.ownMembers ++ memberTrees a.message.members := by
    simp only [memberTrees_eq, Action.members, List.map_append]
  refine onTree_readAction_eq_ok_iff.2 ⟨depth, memberTrees a.members, rfl, rfl, ?_⟩
  rw [hmembers, flatFields, (hown.append hinner).recordMembersOn (by decide), htotal]

theorem onTree_readChoice {c : Choice} (h : c.IsExact depth) :
    onTree (readChoice (depth + 2)) c.json.tree = .ok c := by
  have hfills : Fills (depth + 1) choiceFields (memberTrees c.members) _ :=
    .cons (onTree_text c.id) <| .cons (onTree_text c.text) <|
    .cons (onTree_put (onTree_optionalCondition h.1)) <|
    .cons (onTree_put (onTree_optionalCondition h.2)) .nil
  exact (regularFields_choice.onTree_record _ _).trans (hfills.recordMembersOn (by decide) {})

theorem onTree_readNodeData {d : NodeData} (h : d.IsExact depth) :
    onTree (readNodeData (depth + 4)) d.json.tree = .ok d := by
  have hactions : onTree (listOf readAction (depth + 3)) (arr (d.actions.map Action.json)).tree =
      .ok d.actions :=
    onTree_listOf regular_readAction fun a ha => onTree_readAction (h.actions a ha)
  have hchoices : onTree (listOf readChoice (depth + 3)) (arr (d.choices.map Choice.json)).tree =
      .ok d.choices :=
    onTree_listOf regular_readChoice fun c hc => onTree_readChoice (h.choices c hc)
  have hprompt : onTree (optional readMessage (depth + 3)) (optJson Message.json d.prompt).tree =
      .ok d.prompt :=
    onTree_optional regular_readMessage (fun _ _ => tree_obj_ne_null _)
      fun m _ => onTree_readMessage m
  have hfills : Fills (depth + 3) nodeDataFields (memberTrees d.members) _ :=
    .cons (onTree_optionalText d.label) <| .cons (onTree_flag d.muted) <|
    .cons (onTree_put hactions) <| .cons (onTree_put (onTree_optionalCondition h.condition)) <|
    .cons (onTree_put hchoices) <| .cons (onTree_optionalText d.cancelType) <|
    .cons (onTree_optionalInt d.windowPosition) <| .cons (onTree_optionalInt d.windowBackground) <|
    .cons (onTree_put hprompt) .nil
  exact (regularFields_nodeData.onTree_record _ _).trans (hfills.recordMembersOn (by decide) {})

theorem onTree_readNode {n : Node} (h : n.data.IsExact depth) :
    onTree (readNode (depth + 5)) n.json.tree = .ok n := by
  have hfills : Fills (depth + 4) nodeFields (memberTrees n.members) _ :=
    .cons (onTree_text n.id) <| .cons (onTree_text n.tag) <|
    .cons (onTree_put (onTree_readNodeData h)) .nil
  exact (regularFields_node.onTree_record _ _).trans (hfills.recordMembersOn (by decide) {})

theorem onTree_readEdge (e : Edge) : onTree (readEdge (depth + 1)) e.json.tree = .ok e := by
  have hfills : Fills depth edgeFields (memberTrees e.members) _ :=
    .cons (onTree_text e.id) <| .cons (onTree_text e.source) <| .cons (onTree_text e.target) <|
    .cons (onTree_optionalText e.handle) .nil
  exact (regularFields_edge.onTree_record _ _).trans (hfills.recordMembersOn (by decide) {})

theorem onTree_readDocument {d : Document} (h : d.IsExact depth) :
    onTree (readDocument (depth + 7)) d.json.tree = .ok d := by
  have hnodes : onTree (listOf readNode (depth + 6)) (arr (d.nodes.map Node.json)).tree =
      .ok d.nodes :=
    onTree_listOf regular_readNode fun n hn => onTree_readNode (h n hn)
  have hedges : onTree (listOf readEdge (depth + 6)) (arr (d.edges.map Edge.json)).tree =
      .ok d.edges :=
    onTree_listOf regular_readEdge fun e _ => onTree_readEdge e
  have hfills : Fills (depth + 6) documentFields (memberTrees d.members) _ :=
    .cons (onTree_put hnodes) <| .cons (onTree_put hedges) .nil
  exact (regularFields_document.onTree_record _ _).trans (hfills.recordMembersOn (by decide) {})

end Reading

/-! ## Texts -/

section Texts

variable {depth : Nat}

lemma Keeps.whole {o : Option Json} (h : Keeps depth o) : Whole (optJson id o) :=
  whole_optJson fun j hj => (h j hj).2.whole

lemma Message.wholeMembers (m : Message) : WholeMembers m.members :=
  .cons (whole_text _) <| .cons (whole_text _) <| .cons (whole_int _) <| .cons (whole_int _) <|
  .cons (whole_int _) wholeMembers_nil

lemma Condition.wholeMembers {c : Condition} (h : c.IsExact depth) : WholeMembers c.members :=
  .cons (.str _) <| .cons (whole_word _) <| .cons (whole_word _) <| .cons (whole_text _) <|
  .cons (Keeps.whole h) <| .cons (whole_text _) wholeMembers_nil

lemma Action.wholeMembers {a : Action} (h : a.IsExact depth) : WholeMembers a.members :=
  .cons (.str _) <| .cons (whole_text _) <| .cons (whole_word _) <| .cons (whole_text _) <|
  .cons (whole_word _) <| .cons (whole_word _) <| .cons h.1.whole <| .cons (whole_text _) <|
  .cons (whole_text _) <| .cons (whole_optJson fun es hes => (h.2 es hes).whole)
  a.message.wholeMembers

lemma Choice.wholeMembers {c : Choice} (h : c.IsExact depth) : WholeMembers c.members :=
  .cons (.str _) <| .cons (.str _) <|
  .cons (whole_optJson fun e he => .obj (Condition.wholeMembers (h.1 e he))) <|
  .cons (whole_optJson fun e he => .obj (Condition.wholeMembers (h.2 e he))) wholeMembers_nil

lemma NodeData.wholeMembers {d : NodeData} (h : d.IsExact depth) : WholeMembers d.members :=
  .cons (whole_text _) <| .cons (.bool _) <|
  .cons (whole_list fun a ha => .obj (Action.wholeMembers (h.actions a ha))) <|
  .cons (whole_optJson fun c hc => .obj (Condition.wholeMembers (h.condition c hc))) <|
  .cons (whole_list fun c hc => .obj (Choice.wholeMembers (h.choices c hc))) <|
  .cons (whole_text _) <| .cons (whole_int _) <| .cons (whole_int _) <|
  .cons (whole_optJson fun m _ => .obj m.wholeMembers) wholeMembers_nil

lemma Node.wholeMembers {n : Node} (h : n.data.IsExact depth) : WholeMembers n.members :=
  .cons (.str _) <| .cons (.str _) <| .cons (.obj (NodeData.wholeMembers h)) wholeMembers_nil

lemma Edge.wholeMembers (e : Edge) : WholeMembers e.members :=
  .cons (.str _) <| .cons (.str _) <| .cons (.str _) <| .cons (whole_text _) wholeMembers_nil

lemma Document.wholeMembers {d : Document} (h : d.IsExact depth) : WholeMembers d.members :=
  .cons (whole_list fun n hn => .obj (Node.wholeMembers (h n hn))) <|
  .cons (whole_list fun e _ => .obj e.wholeMembers) wholeMembers_nil

/-- A document that is written without spaces is read back. -/
theorem Document.parse_compact {d : Document} (h : d.IsExact 120) :
    parse d.json.compact = .ok d := by
  have hwhole : Whole d.json := .obj (wholeMembers h)
  exact (readAll_eq (regular_readDocument depthLimit) (spellsText_ofList hwhole.spells_write)).trans
    (onTree_readDocument h)

end Texts

end Dialogue.Editor
