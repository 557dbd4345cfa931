import Dialogue.Proofs.Rendering
/-!
What the editor's format can express.

A dialogue graph is turned into a document of the editor (`Document.toEditor`) and written
(`Document.render`).  If edges and choices have a name and no outlet has the empty name, loading the
text gives the graph back.  No other graph comes from a text at all: the conversion gives names to
edges and choices without one, and drops outlets without a name.
-/

namespace Dialogue

/-! ## From dialogue graphs to the editor's documents -/

/-- The name of an operation. -/
def VariableOperation.name : VariableOperation → String
  | set => "set"
  | add => "add"
  | subtract => "subtract"
  | multiply => "multiply"
  | divide => "divide"
  | modulo => "modulo"

/-- The name of a way to cancel a menu. -/
def CancelMode.name : CancelMode → String
  | disallow => "disallow"
  | branch => "branch"
  | lastChoice => "last"

/-- A message for the editor. -/
def Message.toEditor (m : Message) : Editor.Message where
  text := some m.text
  faceName := some m.faceName
  faceIndex := some m.faceIndex
  background := some m.background
  position := some m.position

/-- An action for the editor. -/
def Action.toEditor : Action → Editor.Action
  | script code => { tag := "script", script := some code }
  | setVariable id operation value =>
    { tag := "setVariable"
      variableId := some id
      operation := some operation.name
      value := some (Json.intJson value) }
  | setSwitch id on => { tag := "setSwitch", switchId := some id, value := some (.bool on) }
  | commonEvent id => { tag := "commonEvent", eventId := some id }
  | showText message => { tag := "showText", message := message.toEditor }
  | pluginCommand plugin command args =>
    { tag := "pluginCommand"
      pluginName := some plugin
      commandName := some command
      args := some (args.entries.map fun e => (e.1, .str e.2)) }

/-- A condition for the editor. -/
def Condition.toEditor : Condition → Editor.Condition
  | switch id on => { tag := "switch", switchId := some id, value := some (.bool on) }
  | compare id comparison value =>
    { tag := "variable"
      variableId := some id
      operator := some comparison.symbol
      value := some (Json.intJson value) }
  | script expression => { tag := "script", expression }

/-- A choice for the editor. -/
def Choice.toEditor (c : Choice) : Editor.Choice where
  id := c.id
  text := c.text
  hide := c.hide.map Condition.toEditor
  disable := c.disable.map Condition.toEditor

/-- The content of a node for the editor, without what nodes of all kinds have. -/
def NodeKind.content : NodeKind → Editor.NodeData
  | menu m =>
    { choices := m.choices.map Choice.toEditor
      cancelType := some m.cancel.name
      windowPosition := some m.position
      windowBackground := some m.background
      prompt := m.prompt.map Message.toEditor }
  | action actions => { actions := actions.map Action.toEditor }
  | condition c => { condition := some c.toEditor }
  | _ => {}

/-- A node for the editor. -/
def Node.toEditor (n : Node) : Editor.Node where
  id := n.id
  tag := n.kind.name
  data := { n.kind.content with label := some n.label, muted := n.muted }

/-- An edge for the editor. -/
def Edge.toEditor (e : Edge) : Editor.Edge where
  id := e.id
  source := e.source
  target := e.target
  handle := e.handle

/-- A dialogue graph for the editor. -/
def Document.toEditor (d : Document) : Editor.Document where
  nodes := d.nodes.map Node.toEditor
  edges := d.edges.map Edge.toEditor

/-- A dialogue graph as a text in the editor's format. -/
def Document.render (d : Document) : String :=
  d.toEditor.json.compact

/-! ## What can be expressed -/

/-- The choices of a node, if it is a menu. -/
def NodeKind.choices : NodeKind → List Choice
  | menu m => m.choices
  | _ => []

/-- Edges and choices have a name, and no outlet has the empty name. -/
def Document.IsUsable (d : Document) : Prop :=
  (∀ e ∈ d.edges, e.id ≠ "" ∧ e.handle ≠ some "") ∧
    ∀ n ∈ d.nodes, ∀ c ∈ n.kind.choices, c.id ≠ ""

instance (d : Document) : Decidable d.IsUsable :=
  inferInstanceAs (Decidable (_ ∧ _))

/-! ## Back from the editor's documents -/

lemma VariableOperation.parse_name (o : VariableOperation) : parse o.name = o := by
  cases o <;> decide

lemma Comparison.parse_symbol (c : Comparison) : parse c.symbol = c := by
  cases c <;> decide

lemma CancelMode.cancelModeOf_name (m : CancelMode) : Editor.cancelModeOf (some m.name) = m := by
  cases m <;> decide

lemma Editor.lenientInt_intJson (n : Int64) : lenientInt (some (Json.intJson n)) = n := by
  rw [Json.intJson, Json.int, lenientInt, word?_eq_some_iff.2 rfl, Option.getD_some]

lemma Message.convert_toEditor (m : Message) : m.toEditor.convert = m := rfl

lemma Action.convert_toEditor (node : String) (a : Action) : a.toEditor.convert node = .ok a := by
  cases a with
  | script code =>
    have htag : Editor.normalTag "script" = "script" := by decide
    simp only [toEditor, Editor.Action.convert, htag, Option.getD_some]
  | setVariable id operation value =>
    have htag : Editor.normalTag "setVariable" = "setvariable" := by decide
    simp only [toEditor, Editor.Action.convert, htag, Option.getD_some, Option.map_some,
      operation.parse_name, Editor.lenientInt_intJson]
  | setSwitch id on =>
    have htag : Editor.normalTag "setSwitch" = "setswitch" := by decide
    simp only [toEditor, Editor.Action.convert, htag, Option.getD_some, Editor.lenientBool]
  | commonEvent id =>
    have htag : Editor.normalTag "commonEvent" = "commonevent" := by decide
    simp only [toEditor, Editor.Action.convert, htag, Option.getD_some]
  | showText message =>
    have htag : Editor.normalTag "showText" = "showtext" := by decide
    simp only [toEditor, Editor.Action.convert, htag, message.convert_toEditor]
  | pluginCommand plugin command args =>
    have htag : Editor.normalTag "pluginCommand" = "plugincommand" := by decide
    have hargs : (args.entries.map fun e => (e.1, Json.str e.2)).map
        (fun kv => (kv.1, Editor.argumentText kv.2)) = args.entries := by
      rw [List.map_map]
      exact List.map_id args.entries
    simp only [toEditor, Editor.Action.convert, htag, Option.getD_some, hargs, ofList_entries]

lemma Condition.convert_toEditor (node : String) (c : Condition) :
    c.toEditor.convert node = .ok c := by
  cases c with
  | switch id on =>
    have htag : Editor.normalTag "switch" = "switch" := by decide
    simp only [toEditor, Editor.Condition.convert, htag, Option.getD_some, Editor.lenientBool]
  | compare id comparison value =>
    have htag : Editor.normalTag "variable" = "variable" := by decide
    simp only [toEditor, Editor.Condition.convert, htag, Option.getD_some, Option.map_some,
      comparison.parse_symbol, Editor.lenientInt_intJson]
  | script expression =>
    have htag : Editor.normalTag "script" = "script" := by decide
    simp only [toEditor, Editor.Condition.convert, htag]

lemma convertCondition?_toEditor (node : String) (o : Option Condition) :
    Editor.convertCondition? node (o.map Condition.toEditor) = .ok o := by
  cases o with
  | none => rfl
  | some c =>
    rw [Option.map_some, Editor.convertCondition?, c.convert_toEditor]
    rfl

lemma Choice.convert_toEditor (node : String) (index : Nat) {c : Choice} (h : c.id ≠ "") :
    c.toEditor.convert node index = .ok c := by
  rw [Editor.Choice.convert, toEditor, convertCondition?_toEditor, convertCondition?_toEditor]
  simp only [if_neg h]
  rfl

lemma convertChoices_toEditor (node : String) (index : Nat) {cs : List Choice}
    (h : ∀ c ∈ cs, c.id ≠ "") :
    Editor.convertChoices node index (cs.map Choice.toEditor) = .ok cs := by
  induction cs generalizing index with
  | nil => rfl
  | cons c cs ih =>
    have hrest := ih (index + 1) fun c hc => h c (List.mem_cons_of_mem _ hc)
    rw [List.map_cons, Editor.convertChoices,
      Choice.convert_toEditor node index (h c List.mem_cons_self), hrest]
    rfl

lemma Menu.menu_content (node : String) {m : Menu} (h : ∀ c ∈ m.choices, c.id ≠ "")
    (label : Option String) (muted : Bool) :
    { (NodeKind.menu m).content with label, muted }.menu node = .ok m := by
  have hprompt : ((m.prompt.map Message.toEditor).filter (·.text.isSome)).map
      Editor.Message.convert = m.prompt := by
    cases m.prompt <;> rfl
  rw [Editor.NodeData.menu, NodeKind.content]
  simp only [convertChoices_toEditor node 0 h, hprompt, m.cancel.cancelModeOf_name,
    Option.getD_some]
  rfl

lemma NodeKind.normalTag_name (k : NodeKind) : Editor.normalTag k.name = k.name := by
  cases k <;> rw [name] <;> decide

lemma Node.kind_toEditor {n : Node} (h : ∀ c ∈ n.kind.choices, c.id ≠ "") :
    n.toEditor.kind = .ok n.kind := by
  obtain ⟨id, label, muted, kind⟩ := n
  rw [Editor.Node.kind, toEditor]
  simp only [kind.normalTag_name]
  cases kind with
  | menu m =>
    simp only [NodeKind.name, Menu.menu_content id h]
    rfl
  | action actions =>
    have hactions : (actions.map Action.toEditor).mapM (Editor.Action.convert id) =
        .ok actions := by
      rw [mapM_eq_ok fun a _ => a.convert_toEditor id, List.map_id']
    simp only [NodeKind.name, NodeKind.content, hactions]
    rfl
  | condition c =>
    simp only [NodeKind.name, NodeKind.content, c.convert_toEditor]
    rfl
  | _ => rfl

lemma Node.convert_toEditor {n : Node} (h : ∀ c ∈ n.kind.choices, c.id ≠ "") :
    n.toEditor.convert = .ok n := by
  rw [Editor.Node.convert, kind_toEditor h]
  rfl

lemma Edge.convert_toEditor (index : Nat) {e : Edge} (hid : e.id ≠ "")
    (hhandle : e.handle ≠ some "") :
    e.toEditor.convert index = e := by
  have hfilter : e.handle.filter (· != "") = e.handle := by
    cases hh : e.handle with
    | none => rfl
    | some handle =>
      have hne : (handle != "") = true := bne_iff_ne.2 fun heq => hhandle (by rw [hh, heq])
      rw [Option.filter_some, if_pos hne]
  rw [Editor.Edge.convert, toEditor]
  simp only [if_neg hid, hfilter]

theorem Document.convert_toEditor {d : Document} (h : d.IsUsable) : d.toEditor.convert = .ok d := by
  have hnodes : (d.nodes.map Node.toEditor).mapM Editor.Node.convert = .ok d.nodes := by
    rw [mapM_eq_ok fun n hn => Node.convert_toEditor (h.2 n hn), List.map_id']
  have hedges : (d.edges.map Edge.toEditor).mapIdx Editor.Edge.convert = d.edges := by
    refine List.ext_getElem (by simp) fun index hindex _ => ?_
    rw [List.getElem_mapIdx, List.getElem_map]
    have hedge := h.1 _ (List.getElem_mem (by simpa using hindex))
    exact Edge.convert_toEditor index hedge.1 hedge.2
  rw [Editor.Document.convert, toEditor]
  simp only [hnodes, hedges]
  rfl

/-! ## Writing and loading -/

section Exact

variable {depth : Nat}

lemma keeps_int (n : Int64) : Editor.Keeps depth (some (Json.intJson n)) := by
  rintro _ ⟨⟩
  exact ⟨nofun, Json.exact_intJson n⟩

lemma keeps_bool (b : Bool) : Editor.Keeps depth (some (.bool b)) := by
  rintro _ ⟨⟩
  exact ⟨nofun, .bool b⟩

lemma Action.isExact_toEditor (a : Action) : a.toEditor.IsExact (depth + 1) := by
  cases a with
  | setVariable id operation value => exact ⟨keeps_int value, nofun⟩
  | setSwitch id on => exact ⟨keeps_bool on, nofun⟩
  | pluginCommand plugin command args =>
    refine ⟨nofun, ?_⟩
    rintro _ ⟨⟩
    refine .obj (List.pairwise_map.2 args.increasing) fun m hm => ?_
    obtain ⟨e, -, rfl⟩ := List.mem_map.1 hm
    exact .str e.2
  | _ => exact ⟨nofun, nofun⟩

lemma Condition.isExact_toEditor (c : Condition) : c.toEditor.IsExact depth := by
  cases c with
  | switch id on => exact keeps_bool on
  | compare id comparison value => exact keeps_int value
  | script expression => exact nofun

lemma isExact_map_toEditor (o : Option Condition) :
    ∀ c ∈ o.map Condition.toEditor, c.IsExact depth := by
  intro c hc
  obtain ⟨c, -, rfl⟩ := Option.map_eq_some_iff.1 hc
  exact c.isExact_toEditor

lemma NodeKind.isExact_content (k : NodeKind) : k.content.IsExact depth := by
  cases k with
  | menu m =>
    refine ⟨List.forall_mem_nil _, nofun, fun c hc => ?_⟩
    obtain ⟨c, -, rfl⟩ := List.mem_map.1 hc
    exact ⟨isExact_map_toEditor c.hide, isExact_map_toEditor c.disable⟩
  | action actions =>
    refine ⟨fun a ha => ?_, nofun, List.forall_mem_nil _⟩
    obtain ⟨a, -, rfl⟩ := List.mem_map.1 ha
    exact a.isExact_toEditor
  | condition c =>
    exact ⟨List.forall_mem_nil _, isExact_map_toEditor (some c), List.forall_mem_nil _⟩
  | _ => exact ⟨List.forall_mem_nil _, nofun, List.forall_mem_nil _⟩

lemma Document.isExact_toEditor (d : Document) : d.toEditor.IsExact depth := by
  intro n hn
  obtain ⟨n, -, rfl⟩ := List.mem_map.1 hn
  have hcontent : n.kind.content.IsExact depth := n.kind.isExact_content
  exact ⟨hcontent.actions, hcontent.condition, hcontent.choices⟩

end Exact

/-- A graph that can be expressed is loaded from its text. -/
theorem Document.load_render {d : Document} (h : d.IsUsable) : load d.render = .ok d := by
  rw [load, render, Editor.Document.parse_compact d.isExact_toEditor]
  exact convert_toEditor h

lemma append_toString_ne_empty {s : String} (hs : s ≠ "") (n : Nat) : s ++ toString n ≠ "" := by
  intro h
  exact hs (String.append_eq_empty_iff.1 h).1

lemma Editor.Choice.id_ne_of_convert {node : String} {index : Nat} {c : Editor.Choice}
    {choice : Dialogue.Choice} (h : c.convert node index = .ok choice) : choice.id ≠ "" := by
  obtain ⟨hide, -, h⟩ := bind_eq_ok_iff.1 h
  obtain ⟨disable, -, ⟨⟩⟩ := bind_eq_ok_iff.1 h
  simp only
  split
  · exact append_toString_ne_empty (by simp) index
  · next hid => exact hid

lemma Editor.id_ne_of_convertChoices {node : String} {index : Nat} {cs : List Editor.Choice}
    {choices : List Dialogue.Choice} (h : convertChoices node index cs = .ok choices) :
    ∀ c ∈ choices, c.id ≠ "" := by
  induction cs generalizing index choices with
  | nil =>
    cases h
    exact nofun
  | cons c cs ih =>
    obtain ⟨choice, hchoice, h⟩ := bind_eq_ok_iff.1 h
    obtain ⟨rest, hrest, ⟨⟩⟩ := bind_eq_ok_iff.1 h
    exact List.forall_mem_cons.2 ⟨Choice.id_ne_of_convert hchoice, ih hrest⟩

lemma Editor.Node.id_ne_of_kind {n : Editor.Node} {kind : NodeKind} (h : n.kind = .ok kind) :
    ∀ c ∈ kind.choices, c.id ≠ "" := by
  rw [Editor.Node.kind] at h
  split at h
  case h_1 | h_2 | h_3 | h_4 =>
    cases h
    exact List.forall_mem_nil _
  case h_5 =>
    obtain ⟨actions, -, rfl⟩ := map_eq_ok_iff.1 h
    exact List.forall_mem_nil _
  case h_6 =>
    split at h
    · obtain ⟨condition, -, rfl⟩ := map_eq_ok_iff.1 h
      exact List.forall_mem_nil _
    · cases h
      exact List.forall_mem_nil _
  case h_7 =>
    obtain ⟨menu, hmenu, rfl⟩ := map_eq_ok_iff.1 h
    obtain ⟨choices, hchoices, ⟨⟩⟩ := bind_eq_ok_iff.1 hmenu
    exact id_ne_of_convertChoices hchoices
  case h_8 => cases h

lemma Editor.Edge.convert_usable (index : Nat) (e : Editor.Edge) :
    (e.convert index).id ≠ "" ∧ (e.convert index).handle ≠ some "" := by
  rw [Editor.Edge.convert]
  simp only
  constructor
  · split
    · exact append_toString_ne_empty (by simp) index
    · next hid => exact hid
  · intro h
    have hne := (Option.filter_eq_some_iff.1 h).2
    simp at hne

theorem Editor.Document.isUsable_of_convert {e : Editor.Document} {d : Dialogue.Document}
    (h : e.convert = .ok d) : d.IsUsable := by
  obtain ⟨nodes, hnodes, ⟨⟩⟩ := bind_eq_ok_iff.1 h
  refine ⟨fun edge hedge => ?_, fun n hn => ?_⟩
  · obtain ⟨index, hindex, rfl⟩ := List.mem_mapIdx.1 hedge
    exact Edge.convert_usable index _
  · obtain ⟨m, -, hm⟩ := exists_of_mem_mapM hnodes hn
    obtain ⟨kind, hkind, ⟨⟩⟩ := bind_eq_ok_iff.1 hm
    exact Node.id_ne_of_kind hkind

/-- The editor's format expresses exactly the graphs in which edges and choices have a name and no
outlet has the empty name.  Each of them is loaded from the text that is written for it. -/
theorem Document.exists_load_iff (d : Document) :
    ((∃ s, load s = .ok d) ↔ d.IsUsable) ∧ (load d.render = .ok d ↔ d.IsUsable) := by
  have husable : ∀ s, load s = .ok d → d.IsUsable := by
    intro s h
    rw [load] at h
    split at h
    · exact Editor.Document.isUsable_of_convert h
    · cases h
  exact ⟨⟨fun ⟨s, h⟩ => husable s h, fun h => ⟨d.render, load_render h⟩⟩, husable _, load_render⟩

end Dialogue
