import Dialogue.Proofs.Rendering
import Dialogue.Proofs.Yields
/-!
The arguments of a plugin's command keep their values.

The editor saves an argument as any JSON value; in the dialogue graph it is a text.  A text stays
as it is, and any other value is written without spaces, so that it can be read back.  This holds of
all values without fractions that are canonical, however deep they are nested, and the arguments in
a document that was loaded are canonical.
-/

namespace Dialogue.Editor

open Json

/-! ## What is loaded -/

/-- The keys of the arguments increase, and their values are canonical. -/
structure AreArguments (depth : Nat) (args : List (String × Json)) : Prop where
  increasing : Increasing args
  canonical : ∀ m ∈ args, Canonical depth m.2

/-- The arguments of an action, if it has any, are as they should be. -/
def Action.HasArguments (depth : Nat) (a : Action) : Prop :=
  ∀ args ∈ a.args, AreArguments depth args

variable {depth : Nat}

/-- Only one field of an action holds its arguments. -/
lemma yields_actionFields {f : RecordField Action} (h : f ∈ actionFields) :
    Yields (f.read (depth + 1)) (Preserves (Action.HasArguments depth)) := by
  simp only [actionFields, List.mem_cons, List.not_mem_nil, or_false] at h
  rcases h with rfl | rfl | rfl | rfl | rfl | rfl | rfl | rfl | rfl | rfl
  iterate 9 exact (Yields.any _).map fun _ _ _ hs => hs
  exact (Yields.value depth).dictOf.optional.map fun _ ho _ _ args hargs =>
    ⟨(ho args hargs).1, (ho args hargs).2⟩

lemma yields_readAction : Yields (readAction (depth + 2)) (Action.HasArguments depth) := by
  -- the message is filled in afterwards and changes no argument
  refine Yields.bind (P := fun d : ActionDraft => d.action.HasArguments depth) ?_
    fun d hd => Yields.seq fun _ => Yields.pure hd
  refine Yields.openRecord (fun f hf => ?_) (fun _ _ _ hd => hd) (by simp [Action.HasArguments])
  obtain ⟨g, hg, rfl⟩ := List.mem_map.1 hf
  exact (yields_actionFields hg).map fun _ hchange d hd => hchange d.action hd

lemma yields_readNodeData :
    Yields (readNodeData (depth + 4)) fun d => ∀ a ∈ d.actions, a.HasArguments depth := by
  refine Yields.record (fun f hf => ?_) (List.forall_mem_nil _)
  simp only [nodeDataFields, List.mem_cons, List.not_mem_nil, or_false] at hf
  rcases hf with rfl | rfl | rfl | rfl | rfl | rfl | rfl | rfl | rfl
  case inr.inr.inl => exact yields_readAction.listOf.map fun _ h _ _ => h
  all_goals exact (Yields.any _).map fun _ _ _ hs => hs

lemma yields_readNode :
    Yields (readNode (depth + 5)) fun n => ∀ a ∈ n.data.actions, a.HasArguments depth := by
  refine Yields.record (fun f hf => ?_) (List.forall_mem_nil _)
  simp only [nodeFields, List.mem_cons, List.not_mem_nil, or_false] at hf
  rcases hf with rfl | rfl | rfl
  iterate 2 exact (Yields.any _).map fun _ _ _ hs => hs
  exact yields_readNodeData.map fun _ h _ _ => h

lemma yields_readDocument : Yields (readDocument (depth + 7)) fun d =>
    ∀ n ∈ d.nodes, ∀ a ∈ n.data.actions, a.HasArguments depth := by
  refine Yields.record (fun f hf => ?_) (List.forall_mem_nil _)
  simp only [documentFields, List.mem_cons, List.not_mem_nil, or_false] at hf
  rcases hf with rfl | rfl
  · exact yields_readNode.listOf.map fun _ h _ _ => h
  · exact (Yields.any _).map fun _ _ _ hs => hs

/-- Seven containers of a document stand around an argument. -/
theorem Document.hasArguments_of_parse {s : String} {d : Document} (h : Document.parse s = .ok d)
    {n : Node} (hn : n ∈ d.nodes) {a : Action} (ha : a ∈ n.data.actions) : a.HasArguments 120 :=
  yields_readDocument.of_readAll h n hn a ha

/-! ## What becomes of arguments -/

/-- The texts stand under the keys of the arguments.  An argument that is a text is kept, and any
other one is what its text is read as. -/
structure AreKept (read : String → Except Fault Json) (args : List (String × Json))
    (texts : Dict String) : Prop where
  keys : texts.entries.map Prod.fst = args.map Prod.fst
  strings : ∀ key s, (key, .str s) ∈ args → (key, s) ∈ texts.entries
  values : ∀ key j, (key, j) ∈ args → (∀ s, j ≠ .str s) →
    ∃ text, (key, text) ∈ texts.entries ∧ read text = .ok j

lemma argumentText_of_ne {j : Json} (h : ∀ s, j ≠ .str s) : argumentText j = j.compact := by
  cases j with
  | str s => exact absurd rfl (h s)
  | _ => rfl

/-- Texts under increasing keys are put into a dictionary as they stand. -/
lemma AreArguments.entries_ofList {args : List (String × Json)} (h : AreArguments depth args) :
    (Dict.ofList (args.map fun m => (m.1, argumentText m.2))).entries =
      args.map fun m => (m.1, argumentText m.2) := by
  have hincreasing : Increasing (args.map fun m => (m.1, argumentText m.2)) :=
    List.pairwise_map.2 h.increasing
  rw [Dialogue.entries_ofList]
  exact putEntries_of_increasing hincreasing

lemma AreArguments.mem_entries {args : List (String × Json)} (h : AreArguments depth args)
    {key : String} {j : Json} (hmem : (key, j) ∈ args) : (key, argumentText j) ∈
      (Dict.ofList (args.map fun m => (m.1, argumentText m.2))).entries := by
  rw [h.entries_ofList]
  exact List.mem_map.2 ⟨_, hmem, rfl⟩

lemma AreArguments.areKept {args : List (String × Json)} (h : AreArguments depth args)
    (hwhole : ∀ m ∈ args, Whole m.2) {limit : Nat} (hlimit : depth ≤ limit) :
    AreKept (readAll (value limit)) args
      (.ofList (args.map fun m => (m.1, argumentText m.2))) := by
  constructor
  · rw [h.entries_ofList, List.map_map]
    rfl
  · intro key s hmem
    exact h.mem_entries hmem
  · intro key j hmem hj
    have hexact : Exact depth j := (h.canonical _ hmem).exact (hwhole _ hmem)
    refine ⟨argumentText j, h.mem_entries hmem, ?_⟩
    rw [argumentText_of_ne hj]
    exact readAll_compact (hexact.of_le hlimit)

lemma Action.convert_pluginCommand {node : String} {a : Action} {args : List (String × Json)}
    (htag : normalTag a.tag = "plugincommand") (hargs : a.args = some args) :
    a.convert node = .ok (.pluginCommand (a.pluginName.getD "") (a.commandName.getD "")
      (.ofList (args.map fun m => (m.1, argumentText m.2)))) := by
  rw [convert, htag, hargs]
  rfl

/-- A plugin's command has the arguments of its action.  They can be read back by a reader that
allows as many containers as they may have, and those of a loaded document by `Json.parse`. -/
theorem Action.arguments_are_kept {a : Action} {args : List (String × Json)}
    (htag : normalTag a.tag = "plugincommand") (hargs : a.args = some args)
    (hwhole : ∀ m ∈ args, Whole m.2) (node : String) :
    ∃ texts, a.convert node =
        .ok (.pluginCommand (a.pluginName.getD "") (a.commandName.getD "") texts) ∧
      (∀ depth limit, AreArguments depth args → depth ≤ limit →
        AreKept (readAll (Json.value limit)) args texts) ∧
      ∀ s d, Document.parse s = .ok d → ∀ n ∈ d.nodes, a ∈ n.data.actions →
        AreKept Json.parse args texts := by
  refine ⟨_, convert_pluginCommand htag hargs, ?_, ?_⟩
  · intro depth limit h hlimit
    exact h.areKept hwhole hlimit
  · intro s d hparse n hn ha
    have h : AreArguments 120 args := Document.hasArguments_of_parse hparse hn ha args hargs
    exact h.areKept hwhole (by decide)

/-- Where an errand leads. -/
def errandPlace : Json :=
  .obj [("to \"A\"", .str "\\ \t é"), ("via", .obj [])]

/-- The arguments of an errand: the limits of both kinds of numbers, a text and a nested value. -/
def errandArguments : List (String × Json) :=
  [("deposit", .int (-9223372036854775808)), ("fee", .int 18446744073709551615),
    ("greeting", .str "\"Hi\"\n"), ("hint", .null),
    ("route", .arr [.arr [], .bool true, errandPlace])]

/-- A document with one action, which has these arguments. -/
def errand : Document :=
  { nodes := [{ id := "ask", tag := "action", data :=
      { actions := [{ tag := "Plugin_Command", args := some errandArguments }] } }], edges := [] }

lemma whole_errandArguments : ∀ m ∈ errandArguments, Whole m.2 := by
  have hvia : Whole (.obj []) := .obj (List.forall_mem_nil _)
  have hplace : Whole errandPlace :=
    .obj (List.forall_mem_cons.2 ⟨.str _, List.forall_mem_singleton.2 hvia⟩)
  simp only [errandArguments, List.forall_mem_cons]
  refine ⟨.int _, .int _, .str _, .null, .arr ?_, List.forall_mem_nil _⟩
  simp only [List.forall_mem_cons]
  exact ⟨.arr (List.forall_mem_nil _), .bool _, hplace, List.forall_mem_nil _⟩

lemma areArguments_errand : AreArguments 3 errandArguments := by
  refine ⟨by unfold Increasing; decide, ?_⟩
  have hvia : Canonical 1 (.obj []) := .obj .nil (List.forall_mem_nil _)
  have hplace : Canonical 2 errandPlace := .obj (by unfold Increasing; decide)
    (List.forall_mem_cons.2 ⟨.str _, List.forall_mem_singleton.2 hvia⟩)
  simp only [errandArguments, List.forall_mem_cons]
  refine ⟨.int (by decide) (by decide), .int (by decide) (by decide), .str _, .null, .arr ?_,
    List.forall_mem_nil _⟩
  simp only [List.forall_mem_cons]
  exact ⟨.arr (List.forall_mem_nil _), .bool _, hplace, List.forall_mem_nil _⟩

lemma parse_errand : Document.parse errand.json.compact = .ok errand := by
  have hexact : Exact 121 (.obj errandArguments) := .obj areArguments_errand.increasing fun m hm =>
    ((areArguments_errand.canonical m hm).exact (whole_errandArguments m hm)).of_le (by decide)
  refine Document.parse_compact (List.forall_mem_singleton.2 ⟨?_, by simp, List.forall_mem_nil _⟩)
  refine List.forall_mem_singleton.2 ⟨by simp [Keeps], ?_⟩
  rintro _ ⟨⟩
  exact hexact

theorem Action.arguments_of_errand_are_kept :
    Document.parse errand.json.compact = .ok errand ∧ (∀ m ∈ errandArguments, Whole m.2) ∧
      AreArguments 3 errandArguments ∧
      ∃ texts, ({ tag := "Plugin_Command", args := some errandArguments } : Action).convert "ask" =
          .ok (.pluginCommand "" "" texts) ∧
        AreKept (readAll (Json.value 3)) errandArguments texts ∧
        AreKept Json.parse errandArguments texts := by
  refine ⟨parse_errand, whole_errandArguments, areArguments_errand, ?_⟩
  obtain ⟨texts, hconvert, hnested, hloaded⟩ := arguments_are_kept
    (a := { tag := "Plugin_Command", args := some errandArguments }) (by decide) rfl
    whole_errandArguments "ask"
  exact ⟨texts, hconvert, hnested 3 3 areArguments_errand le_rfl,
    hloaded _ _ parse_errand _ (List.mem_singleton.2 rfl) (List.mem_singleton.2 rfl)⟩

end Dialogue.Editor
