import Dialogue.Editor.Conversion
import Dialogue.Proofs.Results
/-!
Which documents of the editor are refused.

A document is refused for a tag that is not known, and for nothing else.  The tags that count are
those of its nodes and, inside a node, those that belong to its kind; they are put in a row
(`Document.offences`), and the first one in the row is what is reported.  Two facts carry this
through the conversion: a step that comes before another one reports first (`Reports.bind`), and a
list is converted from its front (`Reports.mapM`).

Tags are compared in lower case.  The conversion knows the letters of ASCII only; that this gives
the same answers as any mapping that also knows the other letters (`CaseMapping`) is shown first.
-/

namespace Dialogue.Editor

/-! ## Lower case -/

/-- The Kelvin sign, the only character outside of ASCII that is a letter of ASCII in lower case. -/
def kelvinSign : Char := '\u212A'

/-- A way to write characters in lower case.  What becomes of a character outside of ASCII is left
open, as long as it does not become a text of ASCII; one character may become several, as the
capital I with a dot does. -/
structure CaseMapping where
  /-- The lower case of a character. -/
  lower : Char → List Char
  ascii : ∀ c, c.toNat < 128 → lower c = [c.toLower]
  kelvin : lower kelvinSign = ['k']
  other : ∀ c, 128 ≤ c.toNat → c ≠ kelvinSign → ∃ x ∈ lower c, 128 ≤ x.toNat

/-- A tag without hyphens and underscores, in lower case. -/
def CaseMapping.normal (m : CaseMapping) (tag : String) : String :=
  String.ofList ((tag.toList.filter fun c => c != '_' && c != '-').flatMap m.lower)

/-- All characters of a text are characters of ASCII. -/
def IsAscii (w : String) : Prop :=
  ∀ c ∈ w.toList, c.toNat < 128

-- the instance is given by name, since another one would go through all characters there are
instance (w : String) : Decidable (IsAscii w) :=
  List.decidableBAll (fun c : Char => c.toNat < 128) w.toList

lemma toLower_of_le {c : Char} (h : 128 ≤ c.toNat) : c.toLower = c := by
  have hnot : ¬ (c.val ≥ 'A'.val ∧ c.val ≤ 'Z'.val) := by
    rintro ⟨-, hle⟩
    have hle' : c.toNat ≤ 'Z'.toNat := hle
    have hZ : 'Z'.toNat = 90 := rfl
    omega
  exact dif_neg hnot

lemma lowerTagChar_of_le {c : Char} (h : 128 ≤ c.toNat) (hc : c ≠ kelvinSign) :
    lowerTagChar c = c := by
  have hne : (c == '\u212A') = false := beq_false_of_ne hc
  rw [lowerTagChar, hne]
  exact toLower_of_le h

lemma lowerTagChar_of_lt {c : Char} (h : c.toNat < 128) : lowerTagChar c = c.toLower := by
  have hne : (c == '\u212A') = false := by
    refine beq_false_of_ne ?_
    rintro rfl
    exact absurd h (by decide)
  rw [lowerTagChar, hne]
  rfl

namespace CaseMapping

/-- The letters of ASCII and the Kelvin sign have a lower case, and no other character has. -/
def plain : CaseMapping where
  lower c := [lowerTagChar c]
  ascii _ h := congrArg (fun x => [x]) (lowerTagChar_of_lt h)
  kelvin := rfl
  other c h hc := ⟨c, List.mem_singleton.2 (lowerTagChar_of_le h hc).symm, h⟩

variable (m : CaseMapping)

lemma lower_eq {c : Char} (h : c.toNat < 128 ∨ c = kelvinSign) : m.lower c = [lowerTagChar c] := by
  rcases h with h | rfl
  · rw [m.ascii c h, lowerTagChar_of_lt h]
  · exact m.kelvin

/-- A text of ASCII comes from letters of ASCII and Kelvin signs only. -/
lemma flatMap_lower_eq_iff (cs : List Char) {ws : List Char} (hws : ∀ x ∈ ws, x.toNat < 128) :
    cs.flatMap m.lower = ws ↔ cs.map lowerTagChar = ws := by
  by_cases hcs : ∀ c ∈ cs, c.toNat < 128 ∨ c = kelvinSign
  · have heq : cs.flatMap m.lower = cs.map lowerTagChar := by
      rw [List.flatMap_congr fun c hc => m.lower_eq (hcs c hc)]
      exact List.flatMap_pure_eq_map _ _
    rw [heq]
  · -- one character stays outside of ASCII on either side
    obtain ⟨c, hc, hlarge, hne⟩ : ∃ c ∈ cs, 128 ≤ c.toNat ∧ c ≠ kelvinSign := by
      simpa [not_or] using hcs
    constructor
    · rintro rfl
      obtain ⟨x, hx, hlarge⟩ := m.other c hlarge hne
      have hlt := hws x (List.mem_flatMap.2 ⟨c, hc, hx⟩)
      omega
    · rintro rfl
      have hlt := hws (lowerTagChar c) (List.mem_map_of_mem hc)
      rw [lowerTagChar_of_le hlarge hne] at hlt
      omega

/-- Words of ASCII are recognized as with the letters of ASCII alone. -/
lemma normal_eq_iff {tag w : String} (hw : IsAscii w) : m.normal tag = w ↔ normalTag tag = w := by
  have hlist : ∀ cs : List Char, String.ofList cs = w ↔ cs = w.toList := by
    intro cs
    constructor
    · rintro rfl
      rw [String.toList_ofList]
    · rintro rfl
      rw [String.ofList_toList]
  rw [normal, normalTag, hlist, hlist, m.flatMap_lower_eq_iff _ hw]

lemma normal_eq_of_mem {tag : String} {ws : List String} (hws : ∀ w ∈ ws, IsAscii w)
    (h : normalTag tag ∈ ws) : m.normal tag = normalTag tag :=
  (m.normal_eq_iff (hws _ h)).2 rfl

lemma normal_mem_iff {tag : String} {ws : List String} (hws : ∀ w ∈ ws, IsAscii w) :
    m.normal tag ∈ ws ↔ normalTag tag ∈ ws := by
  constructor
  · intro h
    rwa [(m.normal_eq_iff (hws _ h)).1 rfl]
  · intro h
    rwa [m.normal_eq_of_mem hws h]

/-- Two tags with the same normal form are known as the same word, or are both unknown. -/
lemma normalTag_eq_or {tag tag' : String} (h : m.normal tag = m.normal tag') {ws : List String}
    (hws : ∀ w ∈ ws, IsAscii w) :
    normalTag tag = normalTag tag' ∨ normalTag tag ∉ ws ∧ normalTag tag' ∉ ws := by
  by_cases hmem : normalTag tag ∈ ws
  · refine .inl ((m.normal_eq_iff (hws _ hmem)).1 ?_).symm
    rw [← h, m.normal_eq_of_mem hws hmem]
  · refine .inr ⟨hmem, ?_⟩
    rwa [← m.normal_mem_iff hws, ← h, m.normal_mem_iff hws]

end CaseMapping

/-! ## What is known -/

/-- The kinds of nodes. -/
def nodeTags : List String :=
  ["start", "end", "group", "comment", "action", "condition", "menu"]

/-- The kinds of actions. -/
def actionTags : List String :=
  ["script", "setvariable", "setswitch", "commonevent", "showtext", "plugincommand"]

/-- The kinds of conditions. -/
def conditionTags : List String :=
  ["switch", "variable", "script"]

lemma isAscii_nodeTags : ∀ w ∈ nodeTags, IsAscii w := by decide

lemma isAscii_actionTags : ∀ w ∈ actionTags, IsAscii w := by decide

lemma isAscii_conditionTags : ∀ w ∈ conditionTags, IsAscii w := by decide

section Offences

variable (m : CaseMapping)

/-- The tag of a node is known, and so are the tags in the content that belongs to its kind. -/
@[mk_iff]
structure Node.IsKnown (n : Node) : Prop where
  tag : m.normal n.tag ∈ nodeTags
  actions : m.normal n.tag = "action" → ∀ a ∈ n.data.actions, m.normal a.tag ∈ actionTags
  condition : m.normal n.tag = "condition" →
    ∀ c ∈ n.data.condition, m.normal c.tag ∈ conditionTags
  choices : m.normal n.tag = "menu" → ∀ c ∈ n.data.choices,
    (∀ h ∈ c.hide, m.normal h.tag ∈ conditionTags) ∧
      ∀ h ∈ c.disable, m.normal h.tag ∈ conditionTags

/-- What is wrong with an action of a node. -/
def Action.offences (node : String) (a : Action) : List LoadError :=
  if m.normal a.tag ∈ actionTags then [] else [.unknownAction node a.tag]

/-- What is wrong with a condition of a node. -/
def Condition.offences (node : String) (c : Condition) : List LoadError :=
  if m.normal c.tag ∈ conditionTags then [] else [.unknownCondition node c.tag]

/-- What is wrong with a choice of a node. -/
def Choice.offences (node : String) (c : Choice) : List LoadError :=
  (c.hide.toList ++ c.disable.toList).flatMap (Condition.offences m node)

/-- What is wrong with a node. -/
def Node.offences (n : Node) : List LoadError :=
  if m.normal n.tag ∉ nodeTags then [.unknownNode n.id n.tag]
  else if m.normal n.tag = "action" then n.data.actions.flatMap (Action.offences m n.id)
  else if m.normal n.tag = "condition" then
    n.data.condition.toList.flatMap (Condition.offences m n.id)
  else if m.normal n.tag = "menu" then n.data.choices.flatMap (Choice.offences m n.id)
  else []

/-- What is wrong with a document, in order. -/
def Document.offences (d : Document) : List LoadError :=
  d.nodes.flatMap (Node.offences m)

variable {m}

lemma Action.offences_eq_nil_iff {node : String} {a : Action} :
    a.offences m node = [] ↔ m.normal a.tag ∈ actionTags := by
  rw [offences]
  split <;> simp_all

lemma Condition.offences_eq_nil_iff {node : String} {c : Condition} :
    c.offences m node = [] ↔ m.normal c.tag ∈ conditionTags := by
  rw [offences]
  split <;> simp_all

lemma Choice.offences_eq_nil_iff {node : String} {c : Choice} :
    c.offences m node = [] ↔ (∀ h ∈ c.hide, m.normal h.tag ∈ conditionTags) ∧
      ∀ h ∈ c.disable, m.normal h.tag ∈ conditionTags := by
  simp only [offences, List.flatMap_append, List.append_eq_nil_iff, List.flatMap_eq_nil_iff,
    Condition.offences_eq_nil_iff, Option.mem_toList, Option.mem_def]

lemma Node.offences_eq_nil_iff {n : Node} : n.offences m = [] ↔ n.IsKnown m := by
  by_cases htag : m.normal n.tag ∈ nodeTags
  · rw [isKnown_iff, offences, if_neg (not_not.2 htag)]
    simp only [nodeTags, List.mem_cons, List.not_mem_nil, or_false] at htag
    -- for each kind at most one part of the content is looked at
    rcases htag with h | h | h | h | h | h | h <;>
      simp [h, nodeTags, Action.offences_eq_nil_iff, Condition.offences_eq_nil_iff,
        Choice.offences_eq_nil_iff]
  · rw [offences, if_pos htag]
    exact ⟨nofun, fun h => absurd h.tag htag⟩

lemma Document.offences_eq_nil_iff {d : Document} :
    d.offences m = [] ↔ ∀ n ∈ d.nodes, n.IsKnown m := by
  simp only [offences, List.flatMap_eq_nil_iff, Node.offences_eq_nil_iff]

/-- Every offence is about a tag. -/
lemma Node.badText_notMem_offences {n : Node} {fault : Json.Fault} :
    .badText fault ∉ n.offences m := by
  have haction : ∀ a : Action, .badText fault ∉ a.offences m n.id := by
    intro a
    rw [Action.offences]
    split <;> simp
  have hcondition : ∀ c : Condition, .badText fault ∉ c.offences m n.id := by
    intro c
    rw [Condition.offences]
    split <;> simp
  have hchoice : ∀ c : Choice, .badText fault ∉ c.offences m n.id := by
    intro c
    simp [Choice.offences, hcondition]
  rw [offences]
  split_ifs <;> simp [haction, hcondition, hchoice]

end Offences

/-! ## The first offence is reported -/

/-- The result is an error if there are offences, and then the first one. -/
inductive Reports {α : Type} : List LoadError → Except LoadError α → Prop
  | ok (a : α) : Reports [] (.ok a)
  | error (e : LoadError) (es : List LoadError) : Reports (e :: es) (.error e)

namespace Reports

variable {α β : Type} {es es' : List LoadError} {x : Except LoadError α}

lemma exists_ok_iff (h : Reports es x) : (∃ a, x = .ok a) ↔ es = [] := by
  cases h with
  | ok a => exact ⟨fun _ => rfl, fun _ => ⟨a, rfl⟩⟩
  | error e es => simp

lemma error_iff (h : Reports es x) (e : LoadError) : x = .error e ↔ es.head? = some e := by
  cases h with
  | ok a => simp
  | error e' es => simp

lemma map (h : Reports es x) (f : α → β) : Reports es (f <$> x) := by
  cases h with
  | ok a => exact .ok (f a)
  | error e es => exact .error e es

/-- What comes first is reported first. -/
lemma bind (h : Reports es x) {k : α → Except LoadError β} (hk : ∀ a, Reports es' (k a)) :
    Reports (es ++ es') (x >>= k) := by
  cases h with
  | ok a => exact hk a
  | error e es => exact .error e (es ++ es')

lemma mapM {γ : Type} {f : γ → Except LoadError α} {offences : γ → List LoadError}
    (h : ∀ c, Reports (offences c) (f c)) (cs : List γ) :
    Reports (cs.flatMap offences) (cs.mapM f) := by
  induction cs with
  | nil => exact .ok []
  | cons c cs ih =>
    rw [List.mapM_cons, List.flatMap_cons]
    exact (h c).bind fun _ => ih.map _

end Reports

section Conversion

variable (m : CaseMapping) (node : String)

lemma Action.convert_of_not_mem (a : Action) (h : normalTag a.tag ∉ actionTags) :
    a.convert node = .error (.unknownAction node a.tag) := by
  rw [convert]
  split <;> simp_all [actionTags]

lemma Action.reports_convert (a : Action) : Reports (a.offences m node) (a.convert node) := by
  rw [offences]
  split
  · next h =>
    rw [m.normal_mem_iff isAscii_actionTags] at h
    simp only [actionTags, List.mem_cons, List.not_mem_nil, or_false] at h
    rcases h with h | h | h | h | h | h <;> rw [convert, h] <;> exact .ok _
  · next h =>
    rw [m.normal_mem_iff isAscii_actionTags] at h
    rw [a.convert_of_not_mem node h]
    exact .error _ []

lemma Condition.convert_of_not_mem (c : Condition) (h : normalTag c.tag ∉ conditionTags) :
    c.convert node = .error (.unknownCondition node c.tag) := by
  rw [convert]
  split <;> simp_all [conditionTags]

lemma Condition.reports_convert (c : Condition) :
    Reports (c.offences m node) (c.convert node) := by
  rw [offences]
  split
  · next h =>
    rw [m.normal_mem_iff isAscii_conditionTags] at h
    simp only [conditionTags, List.mem_cons, List.not_mem_nil, or_false] at h
    rcases h with h | h | h <;> rw [convert, h] <;> exact .ok _
  · next h =>
    rw [m.normal_mem_iff isAscii_conditionTags] at h
    rw [c.convert_of_not_mem node h]
    exact .error _ []

lemma reports_convertCondition? (o : Option Condition) :
    Reports (o.toList.flatMap (Condition.offences m node)) (convertCondition? node o) := by
  cases o with
  | none => exact .ok none
  | some c =>
    rw [Option.toList_some, List.flatMap_singleton, convertCondition?]
    exact (c.reports_convert m node).map some

lemma Choice.reports_convert (index : Nat) (c : Choice) :
    Reports (c.offences m node) (c.convert node index) := by
  rw [offences, List.flatMap_append]
  refine (reports_convertCondition? m node c.hide).bind fun hide => ?_
  exact (reports_convertCondition? m node c.disable).map (Dialogue.Choice.mk _ c.text hide)

lemma reports_convertChoices (index : Nat) (cs : List Choice) :
    Reports (cs.flatMap (Choice.offences m node)) (convertChoices node index cs) := by
  induction cs generalizing index with
  | nil => exact .ok []
  | cons c cs ih =>
    rw [List.flatMap_cons, convertChoices]
    exact (c.reports_convert m node index).bind fun choice => (ih (index + 1)).map (choice :: ·)

lemma Node.kind_of_not_mem (n : Node) (h : normalTag n.tag ∉ nodeTags) :
    n.kind = .error (.unknownNode n.id n.tag) := by
  rw [kind]
  split <;> simp_all [nodeTags]

lemma Node.reports_kind (n : Node) : Reports (n.offences m) n.kind := by
  by_cases htag : normalTag n.tag ∈ nodeTags
  · rw [kind, offences, m.normal_eq_of_mem isAscii_nodeTags htag, if_neg (not_not.2 htag)]
    simp only [nodeTags, List.mem_cons, List.not_mem_nil, or_false] at htag
    rcases htag with h | h | h | h | h | h | h <;> rw [h]
    -- four kinds have no content
    iterate 4 exact .ok _
    · rw [if_pos rfl]
      exact (Reports.mapM (Action.reports_convert m n.id) n.data.actions).map NodeKind.action
    · rw [if_neg (by decide), if_pos rfl]
      cases n.data.condition with
      | none => exact .ok _
      | some c =>
        rw [Option.toList_some, List.flatMap_singleton]
        exact (c.reports_convert m n.id).map NodeKind.condition
    · rw [if_neg (by decide), if_neg (by decide), if_pos rfl]
      exact ((reports_convertChoices m n.id 0 n.data.choices).map _).map NodeKind.menu
  · rw [n.kind_of_not_mem htag, offences, if_pos (by rwa [m.normal_mem_iff isAscii_nodeTags])]
    exact .error _ []

theorem Document.reports_convert (d : Document) : Reports (d.offences m) d.convert :=
  (Reports.mapM (fun n => (n.reports_kind m).map _) d.nodes).map _

/-- The conversion finds no other errors than unknown tags. -/
lemma Document.convert_ne_badText (d : Document) (fault : Json.Fault) :
    d.convert ≠ .error (.badText fault) := by
  intro h
  have hmem := List.mem_of_head? (((d.reports_convert .plain).error_iff _).1 h)
  obtain ⟨n, -, hn⟩ := List.mem_flatMap.1 hmem
  exact Node.badText_notMem_offences hn

end Conversion

/-! ## Nodes and edges correspond -/

section Correspondence

/-- The nodes of a graph are those of the document with their ids and marks, in order, and so are
its edges with their ends.  An edge without an id is given one by its place. -/
structure Document.Corresponds (d : Document) (g : Dialogue.Document) : Prop where
  nodes : g.nodes.map (fun n => (n.id, n.muted)) = d.nodes.map fun n => (n.id, n.data.muted)
  ends : g.edges.map (fun e => (e.source, e.target)) = d.edges.map fun e => (e.source, e.target)
  ids : g.edges.map (fun e => e.id) =
    d.edges.mapIdx fun i e => if e.id = "" then "edge-" ++ toString i else e.id

lemma map_eq_of_mapM {ε α β γ : Type} {f : α → Except ε β} {p : α → γ} {q : β → γ}
    (hf : ∀ a b, f a = .ok b → q b = p a) {as : List α} {bs : List β} (h : as.mapM f = .ok bs) :
    bs.map q = as.map p := by
  induction as generalizing bs with
  | nil =>
    cases h
    rfl
  | cons a as ih =>
    obtain ⟨b, bs, ha, has, rfl⟩ := mapM_cons_eq_ok_iff.1 h
    rw [List.map_cons, List.map_cons, hf a b ha, ih has]

lemma Document.convert_eq_ok_iff {d : Document} {g : Dialogue.Document} :
    d.convert = .ok g ↔ ∃ nodes, d.nodes.mapM Node.convert = .ok nodes ∧
      g = ⟨nodes, d.edges.mapIdx Edge.convert⟩ := by
  rw [convert, bind_eq_ok_iff]
  refine exists_congr fun nodes => and_congr_right fun _ => ?_
  exact ⟨fun h => (Except.ok.inj h).symm, fun h => congrArg Except.ok h.symm⟩

theorem Document.corresponds_of_convert {d : Document} {g : Dialogue.Document}
    (h : d.convert = .ok g) : d.Corresponds g := by
  obtain ⟨nodes, hnodes, rfl⟩ := convert_eq_ok_iff.1 h
  refine ⟨map_eq_of_mapM (fun n n' hn => ?_) hnodes, ?_, ?_⟩
  · obtain ⟨kind, -, ⟨⟩⟩ := bind_eq_ok_iff.1 hn
    rfl
  · exact List.ext_getElem (by simp) fun i _ _ => by simp [Edge.convert]
  · exact List.ext_getElem (by simp) fun i _ _ => by simp [Edge.convert]

/-- Edges do not matter for what becomes of the nodes. -/
lemma Document.map_nodes_convert (d : Document) (edges : List Edge) :
    Dialogue.Document.nodes <$> { d with edges }.convert =
      Dialogue.Document.nodes <$> d.convert := by
  rw [convert, convert]
  cases d.nodes.mapM Node.convert <;> rfl

end Correspondence

/-! ## Tags with the same normal form -/

section Retagging

variable (f : String → String)

/-- The condition with another tag. -/
def Condition.mapTags (c : Condition) : Condition :=
  { c with tag := f c.tag }

/-- The action with another tag. -/
def Action.mapTags (a : Action) : Action :=
  { a with tag := f a.tag }

variable {f} in
lemma Condition.eq_of_mapTags_eq {c c' : Condition} (h : c.mapTags f = c'.mapTags f) :
    c' = { c with tag := c'.tag } := by
  cases c
  cases c'
  simp_all [mapTags]

variable {f} in
lemma Action.eq_of_mapTags_eq {a a' : Action} (h : a.mapTags f = a'.mapTags f) :
    a' = { a with tag := a'.tag } := by
  cases a
  cases a'
  simp_all [mapTags]

/-- The choice with other tags. -/
def Choice.mapTags (c : Choice) : Choice :=
  { c with
    hide := c.hide.map (Condition.mapTags f)
    disable := c.disable.map (Condition.mapTags f) }

/-- The content of a node with other tags. -/
def NodeData.mapTags (d : NodeData) : NodeData :=
  { d with
    actions := d.actions.map (Action.mapTags f)
    condition := d.condition.map (Condition.mapTags f)
    choices := d.choices.map (Choice.mapTags f)
    cancelType := d.cancelType.map f }

/-- The node with other tags. -/
def Node.mapTags (n : Node) : Node :=
  { n with tag := f n.tag, data := n.data.mapTags f }

/-- The document with other tags. -/
def Document.mapTags (d : Document) : Document :=
  { d with nodes := d.nodes.map (Node.mapTags f) }

end Retagging

/-- Lists that become the same list have corresponding members that become the same. -/
lemma forall₂_of_map_eq {α β : Type} {f : α → β} {as as' : List α} (h : as.map f = as'.map f) :
    List.Forall₂ (fun a a' => f a = f a') as as' := by
  have heq : List.Forall₂ (· = ·) (as.map f) (as'.map f) := by rw [h, List.forall₂_eq_eq_eq]
  rwa [List.forall₂_map_left_iff, List.forall₂_map_right_iff] at heq

section Same

variable {m : CaseMapping} (node : String)

lemma Condition.sameResult {c c' : Condition} (h : c.mapTags m.normal = c'.mapTags m.normal) :
    SameResult (c.convert node) (c'.convert node) := by
  have htag : m.normal c.tag = m.normal c'.tag := congrArg Condition.tag h
  rcases m.normalTag_eq_or htag isAscii_conditionTags with hnormal | ⟨hnot, hnot'⟩
  · rw [eq_of_mapTags_eq h, convert, convert, hnormal]
    dsimp only
    split
    iterate 3 exact .refl _
    exact .errors _ _
  · rw [c.convert_of_not_mem node hnot, c'.convert_of_not_mem node hnot']
    exact .errors _ _

lemma Action.sameResult {a a' : Action} (h : a.mapTags m.normal = a'.mapTags m.normal) :
    SameResult (a.convert node) (a'.convert node) := by
  have htag : m.normal a.tag = m.normal a'.tag := congrArg Action.tag h
  rcases m.normalTag_eq_or htag isAscii_actionTags with hnormal | ⟨hnot, hnot'⟩
  · rw [eq_of_mapTags_eq h, convert, convert, hnormal]
    dsimp only
    split
    iterate 6 exact .refl _
    exact .errors _ _
  · rw [a.convert_of_not_mem node hnot, a'.convert_of_not_mem node hnot']
    exact .errors _ _

lemma sameResult_convertCondition? {o o' : Option Condition}
    (h : o.map (Condition.mapTags m.normal) = o'.map (Condition.mapTags m.normal)) :
    SameResult (convertCondition? node o) (convertCondition? node o') := by
  cases o <;> cases o'
  case none.none => exact .refl _
  case some.some c c' => exact (Condition.sameResult node (Option.some.inj h)).map some
  all_goals cases h

lemma Choice.sameResult (index : Nat) {c c' : Choice}
    (h : c.mapTags m.normal = c'.mapTags m.normal) :
    SameResult (c.convert node index) (c'.convert node index) := by
  obtain ⟨id, text, hide, disable⟩ := c
  obtain ⟨id', text', hide', disable'⟩ := c'
  obtain ⟨rfl, rfl, hhide, hdisable⟩ : id = id' ∧ text = text' ∧ _ ∧ _ := by
    simpa only [mapTags, mk.injEq] using h
  refine (sameResult_convertCondition? node hhide).bind fun hide => ?_
  exact (sameResult_convertCondition? node hdisable).bind fun disable => .refl _

lemma sameResult_convertChoices (index : Nat) {cs cs' : List Choice}
    (h : cs.map (Choice.mapTags m.normal) = cs'.map (Choice.mapTags m.normal)) :
    SameResult (convertChoices node index cs) (convertChoices node index cs') := by
  have hchoices := forall₂_of_map_eq h
  clear h
  induction hchoices generalizing index with
  | nil => exact .refl _
  | cons hc _ ih =>
    rw [convertChoices, convertChoices]
    exact (Choice.sameResult node index hc).bind fun _ => (ih (index + 1)).bind fun _ => .refl _

lemma cancelModeOf_congr {tag tag' : Option String}
    (h : tag.map m.normal = tag'.map m.normal) : cancelModeOf tag = cancelModeOf tag' := by
  have hascii : ∀ w ∈ ["branch", "lastchoice", "last"], IsAscii w := by decide
  have hnone : ∀ t, normalTag t ∉ ["branch", "lastchoice", "last"] →
      cancelModeOf (some t) = .disallow := by
    intro t ht
    rw [cancelModeOf, Option.map_some]
    split <;> simp_all
  cases tag <;> cases tag'
  case none.none => rfl
  case some.some t t' =>
    rcases m.normalTag_eq_or (Option.some.inj h) hascii with heq | ⟨hnot, hnot'⟩
    · rw [cancelModeOf, cancelModeOf, Option.map_some, Option.map_some, heq]
    · rw [hnone t hnot, hnone t' hnot']
  all_goals cases h

lemma NodeData.sameResult_menu {d d' : NodeData}
    (h : d.mapTags m.normal = d'.mapTags m.normal) : SameResult (d.menu node) (d'.menu node) := by
  have hchoices := (congrArg NodeData.choices h :)
  have hcancel : cancelModeOf d.cancelType = cancelModeOf d'.cancelType :=
    cancelModeOf_congr (congrArg NodeData.cancelType h :)
  have hposition : d.windowPosition = d'.windowPosition := (congrArg NodeData.windowPosition h :)
  have hbackground : d.windowBackground = d'.windowBackground :=
    (congrArg NodeData.windowBackground h :)
  have hprompt : d.prompt = d'.prompt := (congrArg NodeData.prompt h :)
  rw [menu, menu, hcancel, hposition, hbackground, hprompt]
  exact (sameResult_convertChoices node 0 hchoices).bind fun _ => .refl _

lemma Node.sameResult_kind {n n' : Node} (h : n.mapTags m.normal = n'.mapTags m.normal) :
    SameResult n.kind n'.kind := by
  have htag : m.normal n.tag = m.normal n'.tag := congrArg Node.tag h
  have hid : n.id = n'.id := (congrArg Node.id h :)
  have hdata : n.data.mapTags m.normal = n'.data.mapTags m.normal := congrArg Node.data h
  rcases m.normalTag_eq_or htag isAscii_nodeTags with hnormal | ⟨hnot, hnot'⟩
  · rw [kind, kind, hnormal, hid]
    split
    iterate 4 exact .refl _
    · have hactions := forall₂_of_map_eq (congrArg NodeData.actions hdata)
      exact (SameResult.mapM (hactions.imp fun _ _ => Action.sameResult n'.id)).map _
    · have hcondition := (congrArg NodeData.condition hdata :)
      dsimp only [NodeData.mapTags] at hcondition
      cases hc : n.data.condition <;> cases hc' : n'.data.condition <;> rw [hc, hc'] at hcondition
      case none.none => exact .refl _
      case some.some c c' =>
        exact (Condition.sameResult n'.id (Option.some.inj hcondition)).map _
      all_goals cases hcondition
    · exact (NodeData.sameResult_menu n'.id hdata).map _
    · exact .errors _ _
  · rw [n.kind_of_not_mem hnot, n'.kind_of_not_mem hnot']
    exact .errors _ _

lemma Node.sameResult {n n' : Node} (h : n.mapTags m.normal = n'.mapTags m.normal) :
    SameResult n.convert n'.convert := by
  have hid : n.id = n'.id := (congrArg Node.id h :)
  have hdata := (congrArg Node.data h :)
  have hlabel : n.data.label = n'.data.label := (congrArg NodeData.label hdata :)
  have hmuted : n.data.muted = n'.data.muted := (congrArg NodeData.muted hdata :)
  rw [convert, convert, hid, hlabel, hmuted]
  exact (sameResult_kind h).bind fun _ => .refl _

theorem Document.sameResult {d d' : Document} (h : d.mapTags m.normal = d'.mapTags m.normal) :
    SameResult d.convert d'.convert := by
  have hnodes := forall₂_of_map_eq (congrArg Document.nodes h)
  have hedges : d.edges = d'.edges := (congrArg Document.edges h :)
  rw [convert, convert, hedges]
  exact (SameResult.mapM (hnodes.imp fun _ _ => Node.sameResult)).bind fun _ => .refl _

end Same

/-! ## Refused documents -/

/-- The first offence of a document is the first one of the first node that has any. -/
lemma Document.head?_offences_iff {m : CaseMapping} {d : Document} {e : LoadError} :
    (d.offences m).head? = some e ↔ ∃ (before : List Node) (n : Node) (after : List Node),
      d.nodes = before ++ n :: after ∧ (∀ k ∈ before, k.IsKnown m) ∧
        (n.offences m).head? = some e := by
  rw [offences, List.head?_flatMap, List.findSome?_eq_some_iff]
  simp only [List.head?_eq_none_iff, Node.offences_eq_nil_iff, and_comm]

/-- A document is converted if all tags that count are known.  Otherwise the first unknown one is
reported, with its node and as it was written.  Edges are never refused, and tags with the same
normal form are as good as each other. -/
theorem Document.refuses_first_unknown_tag (m : CaseMapping) (d : Document) :
    ((∃ g, d.convert = .ok g) ↔ ∀ n ∈ d.nodes, n.IsKnown m) ∧
      (∀ e, d.convert = .error e ↔ ∃ (before : List Node) (n : Node) (after : List Node),
        d.nodes = before ++ n :: after ∧ (∀ k ∈ before, k.IsKnown m) ∧
          (n.offences m).head? = some e) ∧
      (∀ g, d.convert = .ok g → d.Corresponds g) ∧
      (∀ edges, Dialogue.Document.nodes <$> { d with edges }.convert =
        Dialogue.Document.nodes <$> d.convert) ∧
      ∀ d' : Document, d.mapTags m.normal = d'.mapTags m.normal →
        ∀ g, d.convert = .ok g ↔ d'.convert = .ok g := by
  have hreports := d.reports_convert m
  refine ⟨?_, fun e => ?_, fun g => corresponds_of_convert, d.map_nodes_convert,
    fun d' => sameResult⟩
  · rw [hreports.exists_ok_iff, offences_eq_nil_iff]
  · rw [hreports.error_iff, head?_offences_iff]

/-- A document with tags in several spellings, with unknown tags where nobody looks, and with an
edge without an id. -/
def courtyard : Document where
  nodes :=
    [{ id := "gate", tag := "START", data := { actions := [{ tag := "dance" }] } },
      { id := "well", tag := "Me-nu", data := {
          muted := true
          condition := some { tag := "weather" }
          choices := [{ id := "drink"
                        text := "Drink"
                        hide := some { tag := "Switch", switchId := some 3 }
                        disable := some { tag := "_script_" } }] } },
      { id := "walk", tag := "action", data := { actions := [{ tag := "SET_SWITCH" }] } }]
  edges :=
    [{ id := "e", source := "gate", target := "well" }, { source := "well", target := "walk" }]

/-- The dialogue graph of the courtyard. -/
def courtyardGraph : Dialogue.Document where
  nodes :=
    [{ id := "gate", kind := .start },
      { id := "well"
        muted := true
        kind := .menu { choices := [{ id := "drink"
                                      text := "Drink"
                                      hide := some (.switch 3 true)
                                      disable := some (.script none) }] } },
      { id := "walk", kind := .action [.setSwitch 0 true] }]
  edges :=
    [{ id := "e", source := "gate", target := "well" },
      { id := "edge-1", source := "well", target := "walk" }]

theorem Document.courtyard_is_not_refused :
    courtyard.convert = .ok courtyardGraph ∧ courtyard.Corresponds courtyardGraph ∧
      (courtyard.mapTags ("-" ++ ·)).convert = .ok courtyardGraph := by
  have hconvert : courtyard.convert = .ok courtyardGraph := rfl
  obtain ⟨-, -, hcorresponds, -, hsame⟩ := refuses_first_unknown_tag .plain courtyard
  exact ⟨hconvert, hcorresponds _ hconvert, (hsame _ rfl _).1 hconvert⟩

/-- A document whose only edge has no id. -/
def unnamedEdge : Document where
  edges := [{ source := "gate", target := "well" }]

/-- The edges of a graph need not have the ids that they have in the document. -/
theorem Document.ids_of_unnamedEdge_ne :
    ∃ g, unnamedEdge.convert = .ok g ∧
      g.edges.map (fun e => e.id) ≠ unnamedEdge.edges.map fun e => e.id :=
  ⟨_, rfl, by decide⟩

end Dialogue.Editor
