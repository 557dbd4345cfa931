import Dialogue.Command.Export
import Dialogue.Proofs.Printed
/-!
The file that the engine loads loses nothing.

A parameter of a command can be told from the shape of its JSON value, an opcode from its code, and
a command from the members of its object.  So the commands of a script can be recovered from the
value of its file (`commandsOf?`), and that value is what the text of the file is read as.  The only
limit is the number of containers in which a value may stand when it is read.
-/

namespace Dialogue

/-! ## Recovering commands -/

/-- A member that holds a text. -/
def textEntry? : String × Json → Option (String × String)
  | (key, .str s) => some (key, s)
  | _ => none

mutual

/-- The parameter that a value stands for, by the shape of the value. -/
def Parameter.ofJson? : Json → Option Parameter
  | .num (.int n) => some (.int (Int64.ofInt n))
  | .str s => some (.str s)
  | .bool b => some (.bool b)
  | .arr items => .list <$> Parameter.ofJsonList? items
  | .obj members => (fun entries => .object (.ofList entries)) <$> members.mapM textEntry?
  | .null | .num (.float _) => none

/-- The parameters that values stand for. -/
def Parameter.ofJsonList? : List Json → Option (List Parameter)
  | [] => some []
  | j :: js => do return (← Parameter.ofJson? j) :: (← Parameter.ofJsonList? js)

end

/-- The whole number that a value is. -/
def Json.int? : Json → Option Int
  | .num (.int n) => some n
  | _ => none

/-- The items of an array. -/
def Json.arr? : Json → Option (List Json)
  | .arr items => some items
  | _ => none

/-- The command that an object stands for. -/
def Command.ofJson? : Json → Option Command
  | .obj members => do
    let code ← members.lookup "code" >>= Json.int?
    let indent ← members.lookup "indent" >>= Json.int?
    let parameters ← members.lookup "parameters" >>= Json.arr?
    return {
      opcode := ← Opcode.ofCode? (UInt16.ofNat code.toNat)
      indent := UInt32.ofNat indent.toNat
      parameters := ← Parameter.ofJsonList? parameters }
  | _ => none

/-- The commands that an array stands for. -/
def commandsOf? : Json → Option (List Command)
  | .arr items => items.mapM Command.ofJson?
  | _ => none

lemma mapM_textEntry? (entries : List (String × String)) :
    (entries.map fun kv => (kv.1, Json.str kv.2)).mapM textEntry? = some entries := by
  induction entries with
  | nil => rfl
  | cons kv entries ih =>
    rw [List.map_cons, List.mapM_cons, ih]
    rfl

mutual

lemma ofJson?_toJson : (p : Parameter) → Parameter.ofJson? p.toJson = some p
  | .int n => congrArg (fun n => some (Parameter.int n)) n.ofInt_toInt
  | .str _ => rfl
  | .bool _ => rfl
  | .list items => by
    rw [Parameter.toJson, Parameter.ofJson?, ofJsonList?_toJsonList items]
    rfl
  | .object entries => by
    rw [Parameter.toJson, Parameter.ofJson?, mapM_textEntry?]
    exact congrArg (fun d => some (Parameter.object d)) (ofList_entries entries)

lemma ofJsonList?_toJsonList : (ps : List Parameter) →
    Parameter.ofJsonList? (Parameter.toJsonList ps) = some ps
  | [] => rfl
  | p :: ps => by
    rw [Parameter.toJsonList, Parameter.ofJsonList?, ofJson?_toJson p, ofJsonList?_toJsonList ps]
    rfl

end

lemma Command.ofJson?_toJson (c : Command) : Command.ofJson? c.toJson = some c := by
  have hcode : Opcode.ofCode? (UInt16.ofNat (c.opcode.code.toNat : Int).toNat) = some c.opcode :=
    Opcode.ofCode?_eq_some_iff.2 UInt16.ofNat_toNat.symm
  have hindent : UInt32.ofNat (c.indent.toNat : Int).toNat = c.indent := UInt32.ofNat_toNat
  change (do
    return {
      opcode := ← Opcode.ofCode? (UInt16.ofNat (c.opcode.code.toNat : Int).toNat)
      indent := UInt32.ofNat (c.indent.toNat : Int).toNat
      parameters := ← Parameter.ofJsonList? (Parameter.toJsonList c.parameters) }) = some c
  rw [hcode, hindent, ofJsonList?_toJsonList]
  rfl

theorem commandsOf?_toJson (s : Script) : commandsOf? s.toJson = some s.commands := by
  rw [Script.toJson, commandsOf?]
  induction s.commands with
  | nil => rfl
  | cons c cs ih =>
    rw [List.map_cons, List.mapM_cons, Command.ofJson?_toJson, ih]
    rfl

/-! ## Depth -/

mutual

/-- In how many lists and objects the parts of a parameter stand. -/
def Parameter.depth : Parameter → Nat
  | .int _ | .str _ | .bool _ => 0
  | .list items => Parameter.listDepth items + 1
  | .object _ => 1

/-- The largest depth of the parameters. -/
def Parameter.listDepth : List Parameter → Nat
  | [] => 0
  | p :: ps => max p.depth (Parameter.listDepth ps)

end

lemma Parameter.depth_le_listDepth {p : Parameter} {ps : List Parameter} (h : p ∈ ps) :
    p.depth ≤ Parameter.listDepth ps := by
  induction ps with
  | nil => cases h
  | cons q ps ih =>
    rcases List.mem_cons.1 h with rfl | h
    · exact Nat.le_max_left _ _
    · exact (ih h).trans (Nat.le_max_right _ _)

lemma Parameter.listDepth_le {ps : List Parameter} {depth : Nat} (h : ∀ p ∈ ps, p.depth ≤ depth) :
    Parameter.listDepth ps ≤ depth := by
  induction ps with
  | nil => exact Nat.zero_le _
  | cons p ps ih =>
    exact Nat.max_le.2 ⟨h p List.mem_cons_self, ih fun p hp => h p (List.mem_cons_of_mem _ hp)⟩

mutual

lemma exact_toJson : (p : Parameter) → {depth : Nat} → p.depth ≤ depth → Json.Exact depth p.toJson
  | .int n, _, _ => .int n.le_toInt (by have := n.toInt_lt; omega)
  | .str s, _, _ => .str s
  | .bool b, _, _ => .bool b
  | .list items, depth + 1, h => .arr (exact_toJsonList items (Nat.le_of_succ_le_succ h))
  | .object entries, depth + 1, _ => by
    refine .obj ?_ ?_
    · exact List.pairwise_map.2 entries.increasing
    · intro m hm
      obtain ⟨kv, -, rfl⟩ := List.mem_map.1 hm
      exact .str kv.2

lemma exact_toJsonList : (ps : List Parameter) → {depth : Nat} → Parameter.listDepth ps ≤ depth →
    ∀ j ∈ Parameter.toJsonList ps, Json.Exact depth j
  | p :: ps, _, h, _, hj => by
    obtain ⟨hp, hps⟩ := Nat.max_le.1 h
    rcases List.mem_cons.1 hj with rfl | hj
    · exact exact_toJson p hp
    · exact exact_toJsonList ps hps _ hj

end

lemma Command.exact_toJson {c : Command} {depth : Nat} (h : ∀ p ∈ c.parameters, p.depth ≤ depth) :
    Json.Exact (depth + 2) c.toJson := by
  have hcode := c.opcode.code.toNat_lt
  have hindent := c.indent.toNat_lt
  have hkeys : ["code", "indent", "parameters"].Pairwise (· < ·) := by decide
  refine .obj (List.pairwise_map.1 hkeys) fun m hm => ?_
  simp only [List.mem_cons, List.not_mem_nil, or_false] at hm
  rcases hm with rfl | rfl | rfl
  · exact .int (by omega) (by omega)
  · exact .int (by omega) (by omega)
  · exact .arr (exact_toJsonList c.parameters (Parameter.listDepth_le h))

lemma Script.exact_toJson {s : Script} {depth : Nat}
    (h : ∀ c ∈ s.commands, ∀ p ∈ c.parameters, p.depth ≤ depth) :
    Json.Exact (depth + 3) s.toJson := by
  refine .arr fun j hj => ?_
  obtain ⟨c, hc, rfl⟩ := List.mem_map.1 hj
  exact Command.exact_toJson (h c hc)

/-- Every script is read back within some depth. -/
lemma Script.exists_readAll (s : Script) :
    ∃ depth, ∀ depth', depth ≤ depth' →
      Json.readAll (Json.value depth') s.exportText = .ok s.toJson := by
  have hdepth : ∀ c ∈ s.commands, ∀ p ∈ c.parameters,
      p.depth ≤ Parameter.listDepth (s.commands.flatMap Command.parameters) :=
    fun c hc p hp => Parameter.depth_le_listDepth (List.mem_flatMap.2 ⟨c, hc, hp⟩)
  exact ⟨_, fun depth' hle => Json.readAll_pretty ((Script.exact_toJson hdepth).of_le hle)⟩

/-- Scripts with the same file have the same commands, however deep their parameters are nested. -/
lemma Script.commands_eq_of_exportText_eq {s t : Script} (h : t.exportText = s.exportText) :
    t.commands = s.commands := by
  obtain ⟨depth, hs⟩ := s.exists_readAll
  obtain ⟨depth', ht⟩ := t.exists_readAll
  have hvalue : t.toJson = s.toJson := by
    have hread := ht (max depth depth') (Nat.le_max_right _ _)
    rw [h, hs _ (Nat.le_max_left _ _)] at hread
    exact (Except.ok.inj hread).symm
  have hcommands := commandsOf?_toJson t
  rw [hvalue, commandsOf?_toJson s] at hcommands
  exact (Option.some.inj hcommands).symm

/-! ## The exported file -/

/-- The text of the exported file is read as the value that was exported, and the commands can be
recovered from that value; so the file determines them. -/
theorem Script.parse_exportText (s : Script)
    (h : ∀ c ∈ s.commands, ∀ p ∈ c.parameters, p.depth ≤ 100) :
    Json.parse s.exportText = .ok s.toJson ∧ commandsOf? s.toJson = some s.commands ∧
      ∀ t : Script, t.exportText = s.exportText → t.commands = s.commands := by
  have hexact : Json.Exact Json.depthLimit s.toJson := (Script.exact_toJson h).of_le (by decide)
  exact ⟨Json.readAll_pretty hexact, commandsOf?_toJson s,
    fun _ => Script.commands_eq_of_exportText_eq⟩

/-- A script with the smallest number, escapes, empty lists and objects, and lists in lists. -/
def intricateScript : Script where
  name := "intricate"
  commands :=
    [⟨.showText, 0, [.int (-9223372036854775808), .str "\"quoted\"\\ \n\x01"]⟩,
      ⟨.pluginCommand, 4294967295,
        [.list [], .list [.list [.bool true], .str ""], .object (.ofList [("b", "2"), ("a", "1")]),
          .object .empty]⟩]

theorem Script.parse_exportText_intricate :
    (∀ c ∈ intricateScript.commands, ∀ p ∈ c.parameters, p.depth ≤ 100) ∧
      Json.parse intricateScript.exportText = .ok intricateScript.toJson ∧
      commandsOf? intricateScript.toJson = some intricateScript.commands ∧
      ∀ t : Script, t.exportText = intricateScript.exportText →
        t.commands = intricateScript.commands :=
  ⟨by decide, Script.parse_exportText intricateScript (by decide)⟩

end Dialogue
