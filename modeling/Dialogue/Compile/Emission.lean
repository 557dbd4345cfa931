import Dialogue.Compile.Plan
import Dialogue.Graph.IdSet
/-!
From plans to commands.

Tasks are worked off in order.  The first visit to a node emits its plan; a later visit emits a jump
to its label instead, so a program holds each node once and loops end.  A node that several edges
enter gets its label at once.  For any other node that turns out to be the target of a jump the
label is put in front of its first command at the end.

The work ends: a task that visits a new node leaves one unvisited node less, and every other task
leaves one task less.
-/

namespace Dialogue

/-- Where the commands of a node begin. -/
structure Entry where
  /-- The node. -/
  id : String
  /-- How many commands were emitted before. -/
  position : Nat
  /-- The depth at which the node was visited. -/
  indent : UInt32
deriving DecidableEq

/-- What has been emitted so far. -/
structure Emission where
  /-- The commands. -/
  commands : Array Command := #[]
  /-- The nodes that have not been visited. -/
  unvisited : IdSet
  /-- The nodes that need a label. -/
  wanted : IdSet := ∅
  /-- The nodes that have a label. -/
  labeled : IdSet := ∅
  /-- The nodes that have been visited, in order. -/
  entries : Array Entry := #[]

namespace Emission

/-- Nothing has been emitted. -/
def initial (index : Index) : Emission where
  unvisited := .ofList index.nodes.keys

/-- Emits a command. -/
def emit (st : Emission) (c : Command) : Emission :=
  { st with commands := st.commands.push c }

/-- Visits a node for the first time; `convergence` says whether several edges enter it. -/
def enter (st : Emission) (id : String) (indent : UInt32) (convergence : Bool) : Emission :=
  let entered : Emission :=
    { st with
      unvisited := st.unvisited.erase id
      entries := st.entries.push ⟨id, st.commands.size, indent⟩ }
  if convergence then
    { entered.emit (.label indent id) with
      labeled := st.labeled.insert id
      wanted := st.wanted.insert id }
  else entered

/-- Visits a node again.  Inside a block, a node that several edges enter has its label already. -/
def revisit (st : Emission) (id : String) (indent : UInt32) (convergence : Bool) : Emission :=
  let jumped := st.emit (.jumpToLabel indent id)
  if convergence && 0 < indent then jumped else { jumped with wanted := st.wanted.insert id }

/-- Visiting a node for the first time leaves one unvisited node less. -/
theorem unvisited_enter (st : Emission) (id : String) (indent : UInt32) (convergence : Bool) :
    (st.enter id indent convergence).unvisited = st.unvisited.erase id := by
  unfold enter
  cases convergence <;> rfl

/-- Works off a list of tasks. -/
def run (index : Index) (options : Options) : List Task → Emission → Emission
  | [], st => st
  | .emit c :: tasks, st => run index options tasks (st.emit c)
  | .visit id indent :: tasks, st =>
    match index.node? id with
    | none => run index options tasks st
    | some node =>
      let convergence := index.isConvergence id
      if _h : id ∈ st.unvisited then
        run index options (index.nodePlan options node indent ++ tasks)
          (st.enter id indent convergence)
      else run index options tasks (st.revisit id indent convergence)
termination_by tasks st => (st.unvisited.size, tasks.length)
decreasing_by
  · exact Prod.Lex.right _ (Nat.lt_succ_self _)
  · exact Prod.Lex.right _ (Nat.lt_succ_self _)
  · have hsize := IdSet.size_erase_add_one _h
    rw [← unvisited_enter st id indent (index.isConvergence id)] at hsize
    exact Prod.Lex.left _ _ (by omega)
  · have hsame : (st.revisit id indent (index.isConvergence id)).unvisited = st.unvisited := by
      unfold revisit
      dsimp only
      split <;> rfl
    rw [hsame]
    exact Prod.Lex.right _ (Nat.lt_succ_self _)

/-- The entries of the nodes that need a label and have none, the last one first. -/
def missing (st : Emission) : List Entry :=
  (st.entries.toList.filter fun e => st.wanted.contains e.id && !st.labeled.contains e.id).mergeSort
    fun a b => b.position ≤ a.position

/-- The commands, with the labels that are missing.  Working backwards keeps the positions right. -/
def labelled (st : Emission) : List Command :=
  st.missing.foldl (fun cs e => cs.insertIdx e.position (.label e.indent e.id)) st.commands.toList

end Emission

/-- The program of an indexed graph: what follows the node at which the dialogue begins, and the
end. A graph without such a node has no program. -/
def Index.program (index : Index) (options : Options) : List Command :=
  match index.start? with
  | none => []
  | some start =>
    let tasks := visitAny (index.firstTarget? start.id) 0
    (Emission.run index options tasks (.initial index)).labelled ++ [.stop 0]

/-- Compiles a dialogue graph. -/
def Document.compile (d : Document) (options : Options := {}) : List Command :=
  (Index.ofDocument d).program options

/-- Compiles a dialogue graph and gives the program a name. -/
def Document.compileScript (d : Document) (name : String) (options : Options := {}) : Script :=
  ⟨name, d.compile options⟩

end Dialogue
