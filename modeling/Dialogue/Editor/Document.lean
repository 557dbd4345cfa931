import Dialogue.Json.Value
/-!
Documents as the editor saves them.

Kinds of nodes, actions and conditions are free texts here (`tag`), and a node has room for the
content of every kind.  What a document means as a dialogue graph is said in
`Dialogue.Editor.Conversion`.
-/

namespace Dialogue.Editor

/-- A text to show. -/
structure Message where
  text : Option String := none
  faceName : Option String := none
  faceIndex : Option Int64 := none
  background : Option Int64 := none
  position : Option Int64 := none

/-- A condition. -/
structure Condition where
  /-- The kind of the condition. -/
  tag : String := ""
  switchId : Option UInt32 := none
  variableId : Option UInt32 := none
  operator : Option String := none
  value : Option Json := none
  expression : Option String := none

/-- An action. -/
structure Action where
  /-- The kind of the action. -/
  tag : String := ""
  script : Option String := none
  variableId : Option UInt32 := none
  operation : Option String := none
  switchId : Option UInt32 := none
  eventId : Option UInt32 := none
  value : Option Json := none
  message : Message := {}
  pluginName : Option String := none
  commandName : Option String := none
  args : Option (List (String × Json)) := none

/-- A choice of a menu. -/
structure Choice where
  id : String := ""
  text : String := ""
  hide : Option Condition := none
  disable : Option Condition := none

/-- The content of a node. -/
structure NodeData where
  label : Option String := none
  muted : Bool := false
  actions : List Action := []
  condition : Option Condition := none
  choices : List Choice := []
  cancelType : Option String := none
  windowPosition : Option Int64 := none
  windowBackground : Option Int64 := none
  prompt : Option Message := none

/-- A node. -/
structure Node where
  id : String := ""
  /-- The kind of the node. -/
  tag : String := ""
  data : NodeData := {}

/-- An edge. -/
structure Edge where
  id : String := ""
  source : String := ""
  target : String := ""
  handle : Option String := none

/-- A document as the editor saves it. -/
structure Document where
  nodes : List Node := []
  edges : List Edge := []

end Dialogue.Editor
