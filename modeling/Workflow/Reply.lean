import Workflow.Action
import Workflow.Schema.Basic

/-! What node logic is given and what it answers. -/

namespace Workflow

/-- What node logic is told besides the state. -/
structure NodeContext where
  node : String
  thread : String
  /-- How many steps the run has taken. -/
  step : Int
  /-- What the caller passed when the run went on after a pause. -/
  resumeValue : Value := .null
  /-- This is the first node after a pause. -/
  resumed : Bool := false
  deriving Inhabited

inductive Reply where
  | nothing
  /-- Values to merge into the state; a mapping, if the logic does as it should. -/
  | update (values : Value)
  | suspend (prompt : Value)
  /-- A value of a kind that is no answer. -/
  | unfit (kindName : String)
  deriving Inhabited

namespace Reply

def suspendKind : String := "Suspend"
def updateKind : String := "NodeUpdate"

def suspendValue (prompt : Value) : Value := .object suspendKind [("prompt", prompt)]

def updateValue (values : Value) : Value := .object updateKind [("values", values)]

def ofValue : Value → Reply
  | .null => .nothing
  | .mapping es => .update (.mapping es)
  | .object kind fs =>
    if kind = suspendKind then .suspend (Fields.getD fs "prompt")
    else if kind = updateKind then .update (Fields.getD fs "values")
    else .unfit kind
  | v => .unfit v.kindName

end Reply

/-- The logic of a node: a function of a state and a context. -/
abbrev Logic := State → NodeContext → Action Reply

/-- A condition of an edge: a function of a state. -/
abbrev Condition := State → Except Fault Value

end Workflow
