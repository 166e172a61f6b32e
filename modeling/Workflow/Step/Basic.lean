import Workflow.Graph.Basic
import Workflow.Step.ToolCall

/-! One step: a node run in a state. Whatever goes wrong becomes a failure that names the node. -/

namespace Workflow

inductive StepOutcome where
  /-- Values to merge into the state. -/
  | update (values : Value)
  | suspend (prompt : Value)
  deriving Inhabited

namespace Node

def failure (n : Node) (message : String) : Failure := .nodeExecution message (.str n.id)

/-- What an answer of the node's logic comes to. -/
def outcome (n : Node) : Reply → Except Fault StepOutcome
  | .nothing => .ok (.update (.mapping []))
  | .update values => .ok (.update values)
  | .suspend prompt => .ok (.suspend prompt)
  | .unfit kind =>
    .error (.failure (n.failure
      s!"Node '{n.id}' returned {kind}; expected a dict, None or Suspend"))

def runLogic (n : Node) (state : State) (context : NodeContext) : Action StepOutcome :=
  match n.logic with
  | none => .raise (.failure (n.failure s!"Node '{n.id}' has no logic bound"))
  | some logic => (logic state context).bind fun r => .ofExcept (n.outcome r)

/-- The messages that a tool node reads; none for a value that counts as false. -/
def messages (n : Node) (state : State) : Except Fault (List Value) :=
  match state.getD n.messagesKey with
  | .list xs | .tuple xs => .ok xs
  | v =>
    if v.truthy then
      .error (.failure (n.failure s!"Tool node '{n.id}' expected a list in '{n.messagesKey}'"))
    else .ok []

/-- Serves the calls of the last message; the answers are new messages. -/
def runTools (n : Node) (state : State) : Action StepOutcome :=
  let calls := do
    match (← n.messages state).getLast? with
    | some message => ToolCall.pending message
    | none => .ok []
  match calls with
  | .error f => .raise f
  | .ok [] => .done (.update (.mapping []))
  | .ok calls =>
    (ToolCall.serveAll 0 calls).bind fun ms =>
      .done (.update (.ofFields [(n.messagesKey, .list ms)]))

/-- What running the node asks of its surroundings. -/
def action (n : Node) (state : State) (context : NodeContext) : Action StepOutcome :=
  match n.kind with
  | .function => n.runLogic state context
  | .tool => n.runTools state

/-- A fault as a failure of the node; a failure of some node is passed on as it is. -/
def wrap (n : Node) : Fault → Failure
  | .failure f =>
    if f.kind.isOfNode then f
    else { n.failure s!"Node '{n.id}' failed: {(Fault.failure f).line}" with cause := some f.kind.name }
  | f => { n.failure s!"Node '{n.id}' failed: {f.line}" with cause := some f.name }

/-- Runs the node once with the given providers, after the given effects. -/
def run (n : Node) (ps : Providers) (state : State) (context : NodeContext)
    (effects : Action.Effects := {}) : Action.Effects × Except Failure StepOutcome :=
  let (effects, r) := (n.action state context).run ps n.flags effects
  (effects, r.mapError n.wrap)

/-- A node fails as a node. -/
theorem isOfNode_wrap (n : Node) (f : Fault) : (n.wrap f).kind.isOfNode = true := by
  unfold wrap
  split
  · split
    · assumption
    · rfl
  · rfl

end Node

end Workflow
