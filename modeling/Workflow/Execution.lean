import Workflow.Checkpoint.Basic

/-! Executions: how far a run has come. A checkpoint is an execution written down, and an execution can
    be taken up again from one. Main statement: what is written down is taken up unchanged. -/

namespace Workflow

structure Execution where
  thread : String
  node : String
  state : Fields
  /-- How many steps the run has taken. -/
  step : Int := 0
  status : RunStatus := .running
  interrupt : Option Interrupt := none
  history : List String := []
  error : Option Failure := none
  /-- The settings of the run that are kept with it. -/
  metadata : Value := .mapping []
  deriving Inhabited

namespace Value

/-- The entries of a mapping under the texts of their keys; none for other values. -/
def fields : Value → Fields
  | .mapping es => es.map fun (k, v) => (k.text, v)
  | _ => []

theorem fields_ofFields (fs : Fields) : (ofFields fs).fields = fs := by
  simp only [ofFields, fields, List.map_map]
  exact List.map_id fs

end Value

namespace Execution

/-- The snapshot of a run of the named graph. -/
def checkpoint (e : Execution) (graph : String) (id timestamp : Value) : Checkpoint :=
  { thread := .str e.thread
    graph := .str graph
    node := .str e.node
    state := .ofFields e.state
    step := e.step
    status := e.status
    interrupt := e.interrupt
    history := e.history.map .str
    error := (e.error.map Failure.toValue).getD .null
    id
    timestamp
    metadata := e.metadata }

def ofCheckpoint (c : Checkpoint) : Except Fault Execution := do
  return {
    thread := c.thread.text
    node := c.node.text
    state := c.state.fields
    step := c.step
    status := c.status
    interrupt := c.interrupt
    history := c.history.map Value.text
    error := ← c.failure?
    metadata := c.metadata }

/-- A run that has not failed is taken up as it was written down. -/
theorem ofCheckpoint_checkpoint {e : Execution} (graph : String) (id timestamp : Value)
    (h : e.error = none) : ofCheckpoint (e.checkpoint graph id timestamp) = .ok e := by
  obtain ⟨thread, node, state, step, status, interrupt, history, error, metadata⟩ := e
  cases h
  have texts : (history.map Value.str).map Value.text = history := by
    simp [List.map_map, Function.comp_def, Value.text]
  simp only [ofCheckpoint, checkpoint, Checkpoint.failure?, Option.map_none, Option.getD_none,
    Value.truthy, texts, Value.fields_ofFields, Value.text]
  rfl

end Execution

end Workflow
