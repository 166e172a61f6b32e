import Workflow.Value.Arithmetic
import Workflow.Value.Whole

/-! Checkpoints: versioned snapshots of a run. A snapshot is written as a mapping, and read back with
    every departure from the format told as one failure. -/

namespace Workflow

inductive RunStatus where
  | running | paused | completed | failed
  deriving DecidableEq, Inhabited

namespace RunStatus

def name : RunStatus → String
  | .running => "running"
  | .paused => "paused"
  | .completed => "completed"
  | .failed => "failed"

def all : List RunStatus := [.running, .paused, .completed, .failed]

def isTerminal : RunStatus → Bool
  | .completed | .failed => true
  | _ => false

def ofValue (v : Value) : Except Fault RunStatus :=
  match all.find? fun s => v.equal (.str s.name) with
  | some s => .ok s
  | none => .error (.notMember v "RunStatus")

end RunStatus

inductive InterruptKind where
  | dynamic
  /-- The run was to pause before a node. -/
  | before
  /-- The run was to pause after a node. -/
  | after
  deriving DecidableEq, Inhabited

namespace InterruptKind

def name : InterruptKind → String
  | .dynamic => "dynamic"
  | .before => "before"
  | .after => "after"

def all : List InterruptKind := [.dynamic, .before, .after]

def ofValue (v : Value) : Except Fault InterruptKind :=
  match all.find? fun k => v.equal (.str k.name) with
  | some k => .ok k
  | none => .error (.notMember v "InterruptKind")

end InterruptKind

/-- A pending request for input. -/
structure Interrupt where
  node : Value
  prompt : Value := .null
  kind : InterruptKind := .dynamic
  deriving Inhabited

namespace Interrupt

def toValue (i : Interrupt) : Value :=
  .ofFields [("node_id", i.node), ("prompt", i.prompt), ("kind", .str i.kind.name)]

/-- Reads an interrupt; its node has to be given. -/
def ofValue (v : Value) : Except Fault Interrupt := do
  let node ← v.item (.str "node_id")
  let kind ← InterruptKind.ofValue ((v.get? "kind").getD (.str InterruptKind.dynamic.name))
  return { node, prompt := v.getD "prompt", kind }

end Interrupt

/-- The failure that a mapping describes. -/
def Failure.ofValue (v : Value) : Except Fault Failure :=
  match v with
  | .mapping _ => do
    let details := v.getD "details"
    let entries ← if details.truthy then details.toEntries else .ok []
    return Failure.ofMembers v (entries.map fun (k, w) => (k.text, w))
  | v => .error (.noAttribute v "get")

def checkpointVersion : Value := .int 1

/-- A snapshot of a run. What is only passed on is kept as the value that was read. -/
structure Checkpoint where
  thread : Value
  graph : Value
  node : Value
  state : Value
  /-- How many steps the run has taken. -/
  step : Int := 0
  status : RunStatus := .running
  interrupt : Option Interrupt := none
  history : List Value := []
  /-- The written form of the failure, `null` if there is none. -/
  error : Value := .null
  id : Value
  timestamp : Value := .int 0
  version : Value := checkpointVersion
  metadata : Value := .mapping []
  deriving Inhabited

namespace Checkpoint

def toFields (c : Checkpoint) : Fields :=
  [("version", c.version), ("checkpoint_id", c.id), ("thread_id", c.thread),
    ("graph_name", c.graph), ("current_node", c.node), ("state", c.state), ("step", .int c.step),
    ("status", .str c.status.name),
    ("pending_interrupt", (c.interrupt.map Interrupt.toValue).getD .null),
    ("node_history", .list c.history), ("error", c.error), ("timestamp", c.timestamp),
    ("metadata", c.metadata)]

def toValue (c : Checkpoint) : Value := .ofFields c.toFields

/-- Reads the members of a mapping, in the order in which they are checked. -/
def ofMembers (version : Value) (v : Value) : Except Fault Checkpoint := do
  let member := fun key => v.item (.str key)
  let thread ← member "thread_id"
  let graph ← member "graph_name"
  let node ← member "current_node"
  let state ← member "state"
  let step ← (← member "step").whole
  let status ← RunStatus.ofValue (← member "status")
  let pending := v.getD "pending_interrupt"
  let interrupt ← if pending.truthy then (Interrupt.ofValue pending).map some else .ok none
  let history ← ((v.get? "node_history").getD (.list [])).items
  let id ← member "checkpoint_id"
  let timestamp ← member "timestamp"
  return { thread, graph, node, state, step, status, interrupt, history
           error := v.getD "error", id, timestamp, version
           metadata := (v.get? "metadata").getD (.mapping []) }

/-- A fault of the members as a failure of the checkpoint, if it is one of their values. -/
def malformed : Fault → Fault
  | .plain t m =>
    if t == .key || t == .type || t.isValue then .failure (.checkpoint s!"Malformed checkpoint: {m}")
    else .plain t m
  | f => f

def ofValue (v : Value) : Except Fault Checkpoint :=
  match v with
  | .mapping _ =>
    let version := v.getD "version"
    if version.equal checkpointVersion then (ofMembers version v).mapError malformed
    else
      .error (.failure (.checkpoint
        s!"Unsupported checkpoint version {version.literal} (expected 1)"))
  | v =>
    .error (.failure (.checkpoint s!"Malformed checkpoint: expected an object, got {v.kindName}"))

/-- The checkpoint belongs to a thread. -/
def isOf (c : Checkpoint) (thread : String) : Bool := c.thread.equal (.str thread)

def failure? (c : Checkpoint) : Except Fault (Option Failure) :=
  if c.error.truthy then (Failure.ofValue c.error).map some else .ok none

/-- The same snapshot under the name of a graph, its failure read and written again. -/
def rewritten (c : Checkpoint) (graph : String) : Except Fault Checkpoint := do
  let error := ((← c.failure?).map Failure.toValue).getD .null
  return { c with graph := .str graph, error, version := checkpointVersion }

/-- The snapshot with members of its written form changed. -/
def changed (c : Checkpoint) (changes : Fields) : Except Fault Checkpoint := do
  let member := fun (name : String) (old : Value) => (changes.get? name).getD old
  let status ← match changes.get? "status" with
    | some v => RunStatus.ofValue v
    | none => pure c.status
  let interrupt ← match changes.get? "pending_interrupt" with
    | some v => if v.truthy then (Interrupt.ofValue v).map some else pure none
    | none => pure c.interrupt
  return {
    thread := member "thread_id" c.thread
    graph := member "graph_name" c.graph
    node := member "current_node" c.node
    state := member "state" c.state
    step := ← (member "step" (.int c.step)).whole
    status
    interrupt
    history := ← (member "node_history" (.list c.history)).items
    error := member "error" c.error
    id := member "checkpoint_id" c.id
    timestamp := member "timestamp" c.timestamp
    version := member "version" c.version
    metadata := member "metadata" c.metadata }

/-- The same snapshot, failed, under a new id. -/
def failed (c : Checkpoint) (error id timestamp : Value) : Checkpoint :=
  { c with status := .failed, interrupt := none, error, id, timestamp }

end Checkpoint

end Workflow
