import Workflow.Engine.Basic

/-! The loop of a run: node after node, until the run pauses, is completed, fails, or has taken as many
    steps as it may. Each pass takes one of the steps that are left, so the loop ends. -/

namespace Workflow

/-- How the first node of a call is entered: by itself, or again after a pause. -/
structure Entry where
  resumed : Bool := false
  /-- What the caller passed when the run went on. -/
  value : Value := .null
  deriving Inhabited

inductive Visit where
  /-- The run goes on with the next node. -/
  | moved (e : Execution)
  | pause (e : Execution) (node : String) (kind : InterruptKind) (prompt : Value)
  | fail (e : Execution) (failure : Failure)
  /-- The call ends with a fault, and the run stays as it is written down. -/
  | raise (f : Fault)

namespace Execution

/-- The failure of a node whose update does not fit the schema. -/
def invalidUpdate (node : String) (f : Fault) : Failure :=
  { Failure.nodeExecution s!"Node '{node}' produced an invalid update: {f.message}" (.str node) with
    cause := some f.name }

/-- The run after the update of its node has been merged. -/
def merged (e : Execution) (schema : Schema) (update : Value) : Except Failure Execution :=
  match schema.applyValue e.state update with
  | .error f => .error (invalidUpdate e.node f)
  | .ok state => .ok { e with state, step := e.step + 1, history := e.history ++ [e.node] }

end Execution

namespace Engine

def context (e : Execution) (entry : Entry) : NodeContext :=
  { node := e.node
    thread := e.thread
    step := e.step
    resumeValue := entry.value
    resumed := entry.resumed }

/-- Takes the way from `source` to the next node, and pauses after it or writes the run down. -/
def move (g : Engine) (source : String) (target : String) (e : Execution) (w : Surroundings) :
    Surroundings × Visit :=
  let e := { e with node := target }
  let w := w.emit { kind := .stepCompleted, thread := e.thread, node := source, step := e.step
                    data := [("next_node", .str target)] }
  if g.config.after.contains source then
    if w.isCancelled e.thread then (w, .fail e (.cancelled e.thread))
    else (w, .pause e source .after .null)
  else
    match g.config.mode with
    | .interruptsOnly => (w, .moved e)
    | .everyStep =>
      match g.save e w with
      | (w, .error f) => (w, .raise f)
      | (w, .ok _) => (w, .moved e)

/-- Merges the update of a node and goes on along its edge. -/
def advance (g : Engine) (e : Execution) (update : Value) (w : Surroundings) : Surroundings × Visit :=
  match e.merged g.definition.schema update with
  | .error f => (w, .fail e f)
  | .ok next =>
    match g.definition.outgoing? e.node with
    | none => (w, .raise (.key (.str e.node)))
    | some edge =>
      match edge.next? next.state with
      | none => (w, .raise (.plain .assertion ""))
      | some (.error f) => (w, .fail next f)
      | some (.ok target) => g.move e.node target next w

def visit (g : Engine) (e : Execution) (entry : Entry) (w : Surroundings) : Surroundings × Visit :=
  if !entry.resumed && g.config.before.contains e.node then (w, .pause e e.node .before .null)
  else
    match g.definition.node? e.node with
    | none => (w, .raise (.key (.str e.node)))
    | some n =>
      match w.perform g.providers n e.state (context e entry) with
      | (w, .error f) => (w, .fail e f)
      | (w, .ok (.suspend prompt)) =>
        if w.isCancelled e.thread then (w, .fail e (.cancelled e.thread))
        else (w, .pause e e.node .dynamic prompt)
      | (w, .ok (.update values)) => g.advance e values w

/-- The failure of a run that has taken as many steps as it may. -/
def exhausted (g : Engine) (e : Execution) : Failure :=
  .recursionLimit (.int g.config.recursionLimit) (.str e.node)

/-- Runs node after node while steps are left. -/
def loop (g : Engine) : (left : Nat) → Execution → Entry → Surroundings → Ended
  | left, e, entry, w =>
    if w.isCancelled e.thread then g.fail e (.cancelled e.thread) w
    else if e.node = endMarker then g.complete e w
    else
      match left with
      | 0 => g.fail e (g.exhausted e) w
      | left + 1 =>
        match g.visit e entry w with
        | (w, .moved e) => g.loop left e {} w
        | (w, .pause e node kind prompt) => g.pause e node kind prompt w
        | (w, .fail e failure) => g.fail e failure w
        | (w, .raise f) => (w, .error f)

def stepsLeft (g : Engine) (e : Execution) : Nat := (g.config.recursionLimit - e.step).toNat

/-- What to do about a thread whose checkpoints cannot be written. -/
def staleHint (thread : String) : String :=
  s!"The latest checkpoint of thread {thread} may still be marked running, " ++
    "so it cannot be resumed or cancelled. Call delete_thread() to discard it."

/-- A fault of the store with a hint, unless it has its own. -/
def withHint (thread : String) : Fault → Fault
  | .failure f =>
    if f.kind = .checkpoint ∧ f.hint.isNull then
      .failure { f with hint := .str (staleHint thread) }
    else .failure f
  | f => f

/-- Runs an execution for as many steps as it has left. -/
def drive (g : Engine) (e : Execution) (entry : Entry) (w : Surroundings) : Ended :=
  let (w, r) := g.loop (g.stepsLeft e) e entry w
  (w, r.mapError (withHint e.thread))

end Engine

end Workflow
