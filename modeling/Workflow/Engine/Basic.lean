import Workflow.Config.Basic
import Workflow.Routing
import Workflow.Engine.Surroundings

/-! Engines run compiled graphs. Here are the ways in which a call of an engine ends: the run pauses, is
    completed or fails, and is written down before its observers are told. -/

namespace Workflow

/-- How a run stands at the end of a call. -/
structure Outcome where
  thread : String
  status : RunStatus
  /-- The state; of a failed run, the one that was last written down. -/
  state : Value
  interrupt : Option Interrupt := none
  error : Option Failure := none
  steps : Int := 0
  history : List Value := []
  deriving Inhabited

namespace Outcome

def isSuccess (o : Outcome) : Bool := o.status != .failed
def isPaused (o : Outcome) : Bool := o.status == .paused
def isCompleted (o : Outcome) : Bool := o.status == .completed

/-- The outcome that a checkpoint tells of. -/
def ofCheckpoint (thread : String) (c : Checkpoint) : Except Fault Outcome := do
  return {
    thread
    status := c.status
    state := c.state
    interrupt := c.interrupt
    error := ← c.failure?
    steps := c.step
    history := c.history }

end Outcome

def Execution.outcome (e : Execution) : Outcome :=
  { thread := e.thread
    status := e.status
    state := .ofFields e.state
    interrupt := e.interrupt
    error := e.error
    steps := e.step
    history := e.history.map .str }

/-- A compiled graph with the configuration and the providers that it runs with. -/
structure Engine where
  definition : Definition
  config : Config := {}
  providers : Providers := []
  deriving Inhabited

/-- What a call that runs a thread leaves: surroundings, and an outcome or a fault. -/
abbrev Ended := Surroundings × Except Fault Outcome

namespace Engine

def save (g : Engine) (e : Execution) (w : Surroundings) : Surroundings × Except Fault Checkpoint :=
  w.save (e.checkpoint g.definition.name)

def pause (g : Engine) (e : Execution) (node : String) (kind : InterruptKind) (prompt : Value)
    (w : Surroundings) : Ended :=
  let interrupt : Interrupt := { node := .str node, prompt, kind }
  let e := { e with status := .paused, interrupt := some interrupt }
  match g.save e w with
  | (w, .error f) => (w, .error f)
  | (w, .ok _) =>
    (w.emit { kind := .interrupted, thread := e.thread, node, step := e.step
              data := [("interrupt", interrupt.toValue)] },
      .ok e.outcome)

def complete (g : Engine) (e : Execution) (w : Surroundings) : Ended :=
  let e := { e with status := .completed }
  match g.save e w with
  | (w, .error f) => (w, .error f)
  | (w, .ok _) =>
    (w.emitLast { kind := .completed, thread := e.thread, step := e.step
                  data := [("steps", .int e.step)] },
      .ok e.outcome)

/-- Writes the failure of a failed run down over its last checkpoint, whose state and position stay.
    Where no checkpoint is left, the run is written down as it stands. -/
def record (g : Engine) (e : Execution) (failure : Failure) (w : Surroundings) :
    Surroundings × Except Fault Checkpoint :=
  match w.store.load e.thread with
  | .error f => (w, .error f)
  | .ok (some last) => w.save (last.failed failure.toValue)
  | .ok none => g.save e w

def fail (g : Engine) (e : Execution) (failure : Failure) (w : Surroundings) : Ended :=
  let e := { e with status := .failed, interrupt := none, error := some failure }
  match g.record e failure w with
  | (w, .error f) => (w, .error f)
  | (w, .ok recorded) =>
    (w.emitLast { kind := .failed, thread := e.thread, node := e.node, step := e.step
                  data := [("error", failure.toValue)] },
      .ok { e.outcome with state := recorded.state })

end Engine

end Workflow
