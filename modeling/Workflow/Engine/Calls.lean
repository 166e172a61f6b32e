import Workflow.Engine.Loop

/-! The calls of an engine. `start` and `resume` run a thread; `cancel` ends one; the others read or
    forget what the store holds. A call that is refused leaves the surroundings as they were, unless it
    is refused late: a start that observers are told of already. -/

namespace Workflow

/-- What a caller may choose for one call. -/
structure CallOptions where
  overrides : Overrides := {}
  /-- Providers over those of the engine. -/
  providers : List (String × Provider) := []
  /-- Observers that are registered before the first event. -/
  observers : List Observer := []

namespace Engine

/-- The engine with the configuration and the providers of one call. -/
def forCall (g : Engine) (config : Config) (providers : List (String × Provider)) :
    Except Fault Engine := do
  return { g with config, providers := ← g.providers.layer providers }

/-- Goes on with an execution, with the configuration and the providers of the call. -/
def proceed (g : Engine) (config : Config) (providers : List (String × Provider)) (e : Execution)
    (entry : Entry) (w : Surroundings) : Ended :=
  match g.forCall config providers with
  | .error f => (w, .error f)
  | .ok run => run.drive e entry w

/-- The execution that a start begins with, or why there can be none. -/
def opening (g : Engine) (thread : String) (input : Value) (overrides : Overrides) (store : Store) :
    Except Fault (Config × Execution) := do
  let config ← g.config.override overrides
  let state ← g.definition.schema.initialState input
  if (← store.load thread).isSome then
    .error (.value s!"Thread {thread} already has an execution; use resume()")
  else
    match g.definition.entryPoint? with
    | none => .error (.plain .assertion "")
    | some node => return (config, { thread, node, state, metadata := config.metadata })

/-- Writes a new run down, tells its observers and runs it. -/
def begin (g : Engine) (config : Config) (providers : List (String × Provider)) (e : Execution)
    (w : Surroundings) : Ended :=
  match g.save e w with
  | (w, .error f) => (w, .error f)
  | (w, .ok _) =>
    g.proceed config providers e {} (w.emit {
      kind := .runStarted, thread := e.thread, node := e.node
      data := [("graph", .str g.definition.name)] })

/-- Starts a thread that has no checkpoints. The observers are registered before the settings are written
    down, for which the nodes to pause at have to be put in order. -/
def start (g : Engine) (thread : String) (input : Value := .null) (options : CallOptions := {})
    (w : Surroundings) : Ended :=
  match g.opening thread input options.overrides w.store with
  | .error f => (w, .error f)
  | .ok (config, e) =>
    match options.overrides.checkNames with
    | .error f => (w.attended thread options.observers, .error f)
    | .ok _ =>
      let (w, r) := g.begin config options.providers e (w.joined thread options.observers)
      (w.release thread, r)

/-- The last checkpoint of a thread, which has to be one of this graph. -/
def lastCheckpoint (g : Engine) (thread : String) (store : Store) : Except Fault Checkpoint := do
  match ← store.load thread with
  | none => .error (.failure (.threadNotFound thread))
  | some c =>
    if c.graph.equal (.str g.definition.name) then return c
    else
      .error (.failure (.checkpoint
        s!"Thread {thread} belongs to graph '{c.graph.text}', not '{g.definition.name}'"))

structure Resumption where
  config : Config
  execution : Execution
  interrupt : Interrupt

/-- What a resumption of a paused thread goes on with. The overrides that were kept with the run come
    before those of the call. -/
def resumption (g : Engine) (thread : String) (overrides : Overrides) (store : Store) :
    Except Fault Resumption := do
  let c ← g.lastCheckpoint thread store
  match c.status, c.interrupt with
  | .paused, some interrupt =>
    let e ← Execution.ofCheckpoint c
    let stored ← Overrides.ofMetadata e.metadata
    let kept ← g.config.override stored
    let config ← kept.override overrides
    (overrides.onto stored).checkNames
    let execution :=
      { e with metadata := config.metadata, interrupt := none, status := .running }
    return { config, execution, interrupt }
  | status, _ => .error (.failure (.invalidResume thread status.name))

/-- How a node is entered after a pause: again, with what the caller passes, unless it has run. -/
def entryAfter (kind : InterruptKind) (value : Value) : Entry :=
  match kind with
  | .after => {}
  | _ => { resumed := true, value }

def resume (g : Engine) (thread : String) (value : Value := .null) (options : CallOptions := {})
    (w : Surroundings) : Ended :=
  match g.resumption thread options.overrides w.store with
  | .error f => (w, .error f)
  | .ok r =>
    let e := r.execution
    let w := (w.activate thread).emit {
      kind := .resumed, thread := e.thread, node := Failure.textOf? r.interrupt.node, step := e.step
      data := [("kind", .str r.interrupt.kind.name)] }
    let (w, ended) :=
      g.proceed r.config options.providers e (entryAfter r.interrupt.kind value) w
    (w.release thread, ended)

/-- Asks a running thread to end, or fails a paused one. Others are left alone. -/
def cancel (g : Engine) (thread : String) (w : Surroundings) :
    Surroundings × Except Fault (Option Outcome) :=
  if w.active.contains thread then (w.requestCancel thread, .ok none)
  else
    let paused := do
      let c ← g.lastCheckpoint thread w.store
      if c.status = RunStatus.paused then return some (← Execution.ofCheckpoint c) else return none
    match paused with
    | .error f => (w, .error f)
    | .ok none => (w, .ok none)
    | .ok (some e) =>
      let (w, r) := g.fail e (.cancelled thread) w
      (w, r.map some)

/-! ### Reading and forgetting -/

/-- The state that was last written down. -/
def state (g : Engine) (thread : String) (w : Surroundings) : Except Fault Value := do
  return (← g.lastCheckpoint thread w.store).state

/-- The last checkpoint of a thread, of whichever graph. -/
def checkpoint? (thread : String) (w : Surroundings) : Except Fault (Option Checkpoint) :=
  w.store.load thread

/-- The outcome that the last checkpoint of a thread tells of. -/
def outcome (g : Engine) (thread : String) (w : Surroundings) : Except Fault Outcome := do
  Outcome.ofCheckpoint thread (← g.lastCheckpoint thread w.store)

/-- All checkpoints of a thread, the oldest first. -/
def history (thread : String) (w : Surroundings) : Except Fault (List Checkpoint) :=
  w.store.list thread

/-- Forgets a thread: its checkpoints and the registrations of its observers. Answers how many
    checkpoints there were. -/
def delete (thread : String) (w : Surroundings) : Surroundings × Except Fault Nat :=
  match w.store.delete thread with
  | .error f => (w, .error f)
  | .ok (store, n) => ({ w with store, bus := w.bus.clear thread }, .ok n)

end Engine

end Workflow
