import Workflow.Text.Quoted
import Workflow.Execution
import Workflow.Event.Bus
import Workflow.Store.Basic
import Workflow.Step.Basic

/-! The surroundings of runs: the store that they write to, the observers that they tell, the requests
    to end them, and what their nodes did. A call of an engine takes surroundings and leaves others. -/

namespace Workflow

/-- What runs change besides themselves. -/
structure Surroundings where
  store : Store := .memory []
  bus : Bus := {}
  /-- The threads that a call is running. -/
  active : List String := []
  /-- The running threads that were asked to end. -/
  cancels : List String := []
  /-- The calls that providers served. -/
  calls : CallLog := []
  /-- How many checkpoints were drawn up. -/
  drawn : Nat := 0
  trace : List Value := []
  deliveries : List Delivery := []
  deriving Inhabited

namespace Surroundings

/-! ### Requests to end -/

/-- Asks a thread to end; only heard while a call is running it. -/
def requestCancel (w : Surroundings) (thread : String) : Surroundings :=
  if w.active.contains thread && !w.cancels.contains thread then
    { w with cancels := w.cancels ++ [thread] }
  else w

def isCancelled (w : Surroundings) (thread : String) : Bool := w.cancels.contains thread

def activate (w : Surroundings) (thread : String) : Surroundings :=
  if w.active.contains thread then w else { w with active := w.active ++ [thread] }

/-- Observers join a thread. -/
def attended (w : Surroundings) (thread : String) (observers : List Observer) : Surroundings :=
  { w with bus := w.bus.subscribeAll thread observers }

/-- Observers join a thread, and a call begins to run it. -/
def joined (w : Surroundings) (thread : String) (observers : List Observer) : Surroundings :=
  (w.attended thread observers).activate thread

/-- The call that ran a thread is over, and a request to end it with it. -/
def release (w : Surroundings) (thread : String) : Surroundings :=
  { w with
    active := w.active.filter fun t => t != thread
    cancels := w.cancels.filter fun t => t != thread }

/-- A request to end does not outlive the call that it was made in. -/
theorem isCancelled_release (w : Surroundings) (thread : String) :
    (w.release thread).isCancelled thread = false := by
  simp [release, isCancelled]

/-! ### Checkpoints -/

def drawnId (n : Nat) : Value := .str (String.ofList (Text.hexDigits 32 n))

/-- Saves a checkpoint under a new id and time. -/
def save (w : Surroundings) (snapshot : (id timestamp : Value) → Checkpoint) :
    Surroundings × Except Fault Checkpoint :=
  let c := snapshot (drawnId w.drawn) (.int w.drawn)
  let (store, r) := w.store.write c
  ({ w with store, drawn := w.drawn + 1 }, r.map fun _ => c)

/-- Deletes the checkpoints of a thread, if the store can. -/
def forget (w : Surroundings) (thread : String) : Surroundings :=
  match w.store.delete thread with
  | .ok (store, _) => { w with store }
  | .error _ => w

/-! ### Observers -/

/-- Tells the observers of a thread, who may ask it to end. -/
def emit (w : Surroundings) (e : Event) : Surroundings :=
  let told :=
    { w with bus := w.bus.emitted e, deliveries := w.deliveries ++ w.bus.deliveries e }
  if w.bus.asksCancel e then told.requestCancel e.thread else told

/-- Tells the observers of a thread that its run is over, and ends their registrations. -/
def emitLast (w : Surroundings) (e : Event) : Surroundings :=
  let w := w.emit e
  { w with bus := w.bus.clear e.thread }

/-! ### Nodes -/

/-- What the effects of a node do, which runs in a thread. -/
def absorb (w : Surroundings) (thread : String) (effects : Action.Effects) : Surroundings :=
  let w := { w with calls := effects.calls, trace := w.trace ++ effects.trace }
  let w := if effects.forgotten then w.forget thread else w
  if effects.cancelled then w.requestCancel thread else w

def perform (w : Surroundings) (ps : Providers) (n : Node) (state : State) (context : NodeContext) :
    Surroundings × Except Failure StepOutcome :=
  let (effects, r) := n.run ps state context { calls := w.calls }
  (w.absorb context.thread effects, r)

end Surroundings

end Workflow
