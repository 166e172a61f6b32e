import Workflow.Fault

/-! Events: what the observers of a thread are told about its runs. -/

namespace Workflow

inductive EventKind where
  | runStarted
  | stepCompleted
  | interrupted
  | resumed
  | completed
  | failed
  deriving DecidableEq, Inhabited

namespace EventKind

def name : EventKind → String
  | .runStarted => "run_started"
  | .stepCompleted => "step_completed"
  | .interrupted => "interrupted"
  | .resumed => "resumed"
  | .completed => "completed"
  | .failed => "failed"

def all : List EventKind :=
  [.runStarted, .stepCompleted, .interrupted, .resumed, .completed, .failed]

def ofValue (v : Value) : Except Fault EventKind :=
  match all.find? fun k => v.equal (.str k.name) with
  | some k => .ok k
  | none => .error (.notMember v "GraphEventType")

end EventKind

structure Event where
  kind : EventKind
  thread : String
  node : Option String := none
  /-- How many steps the run had taken. -/
  step : Int := 0
  data : Fields := []
  deriving Inhabited

/-- What an observer may do about an event. -/
inductive Reaction where
  /-- Ends the registration that was made under a handle. -/
  | unsubscribe (handle : String)
  | cancel
  deriving DecidableEq, Inhabited

/-- An observer: what it does about an event, and what it raises then, if anything. -/
structure Observer where
  name : String
  react : Event → List Reaction := fun _ => []
  raises : Event → Option Fault := fun _ => none
  deriving Inhabited

/-- Hands an event to an observer, which may raise after it has reacted. -/
def Observer.call (o : Observer) (e : Event) : List Reaction × Except Fault Unit :=
  (o.react e, match o.raises e with
    | some f => .error f
    | none => .ok ())

/-- An event as an observer received it. -/
structure Delivery where
  observer : String
  event : Event
  deriving Inhabited

end Workflow
