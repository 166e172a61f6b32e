import Workflow.Capability.Dispatch

/-! Actions: what node logic asks of its surroundings, step by step. An action ends with an answer or a
    fault; on its way it calls capabilities, logs values, and asks to cancel or to forget its thread. -/

namespace Workflow

inductive Action (α : Type) where
  | done (a : α)
  | raise (f : Fault)
  /-- Sends a request to the provider of a kind. -/
  | call (kind : CapabilityKind) (call : Call) (callId : Value) (next : CallResult → Action α)
  /-- Asks which kind serves a tool. -/
  | resolve (tool : String) (next : Option CapabilityKind → Action α)
  /-- Asks whether a kind can be used. -/
  | enabled (kind : CapabilityKind) (next : Bool → Action α)
  | cancel (next : Action α)
  /-- Deletes all records of the thread. -/
  | forget (next : Action α)
  | log (v : Value) (next : Action α)

namespace Action

variable {α β : Type}

/-- Goes on with the answer of an action. -/
def bind : Action α → (α → Action β) → Action β
  | .done a, f => f a
  | .raise e, _ => .raise e
  | .call kind c callId next, f => .call kind c callId fun r => (next r).bind f
  | .resolve tool next, f => .resolve tool fun k => (next k).bind f
  | .enabled kind next, f => .enabled kind fun b => (next b).bind f
  | .cancel next, f => .cancel (next.bind f)
  | .forget next, f => .forget (next.bind f)
  | .log v next, f => .log v (next.bind f)

instance : Monad Action where
  pure := .done
  bind := bind

def ofExcept : Except Fault α → Action α
  | .ok a => .done a
  | .error e => .raise e

/-- Sends a request whose arguments are given by a value. -/
def invoke (kind : CapabilityKind) (name : String) (arguments callId : Value) : Action CallResult :=
  match Providers.argumentsOf arguments with
  | .ok es => .call kind ⟨name, es⟩ callId .done
  | .error e => .raise e

/-- Calls a tool of whichever allowed kind serves it. -/
def callTool (tool : String) (arguments callId : Value) : Action CallResult :=
  .resolve tool fun
    | some kind => invoke kind tool arguments callId
    | none => .done (Providers.unserved tool callId)

/-- What an action did to its surroundings. -/
structure Effects where
  calls : CallLog := []
  /-- The kinds whose providers were looked up, asked for a tool or called, in order. -/
  asked : List CapabilityKind := []
  trace : List Value := []
  cancelled : Bool := false
  forgotten : Bool := false

/-- Runs an action with the given providers, after the given effects. -/
def run (ps : Providers) (flags : CapabilityFlags) : Action α → Effects → Effects × Except Fault α
  | .done a, e => (e, .ok a)
  | .raise f, e => (e, .error f)
  | .call kind c callId next, e =>
    let (calls, r) := ps.dispatch flags e.calls kind c callId
    (next r).run ps flags { e with calls, asked := e.asked ++ Providers.lookedUp flags kind }
  | .resolve tool next, e =>
    let asked := e.asked ++ ps.sought tool flags.toolKinds
    (next (ps.resolve flags tool)).run ps flags { e with asked }
  | .enabled kind next, e =>
    let asked := e.asked ++ Providers.lookedUp flags kind
    (next (ps.enabled flags kind)).run ps flags { e with asked }
  | .cancel next, e => next.run ps flags { e with cancelled := true }
  | .forget next, e => next.run ps flags { e with forgotten := true }
  | .log v next, e => next.run ps flags { e with trace := e.trace ++ [v] }

end Action

end Workflow
