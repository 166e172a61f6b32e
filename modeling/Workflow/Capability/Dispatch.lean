import Workflow.Capability.Basic
import Workflow.Value.Items

/-! Requests to external capabilities. A provider is asked only for a kind that the flags allow; what
    goes wrong becomes part of the result. Every call of a provider is kept in a log. -/

namespace Workflow

structure Call where
  name : String
  arguments : List (Value × Value)
  deriving Inhabited

/-- A provider of capabilities. Its answer to a call may depend on the calls that it served before. -/
structure Provider where
  /-- Tells providers apart in the log of calls. -/
  mark : Nat
  supports : String → Bool := fun _ => true
  answer : (earlier : List Call) → Call → Except Fault Value

/-- The calls that providers served, each with the mark of its provider, the last one last. -/
abbrev CallLog := List (Nat × Call)

/-- The calls that one provider served. -/
def CallLog.of (log : CallLog) (mark : Nat) : List Call :=
  (log.filter fun e => e.1 == mark).map (·.2)

structure CallResult where
  kind : CapabilityKind
  name : String
  outcome : Except Failure Value
  callId : Value := .null

namespace CallResult

def isOk (r : CallResult) : Bool := r.outcome.isOk

/-- The result as a value; a failure is shown by its message. -/
def toValue (r : CallResult) : Value :=
  .ofFields [("kind", .str r.kind.name), ("name", .str r.name), ("ok", .bool r.isOk),
    ("value", match r.outcome with | .ok v => v | .error _ => .null),
    ("error", match r.outcome with | .ok _ => .null | .error f => .str f.message),
    ("call_id", r.callId)]

end CallResult

/-- The providers at hand, at most one of a kind, in the order of registration. -/
abbrev Providers := List (CapabilityKind × Provider)

namespace Providers

def get? (ps : Providers) (kind : CapabilityKind) : Option Provider := ps.lookup kind

/-- Registers a provider in place of the one of its kind. -/
def set : Providers → CapabilityKind → Provider → Providers
  | [], kind, p => [(kind, p)]
  | (k, q) :: ps, kind, p => if k = kind then (k, p) :: ps else (k, q) :: set ps kind p

theorem get?_set_self (ps : Providers) (kind : CapabilityKind) (p : Provider) :
    (ps.set kind p).get? kind = some p := by
  induction ps with
  | nil => simp [set, get?]
  | cons q ps ih =>
    obtain ⟨k, r⟩ := q
    by_cases h : k = kind
    · simp [set, get?, h]
    · have hk : (kind == k) = false := by simpa using fun e => h e.symm
      simp only [get?] at ih
      simp [set, get?, h, List.lookup_cons, hk, ih]

/-- Registers providers one after another over those at hand; each is given under a name of its
    kind. -/
def layer (ps : Providers) : List (String × Provider) → Except Fault Providers
  | [] => .ok ps
  | (name, p) :: rest => do layer (ps.set (← CapabilityKind.parse (.str name)) p) rest

/-- The first allowed kind whose provider serves the tool. -/
def resolve (ps : Providers) (flags : CapabilityFlags) (tool : String) : Option CapabilityKind :=
  flags.toolKinds.find? fun k => ((ps.get? k).map fun p => p.supports tool).getD false

/-- The kinds, one after another, whose providers are asked for a tool, up to the first that serves it. -/
def sought (ps : Providers) (tool : String) : List CapabilityKind → List CapabilityKind
  | [] => []
  | k :: ks =>
    k :: if ((ps.get? k).map fun p => p.supports tool).getD false then [] else ps.sought tool ks

/-- The kinds whose providers are looked up for one: itself, if it is allowed. -/
def lookedUp (flags : CapabilityFlags) (kind : CapabilityKind) : List CapabilityKind :=
  if flags.allows kind then [kind] else []

/-- The kind is allowed and has a provider. -/
def enabled (ps : Providers) (flags : CapabilityFlags) (kind : CapabilityKind) : Bool :=
  flags.allows kind && (ps.get? kind).isSome

/-- The failure of a request, with the name of what it came from. -/
def failure (kind : CapabilityKind) (name message : String) (cause : Option String := none) :
    Failure :=
  { Failure.capability message (.str kind.name) (.str name) with cause }

/-- What a provider's answer makes of a request. A failure of a capability is passed on as it is. -/
def outcome (kind : CapabilityKind) (name : String) : Except Fault Value → Except Failure Value
  | .ok v => .ok v
  | .error (.failure f) =>
    if f.kind = .capability then .error f
    else .error (failure kind name (Fault.failure f).line (some f.kind.name))
  | .error e => .error (failure kind name e.line (some e.name))

/-- Sends a request to the provider of its kind. -/
def dispatch (ps : Providers) (flags : CapabilityFlags) (log : CallLog) (kind : CapabilityKind)
    (call : Call) (callId : Value := .null) : CallLog × CallResult :=
  if !flags.allows kind then
    (log, ⟨kind, call.name, .error (failure kind call.name
      s!"Capability '{kind.name}' is not enabled for this node"), callId⟩)
  else
    match ps.get? kind with
    | none =>
      (log, ⟨kind, call.name, .error (failure kind call.name
        s!"No provider registered for capability '{kind.name}'"), callId⟩)
    | some p =>
      (log ++ [(p.mark, call)],
        ⟨kind, call.name, outcome kind call.name (p.answer (log.of p.mark) call), callId⟩)

/-- The arguments that a value gives; none for a value that counts as false. -/
def argumentsOf (v : Value) : Except Fault (List (Value × Value)) :=
  if v.truthy then v.toEntries else .ok []

/-- The result of a tool call that no allowed kind serves. -/
def unserved (tool : String) (callId : Value) : CallResult :=
  ⟨.mcp, tool, .error (.capability s!"No enabled capability provides tool '{tool}'" .null (.str tool)),
    callId⟩

/-- Nothing is sent to a provider of a kind that is not allowed. -/
theorem dispatch_of_not_allows {ps : Providers} {flags : CapabilityFlags} {log : CallLog}
    {kind : CapabilityKind} {call : Call} {callId : Value} (h : flags.allows kind = false) :
    (dispatch ps flags log kind call callId).1 = log := by
  simp [dispatch, h]

end Providers

end Workflow
