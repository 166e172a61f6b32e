import Workflow.Value.Literal
import Workflow.Value.Equality

/-! Failures of workflows: what a run ends with, and what a caller is told. A failure is written to
    named values and read back; reading rebuilds the kinds that a run can end with. -/

namespace Workflow

inductive FailureKind where
  | general
  | compilation
  | nodeExecution
  | routing
  | recursionLimit
  | capability
  | cancelled
  | checkpoint
  | threadNotFound
  | invalidResume
  /-- A kind of a caller's own that is derived from failures of nodes. -/
  | derived (name category : String)
  deriving DecidableEq, Inhabited

namespace FailureKind

def name : FailureKind → String
  | .general => "LoomError"
  | .compilation => "CompilationError"
  | .nodeExecution => "NodeExecutionError"
  | .routing => "RoutingViolation"
  | .recursionLimit => "RecursionLimitExceeded"
  | .capability => "CapabilityError"
  | .cancelled => "RunCancelledError"
  | .checkpoint => "CheckpointError"
  | .threadNotFound => "ThreadNotFoundError"
  | .invalidResume => "InvalidResumeError"
  | .derived name _ => name

def category : FailureKind → String
  | .general => "unknown"
  | .compilation => "compilation"
  | .nodeExecution => "node_execution"
  | .routing => "routing"
  | .recursionLimit => "recursion_limit"
  | .capability => "capability"
  | .cancelled => "cancelled"
  | .checkpoint => "checkpoint"
  | .threadNotFound | .invalidResume => "invalid_input"
  | .derived _ category => category

/-- A failure of a node, or of a kind derived from it. -/
def isOfNode : FailureKind → Bool
  | .nodeExecution | .derived _ _ => true
  | _ => false

/-- A failure of this kind ends a run. -/
def isFatal : FailureKind → Bool
  | .nodeExecution | .routing | .recursionLimit | .cancelled | .derived _ _ => true
  | _ => false

theorem isFatal_of_isOfNode {k : FailureKind} (h : k.isOfNode = true) : k.isFatal = true := by
  cases k <;> first | rfl | cases h

/-- The kinds that reading rebuilds, by their names; all others are read as `general`. -/
def rebuilt : List FailureKind := [.nodeExecution, .routing, .recursionLimit, .cancelled, .capability]

def ofName (name : String) : FailureKind := (rebuilt.find? fun k => k.name == name).getD .general

end FailureKind

structure Failure where
  kind : FailureKind
  message : String
  /-- What is known about it, for whoever reads the record. -/
  details : Fields := []
  /-- What to do about it; `null` if there is nothing to say. -/
  hint : Value := .null
  /-- The mark that ties records of one failure together; `none` for a mark drawn at random. -/
  correlation : Option Value := none
  /-- The values that belong to the kind, and those that were put under other names. -/
  attributes : Fields := []
  /-- The name of the fault that it was raised from. -/
  cause : Option String := none
  deriving Inhabited

/-- What a caller may add to any failure. -/
structure Failure.Extra where
  details : Fields := []
  hint : Value := .null
  correlation : Value := .null
  deriving Inhabited

namespace Failure

/-- An empty mark counts as none. -/
def givenMark (mark : Value) : Option Value := if mark.truthy then some mark else none

/-- A failure whose own details are set over the given ones. -/
def make (kind : FailureKind) (message : String) (own attributes : Fields)
    (extra : Extra := {}) : Failure :=
  { kind, message, attributes
    details := Fields.setAll extra.details own
    hint := extra.hint
    correlation := givenMark extra.correlation }

def general (message : String) (extra : Extra := {}) : Failure := make .general message [] [] extra

def checkpoint (message : String) (hint : Option String := none) (extra : Extra := {}) : Failure :=
  make .checkpoint message [] [] { extra with hint := (hint.map Value.str).getD extra.hint }

/-- The graph breaks rules of structure; all problems are named. -/
def compilation (problems : List String) (extra : Extra := {}) : Failure :=
  let shown := Value.list (problems.map .str)
  make .compilation ("Invalid graph: " ++ "; ".intercalate problems) [("problems", shown)]
    [("problems", shown)]
    { extra with hint := .str "Fix the listed nodes/edges and compile again." }

def nodeExecution (message : String) (node : Value := .null) (extra : Extra := {}) : Failure :=
  make .nodeExecution message [("node_id", node)] [("node_id", node)] extra

/-- A condition raised or selected a target that its edge does not declare. -/
def routing (message : String) (source target : Value := .null) (possible : List Value := [])
    (extra : Extra := {}) : Failure :=
  make .routing message
    [("source", source), ("target", .str target.literal), ("possible_targets", .list possible)]
    [("source", source), ("target", target), ("possible_targets", .list possible)] extra

/-- The run took as many steps as it may. -/
def recursionLimit (limit : Value) (node : Value := .null) (extra : Extra := {}) : Failure :=
  let own : Fields := [("limit", limit), ("node_id", node)]
  make .recursionLimit
    (s!"Recursion limit of {limit.text} steps reached without hitting __end__" ++
      if node.truthy then s!" (next node: {node.text})" else "")
    own own
    { extra with
      hint := .str ("The graph may never converge. If the workflow is legitimately long, " ++
        "raise recursion_limit deliberately.") }

def capability (message : String) (kind name : Value := .null) (extra : Extra := {}) : Failure :=
  let own : Fields := [("kind", kind), ("capability", name)]
  make .capability message own own extra

/-- The run was ended from outside; its thread is told of as the value that names it. -/
def ended (thread : Value) (extra : Extra := {}) : Failure :=
  make .cancelled s!"Run {thread.text} was cancelled" [("thread_id", thread)] [("thread_id", thread)]
    extra

def cancelled (thread : String) (extra : Extra := {}) : Failure := ended (.str thread) extra

def threadNotFound (thread : String) (extra : Extra := {}) : Failure :=
  make .threadNotFound s!"No execution found for thread: {thread}" [] [("thread_id", .str thread)]
    extra

def invalidResume (thread status : String) (extra : Extra := {}) : Failure :=
  make .invalidResume s!"Cannot resume thread {thread}: run is {status}, not paused" []
    [("thread_id", .str thread), ("status", .str status)] extra

/-! ### Values under names -/

/-- The names under which every failure has a value or a method. -/
def commonNames : List String :=
  ["message", "details", "recovery_hint", "correlation_id", "timestamp", "category", "to_dict", "args",
    "with_traceback", "add_note", "__annotations__", "__cause__", "__class__", "__context__",
    "__delattr__", "__dict__", "__dir__", "__doc__", "__eq__", "__format__", "__ge__",
    "__getattribute__", "__getstate__", "__gt__", "__hash__", "__init__", "__init_subclass__",
    "__le__", "__lt__", "__module__", "__ne__", "__new__", "__reduce__", "__reduce_ex__", "__repr__",
    "__setattr__", "__setstate__", "__sizeof__", "__str__", "__subclasshook__",
    "__suppress_context__", "__traceback__", "__weakref__"]

/-- The failure has a value under the name. -/
def has (f : Failure) (name : String) : Bool := commonNames.contains name || f.attributes.has name

/-- Puts a value under a name, over any that is there. -/
def put (f : Failure) (name : String) (v : Value) : Failure :=
  if name = "message" then { f with message := v.text }
  else if name = "details" then
    { f with details := match v with
        | .mapping es => es.map fun (k, w) => (k.text, w)
        | _ => [] }
  else if name = "recovery_hint" then { f with hint := v }
  else if name = "correlation_id" then { f with correlation := some v }
  else { f with attributes := f.attributes.set name v }

/-- Puts each value under its name, unless the failure has a value there. -/
def adopt (f : Failure) (values : Fields) : Failure :=
  values.foldl (fun f (name, v) => if f.has name then f else f.put name v) f

/-- The category of its kind, unless the failure has a value of its own under the name. -/
def category (f : Failure) : Value := (f.attributes.get? "category").getD (.str f.kind.category)

/-- The written form of a failure, without the time of its making. -/
def toFields (f : Failure) : Fields :=
  [("type", .str f.kind.name), ("error", .str f.message), ("category", f.category),
    ("correlation_id", f.correlation.getD .null), ("recovery_hint", f.hint),
    ("details", Value.ofFields f.details)]

def toValue (f : Failure) : Value := .ofFields f.toFields

/-- A text; other values stand for their literal, and `null` for nothing. -/
def textOf? (v : Value) : Option String := if v.isNull then none else some v.text

/-- The failure that the members of a mapping describe. Its details are put under their names too,
    beside what every failure has. -/
def ofMembers (v : Value) (details : Fields) : Failure :=
  adopt {
    kind := FailureKind.ofName (v.getD "type").text
    message := ((v.get? "error").map Value.text).getD ""
    details
    hint := v.getD "recovery_hint"
    correlation := givenMark (v.getD "correlation_id") } details

end Failure

end Workflow
