import Workflow.Graph.Structure

/-! Drafts: graphs put together in code, node by node and edge by edge. -/

namespace Workflow

/-- The nodes and edges declared so far. -/
structure Draft where
  schema : Schema
  nodes : List Node := []
  edges : List Edge := []
  deriving Inhabited

namespace Draft

/-- The flags of a declared node: a mapping that names them, or nothing. -/
def flags (v : Value) : Except Fault CapabilityFlags :=
  match CapabilityFlags.ofValue v with
  | .error (.plain .value m) => .error (.failure (.compilation [m]))
  | r => r

def checkId (d : Draft) (id : String) : Except Fault Unit :=
  let refuse := fun (m : String) => Except.error (Fault.failure (.compilation [m]))
  if id.isEmpty then refuse "Node id must be a non-empty string"
  else if isReserved id then refuse s!"Node id '{id}' is reserved"
  else if d.nodes.any fun n => n.id == id then refuse s!"Node '{id}' already exists"
  else .ok ()

/-- Adds a node whose flags are given by a value, or as they are. -/
def addNode (d : Draft) (n : Node) (capabilities : Except Value CapabilityFlags) :
    Except Fault Draft := do
  d.checkId n.id
  let flags ← match capabilities with
    | .ok f => pure f
    | .error v => flags v
  return { d with nodes := d.nodes ++ [{ n with flags }] }

def addEdge (d : Draft) (e : Edge) : Draft := { d with edges := d.edges ++ [e] }

/-- Where an edge with a condition may lead: to targets, or to targets by label. -/
inductive Choices where
  | targets (ids : List String)
  | labelled (paths : List (String × String))

/-- What a value gives to choose from: a mapping labels targets, and items are targets. -/
def Choices.ofValue : Value → Except Fault Choices
  | .mapping es => .ok (.labelled (es.map fun (k, v) => (k.text, v.text)))
  | v => do return .targets ((← v.items).map Value.text)

def conditional (source : String) (condition : Condition) (name : String) : Choices → Edge
  | .targets ids =>
    { source, kind := .conditional, condition := some condition, possible := ids
      conditionName := some name }
  | .labelled paths =>
    { source, kind := .conditional, condition := some condition
      possible := (paths.map (·.2)).eraseDups, pathMap := some paths, conditionName := some name }

/-- The compiled graph; it is named for its schema unless a name is given. -/
def compile (d : Draft) (name : String := "") (checkpointer : Option String := none) :
    Except Fault Definition :=
  Graph.build (if name.isEmpty then d.schema.name else name) d.schema d.nodes d.edges checkpointer

end Draft

end Workflow
