import Workflow.Reply

/-! Graphs of nodes with edges between them. A compiled graph has one edge out of each node and one out
    of the entry marker; edges may lead in cycles and to the end marker. -/

namespace Workflow

def startMarker : String := "__start__"

def endMarker : String := "__end__"

def isReserved (id : String) : Bool := id == startMarker || id == endMarker

inductive NodeKind where
  | function
  /-- Serves the tool calls that the last message asks for. -/
  | tool
  deriving DecidableEq, Inhabited

def NodeKind.name : NodeKind → String
  | .function => "function"
  | .tool => "tool"

structure Node where
  id : String
  kind : NodeKind := .function
  logic : Option Logic := none
  flags : CapabilityFlags := {}
  /-- The field of messages that a tool node reads and adds to. -/
  messagesKey : String := "messages"
  metadata : Fields := []
  deriving Inhabited

inductive EdgeKind where
  | normal
  | conditional
  deriving DecidableEq, Inhabited

def EdgeKind.name : EdgeKind → String
  | .normal => "normal"
  | .conditional => "conditional"

/-- An edge out of a node or the entry marker: to a fixed target, or to one that a condition selects
    among possible targets, by itself or through a map of labels. -/
structure Edge where
  source : String
  kind : EdgeKind := .normal
  target : Option String := none
  condition : Option Condition := none
  possible : List String := []
  pathMap : Option (List (String × String)) := none
  /-- What the condition is shown as. -/
  conditionName : Option String := none
  deriving Inhabited

namespace Edge

def normal (source target : String) : Edge := { source, target := some target }

/-- A target that is given and not empty. -/
def fixedTarget? (e : Edge) : Option String := e.target.filter fun t => !t.isEmpty

/-- Every node that the edge can lead to. -/
def targets (e : Edge) : List String :=
  match e.kind with
  | .normal => e.fixedTarget?.toList
  | .conditional => e.possible

def isConditional (e : Edge) : Bool := e.kind == .conditional

def describe (e : Edge) : Value :=
  match e.kind with
  | .normal =>
    .ofFields [("from", .str e.source), ("to", (e.target.map Value.str).getD .null),
      ("type", .str e.kind.name)]
  | .conditional =>
    .ofFields ([("from", .str e.source), ("type", .str e.kind.name),
      ("condition", .str (e.conditionName.getD Value.null.literal)),
      ("possibleTargets", .list (e.possible.map .str))] ++
      match e.pathMap with
      | some (p :: ps) =>
        [("pathMap", Value.ofFields ((p :: ps).map fun (l, t) => (l, .str t)))]
      | _ => [])

end Edge

structure Definition where
  name : String
  schema : Schema
  nodes : List Node
  edges : List Edge
  /-- The kind of store that the graph asks for. -/
  checkpointer : Option String := none
  metadata : Fields := []
  deriving Inhabited

namespace Definition

def node? (d : Definition) (id : String) : Option Node := d.nodes.find? fun n => n.id == id

def outgoing? (d : Definition) (source : String) : Option Edge :=
  d.edges.find? fun e => e.source == source

def entryPoint? (d : Definition) : Option String := do (← d.outgoing? startMarker).target

def nodeIds (d : Definition) : List String := d.nodes.map Node.id

/-- The structure of the graph for a reader. -/
def describe (d : Definition) : Value :=
  .ofFields [("name", .str d.name), ("state", d.schema.describe),
    ("nodes", .list (d.nodes.map fun n =>
      .ofFields [("id", .str n.id), ("kind", .str n.kind.name), ("capabilities", n.flags.describe)])),
    ("edges", .list (d.edges.map Edge.describe)),
    ("entry_point", (d.entryPoint?.map Value.str).getD .null)]

def line (d : Definition) : String :=
  s!"GraphDefinition({(Value.str d.name).literal}, nodes={Value.nameList d.nodeIds})"

end Definition

end Workflow
