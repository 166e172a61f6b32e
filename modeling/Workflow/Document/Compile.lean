import Workflow.Document.Load
import Workflow.Schema.Registry

/-! Documents compiled to graphs. Names of functions are looked up in registries; all problems of nodes
    and edges are reported together, before those of the structure. -/

namespace Workflow.Document

/-- What the names in a document stand for. -/
structure Registries where
  handlers : List (String × Logic) := []
  conditions : List (String × Condition) := []
  reducers : Reducer.Registry := []
  schemas : Option Schema.Registry := none

/-- The name of a schema that a document does not name. -/
def defaultSchemaName : String := "State"

def filled (s : Option String) : Option String := s.filter fun t => !t.isEmpty

/-- The name of the schema; the two places that can give it may not differ. -/
def schemaName (d : Document) : Except Fault String :=
  match filled d.stateAnnotation, filled d.stateGraph.annotation with
  | some declared, some referenced =>
    if declared = referenced then .ok declared
    else
      refuse [s!"stateGraph references schema '{referenced}' but stateAnnotation is '{declared}'"]
  | some n, none | none, some n => .ok n
  | none, none => .ok defaultSchemaName

def field (registry : Reducer.Registry) (name : String) (f : FieldDecl) : Except Fault Field :=
  Schema.fieldOfAnnotation registry
    { name, type := .str f.type, reducer := (f.reducer.map Reducer.Choice.named).getD .standard
      default := if f.given.contains "default" then f.default else .undefined
      nullable := .bool f.nullable }

/-- A fault of the annotation as a problem of the document. -/
def annotationFault (name : String) : Fault → Fault
  | .plain .key m => .failure (.compilation [s!"Unknown reducer {m} in annotation '{name}'"])
  | f => .failure (.compilation [s!"Invalid annotation '{name}': {f.message}"])

/-- The schema that the annotation of a document declares. -/
def inlineSchema (reducers : Reducer.Registry) (name : String) (d : Document) : Except Fault Schema :=
  ((do Schema.ofFields name (← d.annotation.mapM fun (n, f) => field reducers n f) :
    Except Fault Schema)).mapError (annotationFault name)

/-- The schema of a document, and the registered schemas after it: one that the document declares is
    registered unless its name is taken. -/
def resolveSchema (r : Registries) (d : Document) :
    Option Schema.Registry × Except Fault Schema :=
  match schemaName d with
  | .error f => (r.schemas, .error f)
  | .ok name =>
    if d.annotation.isEmpty then
      match r.schemas.bind fun s => s.get? name with
      | some e => (r.schemas, .ok e.schema)
      | none => (r.schemas, refuse [s!"State schema '{name}' is not declared or registered"])
    else
      match inlineSchema r.reducers name d with
      | .error f => (r.schemas, .error f)
      | .ok schema =>
        (r.schemas.map fun s =>
          match s.get? name with
          | some _ => s
          | none => ⟨s.entries ++ [⟨name, schema⟩]⟩, .ok schema)

/-! ### Nodes -/

/-- The logic of a declared node, with the problems of finding it. -/
def logicOf (handlers : List (String × Logic)) (n : NodeDecl) : Option Logic × List String :=
  match n.kind, filled n.handler with
  | .tool, _ => (none, [])
  | .function, none => (none, [s!"Function node '{n.id}' must specify 'handler'"])
  | .function, some h =>
    match handlers.lookup h with
    | some l => (some l, [])
    | none =>
      (none, [s!"Handler '{h}' for node '{n.id}' not found in node_registry. " ++
        s!"Available: {Value.nameList (handlers.map (·.1))}"])

/-- The flags of a declared node, with the problems of reading them. -/
def flagsOf (n : NodeDecl) : CapabilityFlags × List String :=
  match CapabilityFlags.ofValue (.ofFields (n.capabilities.map fun (k, b) => (k, .bool b))) with
  | .ok f => (f, [])
  | .error e => ({}, [s!"Node '{n.id}': {e.message}"])

/-- The metadata of a declared node, with the name of its handler unless it has such an entry. -/
def metadataOf (n : NodeDecl) : Fields :=
  match filled n.handler with
  | some h => if Fields.has n.metadata "handler" then n.metadata else n.metadata ++ [("handler", .str h)]
  | none => n.metadata

def nodeOf (handlers : List (String × Logic)) (n : NodeDecl) : Node × List String :=
  let (logic, ps) := logicOf handlers n
  let (flags, qs) := flagsOf n
  ({ id := n.id, kind := n.kind, logic, flags, messagesKey := n.messagesKey
     metadata := metadataOf n }, ps ++ qs)

/-- The nodes of declarations after those already there; an id is taken once. -/
def nodesOf (handlers : List (String × Logic)) : List Node → List NodeDecl → List Node × List String
  | nodes, [] => (nodes, [])
  | nodes, n :: rest =>
    if nodes.any fun m => m.id == n.id then
      let (all, ps) := nodesOf handlers nodes rest
      (all, s!"Duplicate node id '{n.id}'" :: ps)
    else
      let (node, qs) := nodeOf handlers n
      let (all, ps) := nodesOf handlers (nodes ++ [node]) rest
      (all, qs ++ ps)

/-! ### Edges -/

def hasEntries (paths : Option (List (String × String))) : Bool :=
  (paths.map fun ps => !ps.isEmpty).getD false

/-- The map of labels that an edge declares, in either place. -/
def pathsOf (e : EdgeDecl) : Option (List (String × String)) :=
  match e.possible with
  | some (.labelled paths) => some paths
  | _ => e.pathMap

/-- The possible targets of an edge: those listed, or else those of its labels. -/
def possibleOf (e : EdgeDecl) : List String :=
  match e.possible with
  | some (.targets (t :: ts)) => t :: ts
  | some (.labelled paths) => (paths.map (·.2)).eraseDups
  | _ => ((e.pathMap.getD []).map (·.2)).eraseDups

/-- An edge to a fixed target, with its problems. -/
def normalEdge (e : EdgeDecl) : Option Edge × List String :=
  match e.target with
  | none => (none, [s!"Edge from '{e.source}' needs either 'to' or 'condition'"])
  | some t =>
    let choices := (e.possible.map fun c => !c.isEmpty).getD false || hasEntries e.pathMap
    (some (.normal e.source t),
      if choices then [s!"Normal edge {e.label} may not declare possibleTargets"] else [])

/-- An edge that a condition chooses, with its problems. -/
def conditionalEdge (conditions : List (String × Condition)) (e : EdgeDecl) (name : String) :
    Option Edge × List String :=
  if e.target.isSome then (none, [s!"Edge from '{e.source}' declares both 'to' and 'condition'"])
  else
    let condition := conditions.lookup name
    let missing :=
      if condition.isSome then []
      else
        [s!"Condition '{name}' for edge from '{e.source}' not found in " ++
          s!"condition_registry. Available: {Value.nameList (conditions.map (·.1))}"]
    let twice := match e.possible with
      | some (.labelled _) =>
        if hasEntries e.pathMap then
          [s!"Edge from '{e.source}' gives both a possibleTargets mapping " ++ "and a pathMap"]
        else []
      | _ => []
    (some
      { source := e.source, kind := .conditional, condition, possible := possibleOf e
        pathMap := (pathsOf e).filter fun ps => !ps.isEmpty
        conditionName := filled (some name) }, missing ++ twice)

def edgeOf (conditions : List (String × Condition)) (e : EdgeDecl) : Option Edge × List String :=
  match e.condition with
  | none => normalEdge e
  | some name => conditionalEdge conditions e name

/-! ### Graphs -/

/-- The graph over a schema that the nodes and edges of a document make. -/
def build (r : Registries) (d : Document) (schema : Schema) : Except Fault Definition :=
  let (nodes, ps) := nodesOf r.handlers [] d.nodes
  let edges := d.edges.map (edgeOf r.conditions)
  let found := edges.filterMap (·.1)
  match ps ++ edges.flatMap (·.2) ++ Graph.problems schema nodes found with
  | [] =>
    Graph.build schema.name schema nodes found d.stateGraph.checkpointer
      (match filled d.stateGraph.store with
        | some s => [("store", .str s)]
        | none => [])
  | problems => refuse problems

/-- The graph of a document, and the registered schemas after it. -/
def compile (r : Registries) (v : Value) : Option Schema.Registry × Except Fault Definition :=
  match load v with
  | .error f => (r.schemas, .error f)
  | .ok d =>
    match resolveSchema r d with
    | (schemas, .error f) => (schemas, .error f)
    | (schemas, .ok schema) => (schemas, build r d schema)

end Workflow.Document
