import Workflow.Graph.Draft
import Workflow.Checked

/-! Declarative documents: the fields, nodes and edges of a graph as they are written down, with the
    names of the functions behind them. -/

namespace Workflow

structure FieldDecl where
  type : String := "any"
  reducer : Option String := none
  default : Value := .null
  nullable : Bool := false
  /-- The members that the document gives. -/
  given : List String := []
  deriving Inhabited

structure NodeDecl where
  id : String
  kind : NodeKind := .function
  handler : Option String := none
  capabilities : List (String × Bool) := []
  messagesKey : String := "messages"
  metadata : Fields := []
  deriving Inhabited

structure EdgeDecl where
  source : String
  target : Option String := none
  condition : Option String := none
  possible : Option Draft.Choices := none
  pathMap : Option (List (String × String)) := none
  deriving Inhabited

/-- What a document says about the graph as a whole. -/
structure GraphDecl where
  annotation : Option String := none
  checkpointer : Option String := none
  store : Option String := none
  /-- Members without a meaning here. -/
  more : Fields := []
  deriving Inhabited

structure Document where
  stateAnnotation : Option String := none
  annotation : List (String × FieldDecl) := []
  nodes : List NodeDecl := []
  edges : List EdgeDecl := []
  stateGraph : GraphDecl := {}
  deriving Inhabited

namespace Draft.Choices

def toValue : Choices → Value
  | .targets ids => .list (ids.map .str)
  | .labelled paths => .ofFields (paths.map fun (l, t) => (l, .str t))

def isEmpty : Choices → Bool
  | .targets ids => ids.isEmpty
  | .labelled paths => paths.isEmpty

end Draft.Choices

namespace EdgeDecl

/-- The choices as they are written, `null` if there are none. -/
def possibleValue (e : EdgeDecl) : Value := (e.possible.map Draft.Choices.toValue).getD .null

def label (e : EdgeDecl) : String :=
  match e.condition.filter fun c => !c.isEmpty with
  | some c => s!"{e.source} -?{c}-> {e.possibleValue.literal}"
  | none => s!"{e.source} -> {((e.target.map Value.str).getD .null).text}"

end EdgeDecl

namespace Document

open Checked

/-! ### Reading -/

def fieldMembers : List Member :=
  ["type", "reducer", "default", "nullable"].map fun n => ⟨n, n⟩

def fieldDecl (es : List (Value × Value)) : Checked FieldDecl :=
  let member (n : String) : Member := ⟨n, n⟩
  let given := fieldMembers.filterMap fun m => (m.get? es).map fun _ => m.name
  .ok (fun type reducer default nullable (_ : Unit) =>
      ({ type, reducer, default, nullable, given } : FieldDecl))
    |> feed ((member "type").read es text (.ok "any"))
    |> feed ((member "reducer").read es (optional text) (.ok none))
    |> feed ((member "default").read es .ok (.ok .null))
    |> feed ((member "nullable").read es boolean (.ok false))
    |> feed (extras fieldMembers false es)

def idMember : Member := ⟨"id", "id"⟩
def kindMember : Member := ⟨"kind", "kind"⟩
def handlerMember : Member := ⟨"handler", "handler"⟩
def capabilitiesMember : Member := ⟨"capabilities", "capabilities"⟩
def messagesMember : Member := ⟨"messagesKey", "messages_key"⟩
def metadataMember : Member := ⟨"metadata", "metadata"⟩

def nodeMembers : List Member :=
  [idMember, kindMember, handlerMember, capabilitiesMember, messagesMember, metadataMember]

def nodeKinds : List (String × NodeKind) := [("function", .function), ("tool", .tool)]

def nodeDecl (es : List (Value × Value)) : Checked NodeDecl :=
  .ok (fun id kind handler capabilities messagesKey metadata (_ : Unit) =>
      ({ id, kind, handler, capabilities, messagesKey, metadata } : NodeDecl))
    |> feed (idMember.read es filledText required)
    |> feed (kindMember.read es (oneOf nodeKinds "'function' or 'tool'") (.ok .function))
    |> feed (handlerMember.read es (optional text) (.ok none))
    |> feed (capabilitiesMember.read es (entries boolean) (.ok []))
    |> feed (messagesMember.read es text (.ok "messages"))
    |> feed (metadataMember.read es (entries .ok) (.ok []))
    |> feed (extras nodeMembers false es)

def fromMember : Member := ⟨"from", "source"⟩
def toMember : Member := ⟨"to", "target"⟩
def conditionMember : Member := ⟨"condition", "condition"⟩
def possibleMember : Member := ⟨"possibleTargets", "possible_targets"⟩
def pathMapMember : Member := ⟨"pathMap", "path_map"⟩

def edgeMembers : List Member :=
  [fromMember, toMember, conditionMember, possibleMember, pathMapMember]

/-- Targets in a list or by label; a value that is neither has the problems of both. -/
def choicesOf (v : Value) : Checked Draft.Choices :=
  match Checked.list text v, entries text v with
  | .ok ids, _ => .ok (.targets ids)
  | _, .ok paths => .ok (.labelled paths)
  | l, e => .error ((under "list[str]" l).problems ++ (under "dict[str,str]" e).problems)

def edgeDecl (es : List (Value × Value)) : Checked EdgeDecl :=
  .ok (fun source target condition possible pathMap (_ : Unit) =>
      ({ source, target, condition, possible, pathMap } : EdgeDecl))
    |> feed (fromMember.read es filledText required)
    |> feed (toMember.read es (optional text) (.ok none))
    |> feed (conditionMember.read es (optional text) (.ok none))
    |> feed (possibleMember.read es (optional choicesOf) (.ok none))
    |> feed (pathMapMember.read es (optional (entries text)) (.ok none))
    |> feed (extras edgeMembers false es)

def annotationMember : Member := ⟨"annotation", "annotation"⟩
def checkpointerMember : Member := ⟨"checkpointer", "checkpointer"⟩
def storeMember : Member := ⟨"store", "store"⟩

def graphMembers : List Member := [annotationMember, checkpointerMember, storeMember]

/-- The kinds of stores that a document can ask for. -/
def storeKinds : List (String × String) := ["memory", "sqlite", "json"].map fun n => (n, n)

def graphDecl (es : List (Value × Value)) : Checked GraphDecl :=
  let more := (es.map fun (k, v) => (k.text, v)).filter fun (n, _) =>
    !graphMembers.any fun m => m.name == n
  .ok (fun annotation checkpointer store (_ : Unit) =>
      ({ annotation, checkpointer, store, more } : GraphDecl))
    |> feed (annotationMember.read es (optional text) (.ok none))
    |> feed (checkpointerMember.read es (optional (oneOf storeKinds "'memory', 'sqlite' or 'json'"))
      (.ok none))
    |> feed (storeMember.read es (optional text) (.ok none))
    |> feed (extras graphMembers true es)

def stateMember : Member := ⟨"stateAnnotation", "state_annotation"⟩
def nodesMember : Member := ⟨"nodes", "nodes"⟩
def edgesMember : Member := ⟨"edges", "edges"⟩
def graphMember : Member := ⟨"stateGraph", "state_graph"⟩

def members : List Member := [stateMember, annotationMember, nodesMember, edgesMember, graphMember]

/-- The document that a mapping writes down, or all that is wrong with it. -/
def ofEntries (es : List (Value × Value)) : Checked Document :=
  .ok (fun stateAnnotation annotation nodes edges stateGraph (_ : Unit) =>
      ({ stateAnnotation, annotation, nodes, edges, stateGraph } : Document))
    |> feed (stateMember.read es (optional text) (.ok none))
    |> feed (annotationMember.read es (entries (record "FieldDecl" fieldDecl)) (.ok []))
    |> feed (nodesMember.read es (Checked.list (record "NodeDecl" nodeDecl)) (.ok []))
    |> feed (edgesMember.read es (Checked.list (record "EdgeDecl" edgeDecl)) (.ok []))
    |> feed (graphMember.read es (record "StateGraphDecl" graphDecl) (.ok {}))
    |> feed (extras members false es)

/-! ### Writing -/

def optionalText (s : Option String) : Value := (s.map Value.str).getD .null

def FieldDecl.toValue (f : FieldDecl) : Value :=
  .ofFields [("type", .str f.type), ("reducer", optionalText f.reducer), ("default", f.default),
    ("nullable", .bool f.nullable)]

def NodeDecl.toValue (n : NodeDecl) : Value :=
  .ofFields [("id", .str n.id), ("kind", .str n.kind.name), ("handler", optionalText n.handler),
    ("capabilities", .ofFields (n.capabilities.map fun (k, b) => (k, .bool b))),
    ("messagesKey", .str n.messagesKey), ("metadata", .ofFields n.metadata)]

def EdgeDecl.toValue (e : EdgeDecl) : Value :=
  .ofFields [("from", .str e.source), ("to", optionalText e.target),
    ("condition", optionalText e.condition), ("possibleTargets", e.possibleValue),
    ("pathMap", (e.pathMap.map fun paths =>
      Value.ofFields (paths.map fun (l, t) => (l, .str t))).getD .null)]

def GraphDecl.toValue (g : GraphDecl) : Value :=
  .ofFields ([("annotation", optionalText g.annotation),
    ("checkpointer", optionalText g.checkpointer), ("store", optionalText g.store)] ++ g.more)

/-- The document with all of its members. -/
def toValue (d : Document) : Value :=
  .ofFields [("stateAnnotation", optionalText d.stateAnnotation),
    ("annotation", .ofFields (d.annotation.map fun (n, f) => (n, FieldDecl.toValue f))),
    ("nodes", .list (d.nodes.map NodeDecl.toValue)), ("edges", .list (d.edges.map EdgeDecl.toValue)),
    ("stateGraph", GraphDecl.toValue d.stateGraph)]

end Document

end Workflow
