import Mathlib.Data.List.Forall2
import Mathlib.Data.List.Nodup
import Workflow.Document.Compile
import Workflow.Proofs.Kept
import Workflow.Proofs.Loading
import Workflow.Proofs.WellFormed

/-! # Graphs declared in a document and in code

The same nodes and edges can be written into a document or given call by call (`Draft.make`). A document makes of each
declaration what the call makes of it, but for the names of functions that it notes (`Document.nodesOf_eq`,
`Document.edgeOf_eq`), and these names are nothing that the structure of a graph is checked for
(`Graph.problems_plain`). The value that writes declarations down is read as the document that it writes
(`Document.load_document`). So both ways come to the same graph or to the same problems (`Document.compile_agrees`). -/

namespace Workflow

/-! ### Declarations -/

/-- A node as it is declared: one whose logic is known by a name, or one that serves tool calls. -/
inductive NodeSpec where
  | function (id handler : String) (logic : Logic) (capabilities : List (String × Bool))
  | tool (id messagesKey : String) (capabilities : List (String × Bool))

namespace NodeSpec

def id : NodeSpec → String
  | .function id _ _ _ | .tool id _ _ => id

def capabilities : NodeSpec → List (String × Bool)
  | .function _ _ _ capabilities | .tool _ _ capabilities => capabilities

/-- The capabilities as a value. -/
def wants (n : NodeSpec) : Value := .ofFields (n.capabilities.map fun (k, b) => (k, .bool b))

/-- The node in a document. -/
def decl : NodeSpec → NodeDecl
  | .function id handler _ capabilities => { id, handler := some handler, capabilities }
  | .tool id messagesKey capabilities => { id, kind := .tool, messagesKey, capabilities }

/-- The node in code, before its flags are read. -/
def unflagged : NodeSpec → Node
  | .function id _ logic _ => { id, logic := some logic }
  | .tool id messagesKey _ => { id, kind := .tool, messagesKey }

/-- The node in code. -/
def node (n : NodeSpec) : Node := { n.unflagged with flags := (Document.flagsOf n.decl).1 }

/-- What is known of a node by names: its flags, and its logic among the handlers. -/
def Known (handlers : List (String × Logic)) : NodeSpec → Prop
  | .function _ handler logic capabilities =>
    handler ≠ "" ∧ handlers.lookup handler = some logic ∧
      ∀ flag ∈ capabilities, flag.1 ∈ CapabilityFlags.flagNames
  | .tool _ _ capabilities => ∀ flag ∈ capabilities, flag.1 ∈ CapabilityFlags.flagNames

end NodeSpec

/-- An edge as it is declared; a condition is known by a name, and by the name of the function that it is. -/
inductive EdgeSpec where
  | normal (source target : String)
  | conditional (source name called : String) (condition : Condition) (choices : Draft.Choices)

namespace EdgeSpec

def source : EdgeSpec → String
  | .normal source _ | .conditional source _ _ _ _ => source

/-- The ways to write the edge into a document: labels may stand in two places. -/
def decls : EdgeSpec → List EdgeDecl
  | .normal source target => [{ source, target := some target }]
  | .conditional source name _ _ (.targets ids) =>
    [{ source, condition := some name, possible := some (.targets ids) }]
  | .conditional source name _ _ (.labelled paths) =>
    [{ source, condition := some name, possible := some (.labelled paths) },
      { source, condition := some name, pathMap := some paths }]

theorem source_of_mem_decls {e : EdgeSpec} {decl : EdgeDecl} (h : decl ∈ e.decls) : decl.source = e.source := by
  cases e with
  | normal => rw [List.mem_singleton.mp h]; rfl
  | conditional source name called condition choices =>
    cases choices with
    | targets => rw [List.mem_singleton.mp h]; rfl
    | labelled =>
      rcases List.mem_pair.mp h with rfl | rfl <;> rfl

/-- The edge in code. -/
def edge : EdgeSpec → Edge
  | .normal source target => .normal source target
  | .conditional source _ called condition choices => Draft.conditional source condition called choices

/-- The condition is the one that is registered under its name. -/
def Known (conditions : List (String × Condition)) : EdgeSpec → Prop
  | .normal _ _ => True
  | .conditional _ name _ condition _ => conditions.lookup name = some condition

end EdgeSpec

/-- A call that adds to a draft. -/
inductive Draft.Call where
  | node (n : NodeSpec)
  | edge (e : EdgeSpec)

namespace Draft

/-- The nodes that calls declare. -/
def nodesOf : List Call → List NodeSpec
  | [] => []
  | .node n :: rest => n :: nodesOf rest
  | .edge _ :: rest => nodesOf rest

/-- The edges that calls declare. -/
def edgesOf : List Call → List EdgeSpec
  | [] => []
  | .node _ :: rest => edgesOf rest
  | .edge e :: rest => e :: edgesOf rest

/-- Makes calls one after another. -/
def makeAll (d : Draft) : List Call → Except Fault Draft
  | [] => .ok d
  | .node n :: rest => do (← d.addNode n.unflagged (.error n.wants)).makeAll rest
  | .edge e :: rest => (d.addEdge e.edge).makeAll rest

/-- The graph over a schema that calls make. -/
def make (schema : Schema) (calls : List Call) (checkpointer : Option String) : Except Fault Definition := do
  (← makeAll { schema } calls).compile "" checkpointer

/-- What is declared by calls can be declared: nodes have names of their own, edges leave something that has a name, and
what is called by a name is known. -/
structure Sensible (r : Document.Registries) (calls : List Call) : Prop where
  distinct : ((nodesOf calls).map NodeSpec.id).Nodup
  named : ∀ n ∈ nodesOf calls, n.id ≠ "" ∧ isReserved n.id = false
  nodes : ∀ n ∈ nodesOf calls, n.Known r.handlers
  sources : ∀ e ∈ edgesOf calls, e.source ≠ ""
  edges : ∀ e ∈ edgesOf calls, e.Known r.conditions

end Draft

namespace Document

/-- The document declares the schema field by field, or names one that is registered. -/
inductive Gives (r : Registries) (d : Document) (schema : Schema) : Prop
  | inlined (name : d.schemaName = .ok schema.name) (some : d.annotation ≠ [])
      (fields : List.Forall₂ (fun e f => field r.reducers e.1 e.2 = .ok f) d.annotation schema.fields)
      (distinct : schema.fieldNames.Nodup)
  | referenced (registry : Schema.Registry) (e : Schema.Registered) (name : d.schemaName = .ok schema.name)
      (none : d.annotation = []) (schemas : r.schemas = Option.some registry)
      (there : registry.get? schema.name = Option.some e) (same : e.schema = schema)

/-- The document writes down what the calls make. -/
structure Writes (r : Registries) (d : Document) (schema : Schema) (calls : List Draft.Call) : Prop where
  schema : d.Gives r schema
  nodes : d.nodes = (Draft.nodesOf calls).map NodeSpec.decl
  edges : List.Forall₂ (fun (e : EdgeSpec) decl => decl ∈ e.decls) (Draft.edgesOf calls) d.edges
  fields : ∀ f ∈ d.annotation, FieldDecl.Stands f.2
  graph : GraphDecl.Stands d.stateGraph
  store : filled d.stateGraph.store = none

end Document

/-! ### What names leave as it is -/

/-- The node without the name of its handler. -/
def Node.bare (n : Node) : Node := { n with metadata := n.metadata.erase "handler" }

/-- The edge without the name of its condition. -/
def Edge.bare (e : Edge) : Edge := { e with conditionName := none }

/-- The graph without the names of functions. -/
def Definition.bare (d : Definition) : Definition :=
  { d with nodes := d.nodes.map Node.bare, edges := d.edges.map Edge.bare }

/-- Both ways are refused for the same problems, or come to the same graph but for the names of functions. -/
inductive Agree : Except Fault Definition → Except Fault Definition → Prop
  | refused (problems : List String) : Agree (Document.refuse problems) (Document.refuse problems)
  | made {d e : Definition} (same : d.bare = e.bare) : Agree (.ok d) (.ok e)

/-- The edge without the name of its condition, and without labels that label nothing. -/
def Edge.plain (e : Edge) : Edge := { e.bare with pathMap := e.pathMap.filter fun ps => !ps.isEmpty }

namespace Graph

variable {schema : Schema} {nodes : List Node} {edges table : List Edge} {ids : List String}

theorem edgeProblems_plain (e : Edge) : edgeProblems ids e.plain = edgeProblems ids e := by
  have labels : e.plain.pathMap.getD [] = e.pathMap.getD [] := by
    show (e.pathMap.filter fun ps => !ps.isEmpty).getD [] = _
    cases e.pathMap with
    | none => rfl
    | some paths => cases paths <;> rfl
  have choices : choiceProblems ids e.plain = choiceProblems ids e := by
    rw [choiceProblems, labels]
    rfl
  rw [edgeProblems, choices]
  rfl

theorem leaving_plain (s : String) : leaving (edges.map Edge.plain) s = (leaving edges s).map Edge.plain := by
  rw [leaving, List.filter_map]
  rfl

theorem sources_plain : sources (edges.map Edge.plain) = sources edges := by
  rw [sources, List.map_map]
  rfl

theorem entryProblems_plain : entryProblems (edges.map Edge.plain) = entryProblems edges := by
  rw [entryProblems, leaving_plain, entryProblems]
  cases leaving edges startMarker with
  | nil => rfl
  | cons e es =>
    cases es with
    | nil => rfl
    | cons => simp

theorem crowdingProblems_plain : crowdingProblems (edges.map Edge.plain) = crowdingProblems edges := by
  rw [crowdingProblems, sources_plain, crowdingProblems]
  refine congrArg (List.flatMap · _) (funext fun s => ?_)
  simp only [leaving_plain, List.length_map, List.any_map, List.all_map]
  rfl

theorem deadEndProblems_plain : deadEndProblems ids (edges.map Edge.plain) = deadEndProblems ids edges := by
  simp only [deadEndProblems, List.any_map]
  rfl

theorem successors_plain : successors (edges.map Edge.plain) = successors edges := by
  funext id
  rw [successors, leaving_plain, List.flatMap_map]
  rfl

theorem explore_plain (visited stack : List String) :
    explore ids (edges.map Edge.plain) visited stack = explore ids edges visited stack := by
  induction visited, stack using explore_induction ids edges with
  | empty visited => rw [explore_nil, explore_nil]
  | passed visited t stack known ih => rw [explore_passed known, ih, explore_passed known]
  | fresh visited t stack new ih => rw [explore_fresh new, successors_plain, ih, explore_fresh new]

theorem reachProblems_plain : reachProblems ids (edges.map Edge.plain) = reachProblems ids edges := by
  have entries : entries (edges.map Edge.plain) = entries edges := by
    rw [entries, leaving_plain, List.filterMap_map]
    rfl
  have seen : reachable ids (edges.map Edge.plain) = reachable ids edges := by
    rw [reachable, entries, explore_plain, reachable]
  rw [reachProblems, seen, reachProblems]

/-- The names of functions are nothing that a graph is checked for. -/
theorem problems_plain :
    problems schema (nodes.map Node.bare) (edges.map Edge.plain) = problems schema nodes edges := by
  have ids : (nodes.map Node.bare).map Node.id = nodes.map Node.id := by
    rw [List.map_map]
    rfl
  have ofNodes : (nodes.map Node.bare).flatMap (nodeProblems schema) = nodes.flatMap (nodeProblems schema) := by
    rw [List.flatMap_map]
    rfl
  have ofEdges : ∀ ids, (edges.map Edge.plain).flatMap (edgeProblems ids) = edges.flatMap (edgeProblems ids) := by
    intro ids
    rw [List.flatMap_map]
    exact congrArg (List.flatMap · edges) (funext edgeProblems_plain)
  simp only [problems, ids, ofNodes, ofEdges, entryProblems_plain, crowdingProblems_plain, deadEndProblems_plain,
    reachProblems_plain, List.isEmpty_map]

/-- Edges are put into the table by their sources. -/
theorem adjacency_bare :
    adjacency (table.map Edge.bare) (edges.map Edge.bare) = (adjacency table edges).map Edge.bare := by
  induction edges generalizing table with
  | nil => rfl
  | cons e es ih =>
    have there : ((table.map Edge.bare).any fun f => f.source == e.bare.source) =
        table.any fun f => f.source == e.source := by
      rw [List.any_map]
      rfl
    rw [List.map_cons, adjacency, adjacency, there]
    split
    · rw [← ih, List.map_map, List.map_map]
      congr 1
      refine List.map_congr_left fun f _ => ?_
      by_cases same : f.source = e.source
      · simp [same, Edge.bare]
      · simp [same, Edge.bare]
    · rw [← ih, List.map_append]
      rfl

theorem build_agree {name : String} {checkpointer : Option String} {nodes' : List Node} {edges' : List Edge}
    (bare : nodes.map Node.bare = nodes'.map Node.bare) (plain : edges.map Edge.plain = edges'.map Edge.plain)
    (labels : problems schema nodes' edges' = [] → edges.map Edge.bare = edges'.map Edge.bare) :
    Agree (build name schema nodes edges checkpointer) (build name schema nodes' edges' checkpointer) := by
  have same : problems schema nodes edges = problems schema nodes' edges' := by
    rw [← problems_plain, bare, plain, problems_plain]
  rw [build, build, same]
  cases none : problems schema nodes' edges' with
  | cons p ps => exact .refused (p :: ps)
  | nil =>
    have tables : (adjacency [] edges).map Edge.bare = (adjacency [] edges').map Edge.bare :=
      calc (adjacency [] edges).map Edge.bare
        _ = adjacency ([].map Edge.bare) (edges.map Edge.bare) := adjacency_bare.symm
        _ = adjacency ([].map Edge.bare) (edges'.map Edge.bare) := by rw [labels none]
        _ = (adjacency [] edges').map Edge.bare := adjacency_bare
    refine .made ?_
    simp only [Definition.bare, bare, tables]

end Graph

/-! ### What calls make -/

theorem CapabilityFlags.ofValue_of_known {capabilities : List (String × Bool)}
    (known : ∀ flag ∈ capabilities, flag.1 ∈ flagNames) :
    ∃ f, ofValue (.ofFields (capabilities.map fun (k, b) => (k, .bool b))) = .ok f := by
  cases capabilities with
  | nil => exact ⟨{}, rfl⟩
  | cons c cs =>
    let names := (c :: cs).map Prod.fst
    have keys : (Value.ofFields ((c :: cs).map fun (k, b) => (k, .bool b))).items = .ok (names.map .str) := by
      simp [Value.ofFields, Value.items, Value.items?, names]
    have none : (((names.map Value.str).map Value.text).eraseDups.filter fun n => !flagNames.contains n).isEmpty := by
      rw [List.isEmpty_iff, List.filter_eq_nil_iff]
      intro n hn
      rw [List.mem_eraseDups, List.map_map] at hn
      obtain ⟨name, hname, rfl⟩ := List.mem_map.mp hn
      obtain ⟨flag, hflag, rfl⟩ := List.mem_map.mp hname
      have mem : flagNames.contains flag.1 = true := List.contains_iff_mem.mpr (known flag hflag)
      show ¬ (!flagNames.contains flag.1) = true
      rw [mem]
      decide
    have filled : (!(Value.ofFields ((c :: cs).map fun (k, b) => (k, .bool b))).truthy) = false := rfl
    rw [ofValue, filled, keys]
    simp only [bind, Except.bind, Bool.false_eq_true, if_false, Workflow.Value.forM_checkKey_names, none]
    exact ⟨_, rfl⟩

namespace NodeSpec

variable {handlers : List (String × Logic)} {n : NodeSpec} {d : Draft}

theorem Known.flags (h : n.Known handlers) : CapabilityFlags.ofValue n.wants = .ok n.node.flags := by
  have known : ∀ flag ∈ n.capabilities, flag.1 ∈ CapabilityFlags.flagNames := by
    cases n with
    | function => exact h.2.2
    | tool => exact h
  have same : n.decl.capabilities = n.capabilities := by cases n <;> rfl
  obtain ⟨f, hf⟩ := CapabilityFlags.ofValue_of_known known
  have flags : Document.flagsOf n.decl = (f, []) := by rw [Document.flagsOf, same, hf]
  rw [wants, hf, node, flags]

theorem id_unflagged (n : NodeSpec) : n.unflagged.id = n.id := by cases n <;> rfl

theorem id_node (n : NodeSpec) : n.node.id = n.id := n.id_unflagged

theorem addNode_eq (known : n.Known handlers) (named : n.id ≠ "") (free : isReserved n.id = false)
    (new : n.id ∉ d.nodes.map Node.id) :
    d.addNode n.unflagged (.error n.wants) = .ok { d with nodes := d.nodes ++ [n.node] } := by
  have absent : (d.nodes.any fun m => m.id == n.id) = false := by
    simpa [List.mem_map] using new
  have allowed : d.checkId n.unflagged.id = .ok () := by
    rw [id_unflagged, Draft.checkId, free, absent]
    simp [named]
  have flags : Draft.flags n.wants = .ok n.node.flags := by rw [Draft.flags, known.flags]
  exact bind_eq_ok.mpr ⟨(), allowed, bind_eq_ok.mpr ⟨n.node.flags, flags, rfl⟩⟩

end NodeSpec

namespace Draft

variable {r : Document.Registries} {calls : List Call} {d : Draft}

theorem makeAll_eq (distinct : ((nodesOf calls).map NodeSpec.id).Nodup)
    (named : ∀ n ∈ nodesOf calls, n.id ≠ "" ∧ isReserved n.id = false)
    (known : ∀ n ∈ nodesOf calls, n.Known r.handlers)
    (new : ∀ n ∈ nodesOf calls, n.id ∉ d.nodes.map Node.id) :
    d.makeAll calls = .ok
      { d with
        nodes := d.nodes ++ (nodesOf calls).map NodeSpec.node
        edges := d.edges ++ (edgesOf calls).map EdgeSpec.edge } := by
  induction calls generalizing d with
  | nil => simp [makeAll, nodesOf, edgesOf]
  | cons call calls ih =>
    cases call with
    | node n =>
      rw [nodesOf, List.map_cons, List.nodup_cons] at distinct
      rw [nodesOf, List.forall_mem_cons] at named known new
      rw [makeAll, NodeSpec.addNode_eq known.1 named.1.1 named.1.2 new.1]
      refine (ih distinct.2 named.2 known.2 ?_).trans ?_
      · intro m hm
        rw [List.map_append, List.mem_append, not_or, List.map_singleton, List.mem_singleton, n.id_node]
        exact ⟨new.2 m hm, fun same => distinct.1 (same ▸ List.mem_map_of_mem hm)⟩
      · rw [nodesOf, edgesOf, List.map_cons, List.append_assoc]
        rfl
    | edge e =>
      rw [nodesOf] at distinct named known new
      rw [makeAll]
      refine (ih (d := d.addEdge e.edge) distinct named known new).trans ?_
      rw [nodesOf, edgesOf, List.map_cons, addEdge, List.append_assoc]
      rfl

end Draft

/-! ### What a document makes -/

namespace Document

variable {r : Registries} {d : Document} {schema : Schema} {calls : List Draft.Call}

/-- The node of a declaration, which notes the name of its handler. -/
def noted (n : NodeSpec) : Node := { n.node with metadata := metadataOf n.decl }

theorem nodeOf_eq {n : NodeSpec} (known : n.Known r.handlers) : nodeOf r.handlers n.decl = (noted n, []) := by
  have flags : flagsOf n.decl = (n.node.flags, []) := by
    have same : n.decl.capabilities = n.capabilities := by cases n <;> rfl
    have read := known.flags
    rw [NodeSpec.wants] at read
    rw [flagsOf, same, read]
  have logic : logicOf r.handlers n.decl = (n.node.logic, []) := by
    cases n with
    | function id handler logic capabilities =>
      obtain ⟨filledName, found, -⟩ := known
      have named : filled (some handler) = some handler := by simp [filled, filledName]
      simp only [logicOf, NodeSpec.decl, named, found]
      rfl
    | tool => rfl
  rw [nodeOf, logic, flags]
  cases n <;> rfl

theorem bare_noted (n : NodeSpec) : (noted n).bare = n.node.bare := by
  cases n with
  | tool => rfl
  | function id handler logic capabilities =>
    have erased : Fields.erase (metadataOf (NodeSpec.function id handler logic capabilities).decl) "handler" = [] := by
      simp only [metadataOf, NodeSpec.decl]
      cases filled (some handler) <;> rfl
    rw [noted, Node.bare, erased]
    rfl

theorem nodesOf_eq {specs : List NodeSpec} {nodes : List Node} (known : ∀ n ∈ specs, n.Known r.handlers)
    (distinct : (specs.map NodeSpec.id).Nodup) (new : ∀ n ∈ specs, n.id ∉ nodes.map Node.id) :
    nodesOf r.handlers nodes (specs.map NodeSpec.decl) = (nodes ++ specs.map noted, []) := by
  induction specs generalizing nodes with
  | nil => simp [nodesOf]
  | cons n specs ih =>
    obtain ⟨fresh, distinct⟩ := List.nodup_cons.mp distinct
    rw [List.forall_mem_cons] at known new
    have id : n.decl.id = n.id := by cases n <;> rfl
    have absent : (nodes.any fun m => m.id == n.id) = false := by
      simpa [List.mem_map] using new.1
    have rest : nodesOf r.handlers (nodes ++ [noted n]) (specs.map NodeSpec.decl) =
        (nodes ++ [noted n] ++ specs.map noted, []) := by
      refine ih known.2 distinct fun m hm => ?_
      rw [List.map_append, List.mem_append, not_or, List.map_singleton, List.mem_singleton]
      exact ⟨new.2 m hm, fun same => fresh (n.id_node ▸ same ▸ List.mem_map_of_mem hm)⟩
    rw [List.map_cons, nodesOf, id, absent, nodeOf_eq known.1]
    simp only [Bool.false_eq_true, if_false, rest, List.append_assoc]
    rfl

/-- Whichever way an edge is written, it is the edge that a call makes, but for the name of its condition and for labels
that label nothing. -/
theorem edgeOf_eq {e : EdgeSpec} {decl : EdgeDecl} (known : e.Known r.conditions) (h : decl ∈ e.decls) :
    ∃ conditionName, edgeOf r.conditions decl = (some
      { e.edge with pathMap := e.edge.pathMap.filter fun ps => !ps.isEmpty, conditionName }, []) := by
  cases e with
  | normal source target =>
    obtain rfl := List.mem_singleton.mp h
    exact ⟨none, rfl⟩
  | conditional source name called condition choices =>
    have found : r.conditions.lookup name = some condition := known
    refine ⟨filled (some name), ?_⟩
    have written : ∀ decl : EdgeDecl, decl.target = none → decl.condition = some name →
        (decl.possible = none ∨ decl.pathMap = none) → edgeOf r.conditions decl = (some
          { source := decl.source, kind := .conditional, condition := some condition, possible := possibleOf decl
            pathMap := (pathsOf decl).filter fun ps => !ps.isEmpty, conditionName := filled (some name) }, []) := by
      rintro ⟨source, target, condition', possible, pathMap⟩ rfl rfl once
      simp only [edgeOf, conditionalEdge, found]
      -- Labels that stand in one place only are no problem.
      rcases once with h | h
      · obtain rfl : possible = none := h
        rfl
      · obtain rfl : pathMap = none := h
        rcases possible with - | - | - <;> rfl
    cases choices with
    | targets ids =>
      obtain rfl := List.mem_singleton.mp h
      rw [written _ rfl rfl (.inr rfl)]
      cases ids <;> rfl
    | labelled paths =>
      rcases List.mem_cons.mp h with rfl | h
      · exact written _ rfl rfl (.inr rfl)
      · obtain rfl := List.mem_singleton.mp h
        exact written _ rfl rfl (.inl rfl)

theorem addFields_eq {s : Schema} {fields : List Field} (distinct : ((s.fields ++ fields).map Field.name).Nodup) :
    s.addFields fields = .ok { s with fields := s.fields ++ fields } := by
  induction fields generalizing s with
  | nil => simp [Schema.addFields]
  | cons f fields ih =>
    have new : s.has f.name = false := by
      rw [List.map_append, List.nodup_append] at distinct
      refine List.any_eq_false.mpr fun g hg same => ?_
      exact distinct.2.2 _ (List.mem_map_of_mem hg) _ List.mem_cons_self (by simpa using same)
    rw [Schema.addFields, new, if_neg Bool.false_ne_true]
    refine (ih (by simpa using distinct)).trans ?_
    simp

theorem mapM_field_eq {decls : List (String × FieldDecl)} {fields : List Field}
    (h : List.Forall₂ (fun e f => field r.reducers e.1 e.2 = .ok f) decls fields) :
    (decls.mapM fun (n, f) => field r.reducers n f) = .ok fields := by
  induction h with
  | nil => rfl
  | cons first _ ih =>
    rw [List.mapM_cons]
    exact bind_eq_ok.mpr ⟨_, first, bind_eq_ok.mpr ⟨_, ih, rfl⟩⟩

/-- A schema that a document gives is the one that the document is compiled over. -/
theorem Gives.resolveSchema_eq (h : d.Gives r schema) : (resolveSchema r d).2 = .ok schema := by
  cases h with
  | inlined name some fields distinct =>
    have inline : inlineSchema r.reducers schema.name d = .ok schema := by
      rw [inlineSchema, mapM_field_eq fields]
      show (Schema.addFields ⟨schema.name, []⟩ schema.fields).mapError _ = _
      have added : Schema.addFields ⟨schema.name, []⟩ schema.fields = .ok schema := addFields_eq distinct
      rw [added]
      rfl
    have declared : d.annotation.isEmpty = false := by simpa using some
    simp only [resolveSchema, name, declared, inline]
    rfl
  | referenced registry e name none schemas there same =>
    have found : (r.schemas.bind fun s => s.get? schema.name) = some e := by rw [schemas, Option.bind_some, there]
    simp only [resolveSchema, name, none, found, same]
    rfl

/-- The edge that a document makes of a declaration. -/
def NotedAs (e : EdgeSpec) (f : Edge) : Prop :=
  ∃ conditionName, f = { e.edge with pathMap := e.edge.pathMap.filter fun ps => !ps.isEmpty, conditionName }

theorem NotedAs.plain_eq {e : EdgeSpec} {f : Edge} (h : NotedAs e f) : f.plain = e.edge.plain := by
  obtain ⟨name, rfl⟩ := h
  have twice : (e.edge.pathMap.filter fun ps => !ps.isEmpty).filter (fun ps => !ps.isEmpty) =
      e.edge.pathMap.filter fun ps => !ps.isEmpty := by
    cases e.edge.pathMap with
    | none => rfl
    | some paths => cases paths <;> rfl
  simp only [Edge.plain, Edge.bare, twice]

/-- An edge that has somewhere to lead has no labels that label nothing. -/
theorem NotedAs.bare_eq {e : EdgeSpec} {f : Edge} (h : NotedAs e f) {ids : List String}
    (sound : Graph.edgeProblems ids e.edge = []) : f.bare = e.edge.bare := by
  obtain ⟨name, rfl⟩ := h
  have kept : (e.edge.pathMap.filter fun ps => !ps.isEmpty) = e.edge.pathMap := by
    cases e with
    | normal => rfl
    | conditional source name called condition choices =>
      cases choices with
      | targets => rfl
      | labelled paths =>
        cases paths with
        | cons => rfl
        | nil =>
          -- Without labels there is nothing to choose from, which is a problem.
          have choice := (List.append_eq_nil_iff.mp sound).2
          simp [EdgeSpec.edge, Draft.conditional, Graph.choiceProblems] at choice
  simp only [Edge.bare, kept]

theorem edges_eq {specs : List EdgeSpec} {decls : List EdgeDecl} (known : ∀ e ∈ specs, e.Known r.conditions)
    (h : List.Forall₂ (fun (e : EdgeSpec) decl => decl ∈ e.decls) specs decls) :
    ∃ edges, List.Forall₂ NotedAs specs edges ∧ (decls.map (edgeOf r.conditions)).filterMap (·.1) = edges ∧
      (decls.map (edgeOf r.conditions)).flatMap (·.2) = [] := by
  induction h with
  | nil => exact ⟨[], .nil, rfl, rfl⟩
  | @cons e decl specs decls first _ ih =>
    rw [List.forall_mem_cons] at known
    obtain ⟨name, made⟩ := edgeOf_eq known.1 first
    obtain ⟨edges, noted, found, sound⟩ := ih known.2
    refine ⟨_ :: edges, .cons ⟨name, rfl⟩ noted, ?_, ?_⟩
    · rw [List.map_cons, made, List.filterMap_cons, found]
    · rw [List.map_cons, made, List.flatMap_cons, sound]
      rfl

theorem map_eq_of_forall₂ {α β γ : Type} {f : α → γ} {g : β → γ} {xs : List α} {ys : List β}
    (h : List.Forall₂ (fun x y => g y = f x) xs ys) : ys.map g = xs.map f := by
  induction h with
  | nil => rfl
  | cons first _ ih => rw [List.map_cons, List.map_cons, first, ih]

/-- A document that writes down what can be declared can be read. -/
theorem Writes.stands (writes : d.Writes r schema calls) (sensible : Draft.Sensible r calls) : d.Stands where
  fields := writes.fields
  nodes n hn := by
    rw [writes.nodes] at hn
    obtain ⟨spec, hspec, rfl⟩ := List.mem_map.mp hn
    have named := (sensible.named spec hspec).1
    cases spec <;> exact named
  edges e he := by
    have sources : d.edges.map EdgeDecl.source = (Draft.edgesOf calls).map EdgeSpec.source :=
      map_eq_of_forall₂ (writes.edges.imp fun _ _ => EdgeSpec.source_of_mem_decls)
    have there : e.source ∈ (Draft.edgesOf calls).map EdgeSpec.source := sources ▸ List.mem_map_of_mem he
    obtain ⟨spec, hspec, same⟩ := List.mem_map.mp there
    exact same ▸ sensible.sources spec hspec
  graph := writes.graph

/-- A value that is read as a document which writes the calls down agrees with them. -/
theorem compile_agrees_of_load {v : Value} (loads : load v = .ok d) (writes : d.Writes r schema calls)
    (sensible : Draft.Sensible r calls) :
    Agree (compile r v).2 (Draft.make schema calls d.stateGraph.checkpointer) := by
  have drafted := Draft.makeAll_eq (d := { schema }) sensible.distinct sensible.named sensible.nodes
    fun _ _ => List.not_mem_nil
  have made : Draft.make schema calls d.stateGraph.checkpointer =
      Graph.build schema.name schema ((Draft.nodesOf calls).map NodeSpec.node) ((Draft.edgesOf calls).map EdgeSpec.edge)
        d.stateGraph.checkpointer := by
    rw [Draft.make, drafted]
    rfl
  obtain ⟨edges, written, found, sound⟩ := edges_eq sensible.edges writes.edges
  have nodes : nodesOf r.handlers [] d.nodes = ((Draft.nodesOf calls).map noted, []) := by
    rw [writes.nodes]
    exact nodesOf_eq sensible.nodes sensible.distinct fun _ _ => List.not_mem_nil
  have built : build r d schema = Graph.build schema.name schema ((Draft.nodesOf calls).map noted) edges
      d.stateGraph.checkpointer := by
    rw [build, nodes]
    simp only [found, sound, writes.store, List.nil_append]
    cases problems : Graph.problems schema ((Draft.nodesOf calls).map noted) edges with
    | nil => rfl
    | cons => rw [Graph.build, problems]; rfl
  have compiled : (compile r v).2 = build r d schema := by
    have resolved := writes.schema.resolveSchema_eq
    cases h : resolveSchema r d with
    | mk schemas result =>
      rw [h] at resolved
      obtain rfl : result = .ok schema := resolved
      simp only [compile, loads, h]
  rw [compiled, made, built]
  refine Graph.build_agree ?_ ?_ fun none => ?_
  · rw [List.map_map, List.map_map]
    exact List.map_congr_left fun n _ => bare_noted n
  · rw [List.map_map]
    exact map_eq_of_forall₂ (written.imp fun _ _ h => h.plain_eq)
  · have fits : ∀ e ∈ Draft.edgesOf calls, Graph.edgeProblems
        (((Draft.nodesOf calls).map NodeSpec.node).map Node.id) e.edge = [] := by
      simp only [Graph.problems, List.append_eq_nil_iff, List.flatMap_eq_nil_iff, List.forall_mem_map] at none
      exact none.1.1.1.1.2
    rw [List.map_map]
    exact map_eq_of_forall₂ (((List.forall₂_and_left _ _).mpr ⟨fits, written⟩).imp fun _ _ h => h.2.bare_eq h.1)

end Document

/-! ### A document and its calls -/

namespace Wordy

def asking : Logic := fun _ _ => .done (.update (.ofFields [("words", .str "yes")]))

def enough : Condition := fun _ => .ok (.str "yes")

def registries : Document.Registries := { handlers := [("asking", asking)], conditions := [("enough", enough)] }

def schema : Schema := ⟨"State", [⟨"words", ⟨"array", some [.list, .tuple]⟩, .concatenate, .list [], false⟩]⟩

/-- Nodes and edges as they come. -/
def calls : List Draft.Call :=
  [.node (.function "ask" "asking" asking [("mcp", true)]), .edge (.normal "__start__" "ask"),
    .node (.tool "serve" "words" []), .edge (.normal "ask" "serve"),
    .edge (.conditional "serve" "enough" "enough" enough (.labelled [("no", "ask"), ("yes", "__end__")]))]

/-- The annotation of the schema in a document. -/
def words : Value :=
  .ofFields [("words", .ofFields [("type", .str "array"), ("reducer", .str "concat"), ("default", .list [])])]

/-- The document that writes the calls down. -/
def document : Value :=
  .ofFields
    [("annotation", words),
      ("nodes", .list
        [.ofFields [("id", .str "ask"), ("handler", .str "asking"), ("capabilities", .ofFields [("mcp", .bool true)])],
          .ofFields [("id", .str "serve"), ("kind", .str "tool"), ("messagesKey", .str "words")]]),
      ("edges", .list
        [.ofFields [("from", .str "__start__"), ("to", .str "ask")],
          .ofFields [("from", .str "ask"), ("to", .str "serve")],
          .ofFields [("from", .str "serve"), ("condition", .str "enough"),
            ("possibleTargets", .ofFields [("no", .str "ask"), ("yes", .str "__end__")])]])]

/-- What the document says. -/
def declared : Document where
  annotation := [("words", { type := "array", reducer := some "concat", default := .list []
                             given := ["type", "reducer", "default"] })]
  nodes :=
    [{ id := "ask", handler := some "asking", capabilities := [("mcp", true)] },
      { id := "serve", kind := .tool, messagesKey := "words" }]
  edges :=
    [{ source := "__start__", target := some "ask" }, { source := "ask", target := some "serve" },
      { source := "serve", condition := some "enough"
        possible := some (.labelled [("no", "ask"), ("yes", "__end__")]) }]

theorem load_document : Document.load document = .ok declared := rfl

theorem writes_declared : declared.Writes registries schema calls where
  schema := .inlined rfl (List.cons_ne_nil _ _) (.cons rfl .nil) (List.nodup_singleton _)
  nodes := rfl
  edges := .cons List.mem_cons_self (.cons List.mem_cons_self (.cons List.mem_cons_self .nil))
  fields f hf := by
    rw [List.mem_singleton.mp hf]
    exact ⟨rfl, fun h => absurd (by decide) h, fun h => absurd (by decide) h, fun h => absurd (by decide) h, fun _ => rfl⟩
  graph := ⟨nofun, nofun⟩
  store := rfl

theorem sensible_calls : Draft.Sensible registries calls := by
  refine ⟨by decide, by decide, ?_, by decide, ?_⟩
  · simp only [Draft.nodesOf, calls, List.forall_mem_cons]
    exact ⟨⟨by decide, rfl, by decide⟩, List.forall_mem_nil _, List.forall_mem_nil _⟩
  · simp only [Draft.edgesOf, calls, List.forall_mem_cons]
    exact ⟨trivial, trivial, rfl, List.forall_mem_nil _⟩

end Wordy

end Workflow
