import Workflow.Graph.Basic

/-! The rules that nodes and edges have to keep to make a graph, and the problems of those that do not.
    Problems are named in a fixed order: nodes, edges, the entry, the number of edges, reachability. -/

namespace Workflow.Graph

def nodeProblems (schema : Schema) (n : Node) : List String :=
  (if isReserved n.id then [s!"Node id '{n.id}' is reserved"] else []) ++
  (if n.kind = .function ∧ n.logic.isNone then [s!"Function node '{n.id}' has no logic bound"]
    else []) ++
  (if n.kind = .tool ∧ !schema.has n.messagesKey then
    [s!"Tool node '{n.id}' reads unknown state field '{n.messagesKey}'"] else [])

def sourceProblems (ids : List String) (e : Edge) : List String :=
  if e.source = endMarker then ["No edge may leave __end__"]
  else if ids.contains e.source ∨ e.source = startMarker then []
  else [s!"Edge source '{e.source}' not found"]

/-- The id is one that an edge may lead to. -/
def isTarget (ids : List String) (id : String) : Bool := ids.contains id || id == endMarker

/-- Problems of where an edge with a fixed target leads. -/
def targetProblems (ids : List String) (e : Edge) : List String :=
  if e.target = some startMarker then
    [s!"Edge {e.source} -> __start__ may not target __start__"]
  else if (e.target.map (isTarget ids)).getD false then []
  else
    let shown := ((e.target.map Value.str).getD .null).text
    [s!"Edge target '{shown}' not found (from '{e.source}')"]

/-- Problems of where an edge with a condition may lead. -/
def choiceProblems (ids : List String) (e : Edge) : List String :=
  (if e.condition.isNone then [s!"Conditional edge from '{e.source}' has no condition bound"]
    else []) ++
  (if e.possible.isEmpty then
    [s!"Conditional edge from '{e.source}' declares no possible targets"] else []) ++
  ((e.possible.filter fun t => !isTarget ids t).map fun t =>
    s!"Conditional target '{t}' not found (from '{e.source}')") ++
  (((e.pathMap.getD []).filter fun (_, t) => !e.possible.contains t).map fun (l, t) =>
    s!"Path '{l}' -> '{t}' from '{e.source}' is not a possible target")

def edgeProblems (ids : List String) (e : Edge) : List String :=
  sourceProblems ids e ++
    match e.kind with
    | .normal => targetProblems ids e
    | .conditional => choiceProblems ids e

def leaving (edges : List Edge) (source : String) : List Edge :=
  edges.filter fun e => e.source == source

def entryProblems (edges : List Edge) : List String :=
  match leaving edges startMarker with
  | [] => ["No edge leaves __start__ (entry point not set)"]
  | [e] => if e.kind = .normal then [] else ["The edge leaving __start__ must be a normal edge"]
  | es => [s!"Exactly one edge must leave __start__, found {es.length}"]

/-- The sources of edges, each once, in the order of their first edges. -/
def sources (edges : List Edge) : List String := (edges.map Edge.source).eraseDups

/-- Problems of sources with more than one edge. -/
def crowdingProblems (edges : List Edge) : List String :=
  ((sources edges).filter fun s => s != startMarker).flatMap fun s =>
    let es := leaving edges s
    if es.length < 2 then []
    else if es.any Edge.isConditional && !es.all Edge.isConditional then
      [s!"Node '{s}' has both a normal and a conditional outgoing edge"]
    else [s!"Node '{s}' has {es.length} outgoing edges"]

def deadEndProblems (ids : List String) (edges : List Edge) : List String :=
  (ids.filter fun id => !edges.any fun e => e.source == id).map fun id =>
    s!"Node '{id}' has no outgoing edge"

/-! ### Reachability -/

/-- The nodes that a run can start with. -/
def entries (edges : List Edge) : List String :=
  (leaving edges startMarker).filterMap Edge.fixedTarget?

/-- The nodes that one edge leads to from a node. -/
def successors (edges : List Edge) (id : String) : List String :=
  (leaving edges id).flatMap Edge.targets

/-- What is left to follow: each node that has not been visited counts itself and the places it leads to. -/
def burden (ids : List String) (edges : List Edge) (visited : List String) : Nat :=
  ids.foldr (fun id rest => (if id ∈ visited then 0 else (successors edges id).length + 1) + rest) 0

theorem burden_cons_le (ids : List String) (edges : List Edge) (visited : List String) (id : String) :
    burden ids edges (id :: visited) ≤ burden ids edges visited := by
  induction ids with
  | nil => exact Nat.le_refl 0
  | cons i ids ih =>
    simp only [burden, List.foldr_cons, List.mem_cons] at ih ⊢
    by_cases seen : i ∈ visited
    · simpa only [seen, or_true, if_true] using Nat.add_le_add_left ih 0
    · by_cases same : i = id <;> simp only [same, seen, true_or, false_or, if_true, if_false] <;> omega

/-- Visiting a node takes more off than it brings. -/
theorem burden_visit {ids : List String} (edges : List Edge) {visited : List String} {id : String}
    (node : id ∈ ids) (fresh : id ∉ visited) :
    burden ids edges (id :: visited) + ((successors edges id).length + 1) ≤ burden ids edges visited := by
  induction ids with
  | nil => cases node
  | cons i ids ih =>
    by_cases same : i = id
    · subst same
      have rest := burden_cons_le ids edges visited i
      simp only [burden, List.foldr_cons, List.mem_cons, true_or, if_true, fresh, if_false] at rest ⊢
      omega
    · have rest := ih ((List.mem_cons.mp node).resolve_left (Ne.symm same))
      simp only [burden, List.foldr_cons, List.mem_cons, same, false_or] at rest ⊢
      omega

/-- The nodes visited after going on from the places on a stack. A place that was visited before is passed over, and
    so is one that is no node; without that a cycle would be followed for ever. Given graphs can be checked by
    evaluation, so it is not sealed. -/
@[semireducible] def explore (ids : List String) (edges : List Edge) (visited : List String) :
    (stack : List String) → List String
  | [] => visited
  | id :: stack =>
    if visited.contains id || id == endMarker || !ids.contains id then explore ids edges visited stack
    else explore ids edges (id :: visited) ((successors edges id).reverse ++ stack)
termination_by stack => stack.length + burden ids edges visited
decreasing_by
  · simp
  · rename_i fresh
    simp only [Bool.or_eq_true, List.contains_iff_mem, beq_iff_eq, Bool.not_eq_true', not_or, Bool.not_eq_false] at fresh
    have less := burden_visit edges fresh.2 fresh.1.1
    simp only [List.length_append, List.length_reverse, List.length_cons]
    omega

/-- The nodes that can be reached from the entry. -/
def reachable (ids : List String) (edges : List Edge) : List String :=
  explore ids edges [] (entries edges).reverse

def reachProblems (ids : List String) (edges : List Edge) : List String :=
  let seen := reachable ids edges
  (ids.filter fun id => !seen.contains id).map fun id =>
    s!"Node '{id}' is unreachable from __start__"

/-- All problems of nodes with distinct ids and edges over a schema; none for a sound graph. -/
def problems (schema : Schema) (nodes : List Node) (edges : List Edge) : List String :=
  let ids := nodes.map Node.id
  (if nodes.isEmpty then ["Graph has no nodes"] else []) ++
    nodes.flatMap (nodeProblems schema) ++ edges.flatMap (edgeProblems ids) ++
    entryProblems edges ++ crowdingProblems edges ++ deadEndProblems ids edges ++
    reachProblems ids edges

/-- Keeps the last edge of each source, in the order of first edges. -/
def adjacency : List Edge → List Edge → List Edge
  | table, [] => table
  | table, e :: es =>
    if table.any fun f => f.source == e.source then
      adjacency (table.map fun f => if f.source = e.source then e else f) es
    else adjacency (table ++ [e]) es

/-- The graph of nodes with distinct ids and edges, or all of its problems. -/
def build (name : String) (schema : Schema) (nodes : List Node) (edges : List Edge)
    (checkpointer : Option String := none) (metadata : Fields := []) : Except Fault Definition :=
  match problems schema nodes edges with
  | [] => .ok { name, schema, nodes, edges := adjacency [] edges, checkpointer, metadata }
  | ps => .error (.failure (.compilation ps))

end Workflow.Graph
