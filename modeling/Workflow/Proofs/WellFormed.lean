import Mathlib.Data.List.Nodup
import Mathlib.Data.List.Perm.Subperm
import Mathlib.Logic.Relation
import Workflow.Proofs.Histories

/-! The rules for graphs as relations between nodes, edges and places, beside the check that names the problems of those
    that break them. Main statement: the check finds no problem exactly if the nodes and edges are well-formed, and the
    graph that is built from them then keeps each edge (`problems_exact`). Its hard part is that the exploration from the
    entry, with a stack and one visit to each node, finds whatever edges lead to (`mem_reachable_iff`). -/

namespace Workflow

/-! ### The rules -/

/-- A node has a name of its own and what its kind needs. -/
structure Node.Fits (schema : Schema) (n : Node) : Prop where
  not_start : n.id ≠ startMarker
  not_end : n.id ≠ endMarker
  logic : n.kind = .function → ∃ l, n.logic = some l
  messages : n.kind = .tool → ∃ f ∈ schema.fields, f.name = n.messagesKey

/-- An edge has ends among the nodes and markers, and what its kind needs. -/
structure Edge.Fits (ids : List String) (e : Edge) : Prop where
  source : e.source ∈ ids ∨ e.source = startMarker
  target : e.kind = .normal → ∃ t, e.target = some t ∧ (t ∈ ids ∨ t = endMarker)
  condition : e.kind = .conditional → ∃ c, e.condition = some c
  choice : e.kind = .conditional → e.possible ≠ []
  possible : e.kind = .conditional → ∀ t ∈ e.possible, t ∈ ids ∨ t = endMarker
  labels : e.kind = .conditional → ∀ m, e.pathMap = some m → ∀ p ∈ m, p.2 ∈ e.possible

namespace Graph

/-- Some edge can lead from the one place to the other. -/
def Joined (edges : List Edge) (s t : String) : Prop := ∃ e ∈ edges, e.source = s ∧ e.LeadsTo t

/-- How many edges leave a place. -/
def departures (edges : List Edge) (s : String) : Nat := (edges.map Edge.source).count s

structure WellFormed (schema : Schema) (nodes : List Node) (edges : List Edge) : Prop where
  nonempty : nodes ≠ []
  nodes_fit : ∀ n ∈ nodes, n.Fits schema
  edges_fit : ∀ e ∈ edges, e.Fits (nodes.map Node.id)
  entry : departures edges startMarker = 1
  entry_normal : ∀ e ∈ edges, e.source = startMarker → e.kind = .normal
  onward : ∀ n ∈ nodes, departures edges n.id = 1
  reached : ∀ n ∈ nodes, Relation.ReflTransGen (Joined edges) startMarker n.id

variable {schema : Schema} {nodes : List Node} {edges table : List Edge} {ids visited stack : List String}
  {n : Node} {e : Edge} {s t x : String}

/-! ### Problems of nodes and edges -/

theorem nodeProblems_eq_nil : nodeProblems schema n = [] ↔ n.Fits schema := by
  have reads : schema.has n.messagesKey = true ↔ ∃ f ∈ schema.fields, f.name = n.messagesKey := by
    simp [Schema.has]
  have bound : n.logic.isNone = false ↔ ∃ l, n.logic = some l := by
    cases n.logic <;> simp
  simp only [nodeProblems, isReserved, List.append_eq_nil_iff, ite_eq_right_iff, List.cons_ne_nil, imp_false,
    Bool.or_eq_true, beq_iff_eq, not_or, not_and, Bool.not_eq_true, Bool.not_eq_eq_eq_not, Bool.not_true,
    Bool.not_eq_false, reads, bound]
  constructor
  · rintro ⟨⟨⟨notStart, notEnd⟩, logic⟩, messages⟩
    exact ⟨notStart, notEnd, logic, messages⟩
  · rintro ⟨notStart, notEnd, logic, messages⟩
    exact ⟨⟨⟨notStart, notEnd⟩, logic⟩, messages⟩

theorem isTarget_iff : isTarget ids t = true ↔ t ∈ ids ∨ t = endMarker := by
  simp [isTarget]

/-- The markers are no nodes. -/
structure Free (ids : List String) : Prop where
  start : startMarker ∉ ids
  stop : endMarker ∉ ids

theorem free_of_fits (h : ∀ n ∈ nodes, n.Fits schema) : Free (nodes.map Node.id) := by
  constructor
  · intro mem
    obtain ⟨n, hn, same⟩ := List.mem_map.mp mem
    exact (h n hn).not_start same
  · intro mem
    obtain ⟨n, hn, same⟩ := List.mem_map.mp mem
    exact (h n hn).not_end same

theorem sourceProblems_eq_nil (free : Free ids) :
    sourceProblems ids e = [] ↔ e.source ∈ ids ∨ e.source = startMarker := by
  unfold sourceProblems
  by_cases hend : e.source = endMarker
  · have apart : endMarker ≠ startMarker := by decide
    simp [hend, free.stop, apart]
  · by_cases known : e.source ∈ ids ∨ e.source = startMarker <;> simp [hend, known]

theorem targetProblems_eq_nil (free : Free ids) :
    targetProblems ids e = [] ↔ ∃ t, e.target = some t ∧ (t ∈ ids ∨ t = endMarker) := by
  unfold targetProblems
  cases target : e.target with
  | none => simp
  | some t =>
    by_cases hstart : t = startMarker
    · have apart : startMarker ≠ endMarker := by decide
      simp [hstart, free.start, apart]
    · by_cases known : t ∈ ids ∨ t = endMarker <;> simp [hstart, isTarget_iff, known]

theorem choiceProblems_eq_nil : choiceProblems ids e = [] ↔
    (∃ c, e.condition = some c) ∧ e.possible ≠ [] ∧ (∀ t ∈ e.possible, t ∈ ids ∨ t = endMarker) ∧
      ∀ m, e.pathMap = some m → ∀ p ∈ m, p.2 ∈ e.possible := by
  have bound : e.condition ≠ none ↔ ∃ c, e.condition = some c := Option.ne_none_iff_exists'
  have labels : (∀ p ∈ e.pathMap.getD [], p.2 ∈ e.possible) ↔
      ∀ m, e.pathMap = some m → ∀ p ∈ m, p.2 ∈ e.possible := by
    cases e.pathMap <;> simp
  rw [← bound, ← labels]
  simp [choiceProblems, isTarget_iff]

theorem edgeProblems_eq_nil (free : Free ids) : edgeProblems ids e = [] ↔ e.Fits ids := by
  rw [edgeProblems, List.append_eq_nil_iff, sourceProblems_eq_nil free]
  cases kind : e.kind with
  | normal =>
    rw [targetProblems_eq_nil free]
    constructor
    · rintro ⟨source, target⟩
      exact ⟨source, fun _ => target, by simp [kind], by simp [kind], by simp [kind], by simp [kind]⟩
    · intro fits
      exact ⟨fits.source, fits.target kind⟩
  | conditional =>
    rw [choiceProblems_eq_nil]
    constructor
    · rintro ⟨source, condition, choice, possible, labels⟩
      exact ⟨source, by simp [kind], fun _ => condition, fun _ => choice, fun _ => possible, fun _ => labels⟩
    · intro fits
      exact ⟨fits.source, fits.condition kind, fits.choice kind, fits.possible kind, fits.labels kind⟩

/-! ### How many edges leave a place -/

theorem length_leaving (edges : List Edge) (s : String) : (leaving edges s).length = departures edges s := by
  rw [leaving, departures, List.count_eq_countP, List.countP_map, List.countP_eq_length_filter]
  rfl

theorem mem_leaving : e ∈ leaving edges s ↔ e ∈ edges ∧ e.source = s := by
  simp [leaving]

theorem departures_pos : 0 < departures edges s ↔ ∃ e ∈ edges, e.source = s := by
  simp [departures, List.count_pos_iff]

theorem entryProblems_eq_nil : entryProblems edges = [] ↔
    departures edges startMarker = 1 ∧ ∀ e ∈ edges, e.source = startMarker → e.kind = .normal := by
  have kinds : (∀ e ∈ edges, e.source = startMarker → e.kind = .normal) ↔
      ∀ e ∈ leaving edges startMarker, e.kind = .normal := by
    simp only [mem_leaving, and_imp]
  rw [kinds, ← length_leaving, entryProblems]
  rcases leaving edges startMarker with _ | ⟨e, _ | ⟨f, es⟩⟩ <;> simp

theorem crowdingProblems_eq_nil : crowdingProblems edges = [] ↔ ∀ s, s ≠ startMarker → departures edges s < 2 := by
  have each : ∀ s, (let es := leaving edges s
      if es.length < 2 then []
      else if es.any Edge.isConditional && !es.all Edge.isConditional then
        [s!"Node '{s}' has both a normal and a conditional outgoing edge"]
      else [s!"Node '{s}' has {es.length} outgoing edges"]) = [] ↔ departures edges s < 2 := by
    intro s
    rw [← length_leaving]
    dsimp only
    split
    · rename_i few
      simpa using few
    · rename_i many
      split <;> simpa using many
  simp only [crowdingProblems, List.flatMap_eq_nil_iff, each, List.mem_filter, sources, List.mem_eraseDups, bne_iff_ne]
  refine ⟨fun h s hs => ?_, fun h s hs => h s hs.2⟩
  by_cases mem : s ∈ edges.map Edge.source
  · exact h s ⟨mem, hs⟩
  · rw [departures, List.count_eq_zero_of_not_mem mem]
    decide

theorem deadEndProblems_eq_nil : deadEndProblems ids edges = [] ↔ ∀ id ∈ ids, 0 < departures edges id := by
  simp [deadEndProblems, departures_pos]

/-! ### Following edges -/

theorem passed_iff : (visited.contains t || t == endMarker || !ids.contains t) = true ↔
    t ∈ visited ∨ t = endMarker ∨ t ∉ ids := by
  simp [or_assoc]

theorem fresh_iff : ¬ (visited.contains t || t == endMarker || !ids.contains t) = true ↔
    t ∉ visited ∧ t ≠ endMarker ∧ t ∈ ids := by
  rw [passed_iff]
  tauto

theorem explore_nil : explore ids edges visited [] = visited := by rw [explore]

theorem explore_passed (h : t ∈ visited ∨ t = endMarker ∨ t ∉ ids) :
    explore ids edges visited (t :: stack) = explore ids edges visited stack := by
  rw [explore, if_pos (passed_iff.mpr h)]

theorem explore_fresh (h : t ∉ visited ∧ t ≠ endMarker ∧ t ∈ ids) :
    explore ids edges visited (t :: stack) =
      explore ids edges (t :: visited) ((successors edges t).reverse ++ stack) := by
  rw [explore, if_neg (fresh_iff.mpr h)]

/-- Induction along the exploration: the stack is empty, its first place is passed over, or it is visited. -/
theorem explore_induction (ids : List String) (edges : List Edge) {P : List String → List String → Prop}
    (empty : ∀ visited, P visited [])
    (passed : ∀ visited t stack, t ∈ visited ∨ t = endMarker ∨ t ∉ ids → P visited stack → P visited (t :: stack))
    (fresh : ∀ visited t stack, t ∉ visited ∧ t ≠ endMarker ∧ t ∈ ids →
      P (t :: visited) ((successors edges t).reverse ++ stack) → P visited (t :: stack))
    (visited stack : List String) : P visited stack := by
  induction visited, stack using explore.induct ids edges with
  | case1 visited => exact empty visited
  | case2 visited t stack known ih => exact passed visited t stack (passed_iff.mp known) ih
  | case3 visited t stack new ih => exact fresh visited t stack (fresh_iff.mp new) ih

theorem subset_explore (h : x ∈ visited) (stack : List String) : x ∈ explore ids edges visited stack := by
  induction visited, stack using explore_induction ids edges with
  | empty visited => rwa [explore_nil]
  | passed visited t stack known ih => rw [explore_passed known]; exact ih h
  | fresh visited t stack new ih =>
    rw [explore_fresh new]
    exact ih (List.mem_cons_of_mem t h)

/-- Every node on the stack is visited in the end. -/
theorem mem_explore_of_mem_stack (visited : List String) (h : x ∈ stack) (node : x ∈ ids) (notEnd : x ≠ endMarker) :
    x ∈ explore ids edges visited stack := by
  induction visited, stack using explore_induction ids edges with
  | empty visited => cases h
  | passed visited t stack known ih =>
    rw [explore_passed known]
    rcases List.mem_cons.mp h with rfl | later
    · exact subset_explore (known.resolve_right (by simp [node, notEnd])) stack
    · exact ih later
  | fresh visited t stack new ih =>
    rw [explore_fresh new]
    rcases List.mem_cons.mp h with rfl | later
    · exact subset_explore List.mem_cons_self _
    · exact ih (List.mem_append_right _ later)

/-- Nodes that edges from visited ones lead to are visited, or on the stack. -/
def Covered (ids : List String) (edges : List Edge) (visited stack : List String) : Prop :=
  ∀ x ∈ visited, ∀ t ∈ successors edges x, t ∈ ids → t ≠ endMarker → t ∈ visited ∨ t ∈ stack

/-- What is covered stays covered, so that nothing is left to follow when the stack is empty. -/
theorem covered_explore (h : Covered ids edges visited stack) : Covered ids edges (explore ids edges visited stack) [] := by
  induction visited, stack using explore_induction ids edges with
  | empty visited => rwa [explore_nil]
  | passed visited t stack known ih =>
    rw [explore_passed known]
    refine ih fun x hx u hu node notEnd => ?_
    rcases h x hx u hu node notEnd with seen | top
    · exact .inl seen
    · rcases List.mem_cons.mp top with rfl | later
      · exact .inl (known.resolve_right (by simp [node, notEnd]))
      · exact .inr later
  | fresh visited t stack new ih =>
    rw [explore_fresh new]
    refine ih fun x hx u hu node' notEnd' => ?_
    rcases List.mem_cons.mp hx with rfl | before
    · exact .inr (List.mem_append_left stack (List.mem_reverse.mpr hu))
    · rcases h x before u hu node' notEnd' with seen | top
      · exact .inl (List.mem_cons_of_mem t seen)
      · rcases List.mem_cons.mp top with rfl | later
        · exact .inl List.mem_cons_self
        · exact .inr (List.mem_append_right _ later)

/-- What holds of the places on the stack and goes over to successors holds of all that is visited. -/
theorem forall_mem_explore {P : String → Prop} (step : ∀ x t, P x → t ∈ successors edges x → P t)
    (old : ∀ x ∈ visited, P x) (due : ∀ x ∈ stack, P x) : ∀ x ∈ explore ids edges visited stack, P x := by
  induction visited, stack using explore_induction ids edges with
  | empty visited => rwa [explore_nil]
  | passed visited t stack known ih =>
    rw [explore_passed known]
    exact ih old fun x hx => due x (List.mem_cons_of_mem t hx)
  | fresh visited t stack new ih =>
    rw [explore_fresh new]
    have here : P t := due t List.mem_cons_self
    refine ih (fun x hx => ?_) fun x hx => ?_
    · rcases List.mem_cons.mp hx with rfl | before
      · exact here
      · exact old x before
    · rcases List.mem_append.mp hx with next | later
      · exact step t x here (List.mem_reverse.mp next)
      · exact due x (List.mem_cons_of_mem t later)

/-- Nodes that edges from reachable ones lead to are reachable. -/
theorem covered_reachable (ids : List String) (edges : List Edge) : Covered ids edges (reachable ids edges) [] :=
  covered_explore fun _ hx => nomatch hx

theorem mem_targets_of_leadsTo (h : e.LeadsTo t) (named : t ≠ "") : t ∈ e.targets := by
  cases kind : e.kind <;> simp only [Edge.LeadsTo, kind] at h
  · simp [Edge.targets, kind, Edge.fixedTarget?, h, named]
  · simpa [Edge.targets, kind] using h

theorem leadsTo_of_mem_targets (h : t ∈ e.targets) : e.LeadsTo t := by
  cases kind : e.kind <;> simp only [Edge.targets, kind] at h
  · simp only [Edge.fixedTarget?, Option.mem_toList, Option.filter_eq_some_iff] at h
    simpa only [Edge.LeadsTo, kind] using h.1
  · simpa only [Edge.LeadsTo, kind] using h

/-- An edge by the rules leads to nodes and to the end. -/
theorem isPlace_of_leadsTo (fits : e.Fits ids) (leads : e.LeadsTo t) : t ∈ ids ∨ t = endMarker := by
  cases kind : e.kind <;> simp only [Edge.LeadsTo, kind] at leads
  · obtain ⟨u, hu, place⟩ := fits.target kind
    obtain rfl : t = u := by simpa [leads] using hu
    exact place
  · exact fits.possible kind t leads

theorem joined_of_mem_successors (h : t ∈ successors edges s) : Joined edges s t := by
  obtain ⟨e, leaves, target⟩ := List.mem_flatMap.mp h
  obtain ⟨mem, source⟩ := mem_leaving.mp leaves
  exact ⟨e, mem, source, leadsTo_of_mem_targets target⟩

/-- The nodes that are found are those that edges lead to from the entry. -/
theorem mem_reachable_iff (named : ∀ id ∈ ids, id ≠ "") (free : Free ids) (fits : ∀ e ∈ edges, e.Fits ids)
    (normal : ∀ e ∈ edges, e.source = startMarker → e.kind = .normal) (hx : x ∈ ids) :
    x ∈ reachable ids edges ↔ Relation.ReflTransGen (Joined edges) startMarker x := by
  constructor
  · refine forall_mem_explore (fun y z path next => path.tail (joined_of_mem_successors next))
      (fun _ hy => nomatch hy) (fun y hy => ?_) x
    obtain ⟨e, leaves, target⟩ := List.mem_filterMap.mp (List.mem_reverse.mp hy)
    obtain ⟨mem, source⟩ := mem_leaving.mp leaves
    have target : y ∈ e.targets := by simp [Edge.targets, normal e mem source, target]
    exact .single ⟨e, mem, source, leadsTo_of_mem_targets target⟩
  · intro path
    -- A path from the entry goes through nodes that are found, and can end at the end marker.
    suffices ∀ y, Relation.ReflTransGen (Joined edges) startMarker y →
        y = startMarker ∨ y = endMarker ∨ y ∈ reachable ids edges by
      rcases this x path with rfl | rfl | found
      · exact absurd hx free.start
      · exact absurd hx free.stop
      · exact found
    intro y path
    induction path with
    | refl => exact .inl rfl
    | @tail y z _ joined ih =>
      obtain ⟨e, mem, source, leads⟩ := joined
      right
      rcases isPlace_of_leadsTo (fits e mem) leads with node | stop
      · right
        have target := mem_targets_of_leadsTo leads (named z node)
        have notEnd : z ≠ endMarker := fun same => free.stop (same ▸ node)
        rcases ih with rfl | rfl | found
        · refine mem_explore_of_mem_stack [] (List.mem_reverse.mpr ?_) node notEnd
          refine List.mem_filterMap.mpr ⟨e, mem_leaving.mpr ⟨mem, source⟩, ?_⟩
          simpa [Edge.targets, normal e mem source] using target
        · rcases (fits e mem).source with bad | bad
          · exact absurd (source ▸ bad) free.stop
          · exact absurd (source.symm.trans bad) (by decide)
        · have next := List.mem_flatMap.mpr ⟨e, mem_leaving.mpr ⟨mem, source⟩, target⟩
          exact (covered_reachable ids edges y found z next node notEnd).resolve_right List.not_mem_nil
      · exact .inl stop

theorem reachProblems_eq_nil : reachProblems ids edges = [] ↔ ∀ id ∈ ids, id ∈ reachable ids edges := by
  simp [reachProblems]

/-! ### Graphs without problems -/

theorem problems_eq_nil_iff (named : ∀ n ∈ nodes, n.id ≠ "") :
    problems schema nodes edges = [] ↔ WellFormed schema nodes edges := by
  have named' : ∀ id ∈ nodes.map Node.id, id ≠ "" := by simpa using named
  simp only [problems, List.append_eq_nil_iff, List.flatMap_eq_nil_iff, nodeProblems_eq_nil, entryProblems_eq_nil,
    crowdingProblems_eq_nil, deadEndProblems_eq_nil, reachProblems_eq_nil, ite_eq_right_iff, List.cons_ne_nil,
    imp_false, List.isEmpty_iff]
  constructor
  · rintro ⟨⟨⟨⟨⟨⟨nonempty, fitNodes⟩, clean⟩, entry, normal⟩, crowding⟩, deadEnds⟩, reached⟩
    have free := free_of_fits fitNodes
    have fits : ∀ e ∈ edges, e.Fits (nodes.map Node.id) := fun e he => (edgeProblems_eq_nil free).mp (clean e he)
    refine ⟨nonempty, fitNodes, fits, entry, normal, fun n hn => ?_, fun n hn => ?_⟩
    · have few := crowding n.id (fitNodes n hn).not_start
      have many := deadEnds n.id (List.mem_map_of_mem hn)
      omega
    · have mem := List.mem_map_of_mem (f := Node.id) hn
      exact (mem_reachable_iff named' free fits normal mem).mp (reached n.id mem)
  · rintro ⟨nonempty, fitNodes, fits, entry, normal, onward, reached⟩
    have free := free_of_fits fitNodes
    have clean : ∀ e ∈ edges, edgeProblems (nodes.map Node.id) e = [] :=
      fun e he => (edgeProblems_eq_nil free).mpr (fits e he)
    refine ⟨⟨⟨⟨⟨⟨nonempty, fitNodes⟩, clean⟩, entry, normal⟩, ?_⟩, ?_⟩, ?_⟩
    · intro s hs
      by_cases leaves : 0 < departures edges s
      · obtain ⟨e, he, rfl⟩ := departures_pos.mp leaves
        rcases (fits e he).source with node | start
        · obtain ⟨n, hn, same⟩ := List.mem_map.mp node
          rw [← same, onward n hn]
          decide
        · exact absurd start hs
      · omega
    · intro id hid
      obtain ⟨n, hn, rfl⟩ := List.mem_map.mp hid
      rw [onward n hn]
      decide
    · intro id hid
      obtain ⟨n, hn, rfl⟩ := List.mem_map.mp hid
      exact (mem_reachable_iff named' free fits normal hid).mpr (reached n hn)

theorem WellFormed.sources_nodup (h : WellFormed schema nodes edges) : (edges.map Edge.source).Nodup := by
  refine List.nodup_iff_count_le_one.mpr fun s => ?_
  by_cases leaves : 0 < departures edges s
  · obtain ⟨e, he, rfl⟩ := departures_pos.mp leaves
    rcases (h.edges_fit e he).source with node | start
    · obtain ⟨n, hn, same⟩ := List.mem_map.mp node
      exact Nat.le_of_eq (same ▸ h.onward n hn)
    · exact Nat.le_of_eq (start ▸ h.entry)
  · rw [← departures]
    omega

theorem WellFormed.mem_sources_iff (h : WellFormed schema nodes edges) :
    s ∈ edges.map Edge.source ↔ s ∈ nodes.map Node.id ∨ s = startMarker := by
  constructor
  · intro mem
    obtain ⟨e, he, rfl⟩ := List.mem_map.mp mem
    exact (h.edges_fit e he).source
  · rintro (node | rfl)
    · obtain ⟨n, hn, rfl⟩ := List.mem_map.mp node
      exact List.count_pos_iff.mp (by rw [← departures, h.onward n hn]; decide)
    · exact List.count_pos_iff.mp (by rw [← departures, h.entry]; decide)

/-- Edges of different sources are all kept. -/
theorem adjacency_of_nodup (h : ((table ++ edges).map Edge.source).Nodup) : adjacency table edges = table ++ edges := by
  induction edges generalizing table with
  | nil => simp [adjacency]
  | cons e es ih =>
    have absent : ¬ (table.any fun f => f.source == e.source) = true := by
      simp only [List.map_append, List.map_cons, List.nodup_append] at h
      simpa using fun (f : Edge) hf => h.2.2 f.source (List.mem_map_of_mem hf) e.source List.mem_cons_self
    rw [adjacency, if_neg absent, ih (by simpa using h)]
    simp

/-- The check finds no problem exactly if the nodes and edges are well-formed. The graph that is built from them then
    has each of the edges once, one for each node and one for the entry. -/
theorem problems_exact (named : ∀ n ∈ nodes, n.id ≠ "") :
    (problems schema nodes edges = [] ↔ WellFormed schema nodes edges) ∧
    (WellFormed schema nodes edges → ∀ name checkpointer metadata, ∃ d,
      build name schema nodes edges checkpointer metadata = .ok d ∧ d.edges = edges ∧ (d.edges.map Edge.source).Nodup ∧
      (∀ s, s ∈ d.edges.map Edge.source ↔ s ∈ nodes.map Node.id ∨ s = startMarker)) := by
  refine ⟨problems_eq_nil_iff named, fun h name checkpointer metadata => ?_⟩
  have kept : adjacency [] edges = edges := adjacency_of_nodup h.sources_nodup
  refine ⟨{ name, schema, nodes, edges := adjacency [] edges, checkpointer, metadata }, ?_, kept, ?_, fun s => ?_⟩
  · rw [build, (problems_eq_nil_iff named).mpr h]
  · simpa only [kept] using h.sources_nodup
  · simpa only [kept] using h.mem_sources_iff

theorem problems_exact_inquiry :
    let d := Definition.inquiry
    (∀ n ∈ d.nodes, n.id ≠ "") ∧ WellFormed d.schema d.nodes d.edges ∧
    ∃ built, build "words" d.schema d.nodes d.edges none [] = .ok built ∧ built.edges = d.edges ∧
      (built.edges.map Edge.source).Nodup ∧
      ∀ s, s ∈ built.edges.map Edge.source ↔ s ∈ d.nodes.map Node.id ∨ s = startMarker := by
  intro d
  have named : ∀ n ∈ d.nodes, n.id ≠ "" := by
    intro n hn
    obtain rfl := List.mem_singleton.mp hn
    decide
  obtain ⟨exact, kept⟩ : (problems d.schema d.nodes d.edges = [] ↔ WellFormed d.schema d.nodes d.edges) ∧ _ :=
    problems_exact named
  have wellFormed := exact.mp rfl
  exact ⟨named, wellFormed, kept wellFormed "words" none []⟩

end Graph

end Workflow
