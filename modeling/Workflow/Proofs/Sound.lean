import Workflow.Document.Compile
import Workflow.Proofs.Walk

/-! What a compiled graph is sure of: its entry and the targets of its edges are places, and every node has
    an edge that leads somewhere in every state. Main statements: compiled graphs are sound
    (`Definition.Compiled.sound`), and a step from a node of a sound graph is not lost, and leads to a place
    if it leads on (`Definition.Sound.turn_cases`). -/

namespace Workflow

namespace Definition

/-- Where a run can be: at a node, or at the end. -/
def IsPlace (d : Definition) (id : String) : Prop := id ∈ d.nodeIds ∨ id = endMarker

/-- A graph that a document or a draft was compiled to. -/
inductive Compiled : Definition → Prop
  | ofDocument {r : Document.Registries} {v : Value} {schemas : Option Schema.Registry} {d : Definition}
      (h : Document.compile r v = (schemas, .ok d)) : Compiled d
  | ofDraft {draft : Draft} {name : String} {checkpointer : Option String} {d : Definition}
      (h : draft.compile name checkpointer = .ok d) : Compiled d

/-- The edge leads to a place, or fails, in every state. -/
def Leads (d : Definition) (e : Edge) : Prop :=
  ∀ state, ∃ r, e.next? state = some r ∧ ∀ t, r = .ok t → d.IsPlace t

/-- Runs of the graph do not lose their way. -/
structure Sound (d : Definition) : Prop where
  entry : ∃ s, d.entryPoint? = some s ∧ d.IsPlace s
  leaves : ∀ id ∈ d.nodeIds, ∃ e, d.outgoing? id = some e ∧ d.Leads e

end Definition

/-! ### What steps fail with -/

theorem Edge.kind_of_next? {e : Edge} {state : State} {f : Failure} (h : e.next? state = some (.error f)) :
    f.kind = .routing := by
  unfold next? at h
  split at h
  · cases ht : e.target <;> simp [ht] at h
  · have hroute : e.route state = .error f := Option.some.inj h
    unfold route select at hroute
    split at hroute
    · cases hroute
      rfl
    · split at hroute
      · cases hroute
        rfl
      · split at hroute <;> cases hroute
        rfl

theorem Edge.isFatal_of_next? {e : Edge} {state : State} {f : Failure} (h : e.next? state = some (.error f)) :
    f.kind.isFatal = true := by
  rw [kind_of_next? h]
  rfl

theorem Node.isOfNode_of_run {n : Node} {ps : Providers} {state : State} {context : NodeContext}
    {effects : Action.Effects} {f : Failure} (h : (n.run ps state context effects).2 = .error f) :
    f.kind.isOfNode = true := by
  unfold run at h
  dsimp only at h
  cases hr : ((n.action state context).run ps n.flags effects).2 with
  | ok o =>
    rw [hr] at h
    cases h
  | error f' =>
    rw [hr] at h
    cases h
    exact n.isOfNode_wrap f'

theorem Node.isFatal_of_run {n : Node} {ps : Providers} {state : State} {context : NodeContext}
    {effects : Action.Effects} {f : Failure} (h : (n.run ps state context effects).2 = .error f) :
    f.kind.isFatal = true :=
  FailureKind.isFatal_of_isOfNode (isOfNode_of_run h)

theorem Execution.isFatal_invalidUpdate (node : String) (f : Fault) :
    (invalidUpdate node f).kind.isFatal = true := rfl

theorem Edge.select_of_route {e : Edge} {state : State} {t : String} (h : e.route state = .ok t) :
    ∃ answer, e.select answer = .ok t := by
  unfold route at h
  split at h
  · cases h
  · split at h
    · cases h
    · exact ⟨_, h⟩

namespace Graph

variable {schema : Schema} {nodes : List Node} {edges table : List Edge} {ids : List String} {e f : Edge}
  {s : String}

/-! ### One edge for each source -/

theorem mem_adjacency (h : f ∈ adjacency table edges) : f ∈ table ∨ f ∈ edges := by
  induction edges generalizing table with
  | nil => exact Or.inl h
  | cons e es ih =>
    unfold adjacency at h
    split at h
    · rcases ih h with h | h
      · obtain ⟨f', hf', heq⟩ := List.mem_map.mp h
        split at heq
        · exact Or.inr (heq ▸ List.mem_cons_self)
        · exact Or.inl (heq ▸ hf')
      · exact Or.inr (List.mem_cons_of_mem e h)
    · rcases ih h with h | h
      · rcases List.mem_append.mp h with h | h
        · exact Or.inl h
        · exact Or.inr (List.mem_singleton.mp h ▸ List.mem_cons_self)
      · exact Or.inr (List.mem_cons_of_mem e h)

theorem sources_replace (e : Edge) (table : List Edge) :
    (table.map fun f => if f.source = e.source then e else f).map Edge.source = table.map Edge.source := by
  rw [List.map_map]
  refine List.map_congr_left fun f _ => ?_
  by_cases hf : f.source = e.source
  · rw [Function.comp_apply, if_pos hf, hf]
  · rw [Function.comp_apply, if_neg hf]

theorem source_mem_adjacency (h : s ∈ table.map Edge.source ∨ s ∈ edges.map Edge.source) :
    s ∈ (adjacency table edges).map Edge.source := by
  induction edges generalizing table with
  | nil =>
    rcases h with h | h
    · exact h
    · cases h
  | cons e es ih =>
    unfold adjacency
    split
    · rename_i hany
      obtain ⟨f, hf, hsource⟩ := List.any_eq_true.mp hany
      refine ih ?_
      rw [sources_replace]
      rcases h with h | h
      · exact Or.inl h
      · rcases List.mem_cons.mp h with rfl | h
        · exact Or.inl (beq_iff_eq.mp hsource ▸ List.mem_map_of_mem hf)
        · exact Or.inr h
    · refine ih ?_
      rw [List.map_append]
      rcases h with h | h
      · exact Or.inl (List.mem_append_left _ h)
      · rcases List.mem_cons.mp h with rfl | h
        · exact Or.inl (List.mem_append_right _ List.mem_cons_self)
        · exact Or.inr h

/-- A source of edges keeps one of them. -/
theorem find?_adjacency (h : e ∈ edges) (hs : e.source = s) :
    ∃ f ∈ edges, f.source = s ∧ (adjacency [] edges).find? (fun f => f.source == s) = some f := by
  have kept : s ∈ (adjacency [] edges).map Edge.source :=
    source_mem_adjacency (Or.inr (List.mem_map.mpr ⟨e, h, hs⟩))
  obtain ⟨f', hf', hsource⟩ := List.mem_map.mp kept
  cases hfind : (adjacency [] edges).find? (fun f => f.source == s) with
  | none => exact absurd (beq_iff_eq.mpr hsource) (List.find?_eq_none.mp hfind f' hf')
  | some f =>
    have hf : (f.source == s) = true := List.find?_some (p := fun f : Edge => f.source == s) hfind
    refine ⟨f, ?_, beq_iff_eq.mp hf, rfl⟩
    rcases mem_adjacency (List.mem_of_find?_eq_some hfind) with h | h
    · cases h
    · exact h

/-! ### What is no problem -/

/-- The rules that bear on runs, of a graph without problems. -/
structure Clean (ids : List String) (edges : List Edge) : Prop where
  each : ∀ e ∈ edges, edgeProblems ids e = []
  entry : entryProblems edges = []
  deadEnds : deadEndProblems ids edges = []

theorem clean_of_problems (h : problems schema nodes edges = []) : Clean (nodes.map Node.id) edges := by
  simp only [problems, List.append_eq_nil_iff, List.flatMap_eq_nil_iff] at h
  obtain ⟨⟨⟨⟨⟨⟨-, -⟩, hedges⟩, hentry⟩, -⟩, hdead⟩, -⟩ := h
  exact ⟨hedges, hentry, hdead⟩

/-- A fixed edge without problems has a target. -/
theorem target_of_normal (h : edgeProblems ids e = []) (hk : e.kind = .normal) :
    ∃ t, e.target = some t ∧ isTarget ids t = true := by
  simp only [edgeProblems, hk, List.append_eq_nil_iff] at h
  have ht := h.2
  unfold targetProblems at ht
  split at ht
  · cases ht
  · split at ht
    · rename_i htarget
      cases hopt : e.target with
      | none =>
        rw [hopt] at htarget
        cases htarget
      | some t =>
        rw [hopt] at htarget
        exact ⟨t, rfl, htarget⟩
    · cases ht

/-- What a condition may select is a target. -/
theorem isTarget_of_possible (h : edgeProblems ids e = []) (hk : e.kind = .conditional) {t : String}
    (ht : t ∈ e.possible) : isTarget ids t = true := by
  simp only [edgeProblems, hk, choiceProblems, List.append_eq_nil_iff, List.map_eq_nil_iff,
    List.filter_eq_nil_iff] at h
  obtain ⟨-, ⟨-, htargets⟩, -⟩ := h
  simpa using htargets t ht

end Graph

namespace Definition

open Workflow.Graph

variable {d : Definition} {id t : String} {e : Edge} {schema : Schema} {nodes : List Node} {edges : List Edge}
  {p : Position}

theorem isPlace_of_isTarget (h : isTarget d.nodeIds t = true) : d.IsPlace t := by
  rcases Bool.or_eq_true_iff.mp h with h | h
  · exact Or.inl (List.contains_iff_mem.mp h)
  · exact Or.inr (beq_iff_eq.mp h)

/-- An edge without problems leads to places. -/
theorem leads_of_edgeProblems (h : edgeProblems d.nodeIds e = []) : d.Leads e := by
  intro state
  unfold Edge.next?
  cases hk : e.kind with
  | normal =>
    obtain ⟨t, ht, htarget⟩ := target_of_normal h hk
    refine ⟨.ok t, by rw [ht]; rfl, fun t' ht' => ?_⟩
    cases ht'
    exact isPlace_of_isTarget htarget
  | conditional =>
    refine ⟨_, rfl, fun t ht => ?_⟩
    obtain ⟨answer, hselect⟩ := Edge.select_of_route ht
    exact isPlace_of_isTarget (isTarget_of_possible h hk (Edge.mem_possible_of_select hselect))

theorem sound_of_clean (h : Clean d.nodeIds edges) (he : d.edges = adjacency [] edges) : d.Sound where
  entry := by
    have hentry := h.entry
    unfold entryProblems at hentry
    split at hentry
    · cases hentry
    · rename_i e hleaving
      -- The only edge from the start is the one that the graph keeps.
      have mem : ∀ {f}, f ∈ edges → f.source = startMarker → f = e := by
        intro f hf hs
        have : f ∈ leaving edges startMarker := List.mem_filter.mpr ⟨hf, beq_iff_eq.mpr hs⟩
        rw [hleaving] at this
        exact List.mem_singleton.mp this
      have hmem : e ∈ leaving edges startMarker := hleaving ▸ List.mem_cons_self
      obtain ⟨hedge, hsource⟩ := List.mem_filter.mp hmem
      obtain ⟨f, hf, hfs, hfind⟩ := find?_adjacency hedge (beq_iff_eq.mp hsource)
      obtain rfl := mem hf hfs
      split at hentry
      · rename_i hk
        obtain ⟨t, ht, htarget⟩ := target_of_normal (h.each f hf) hk
        refine ⟨t, ?_, isPlace_of_isTarget htarget⟩
        rw [entryPoint?, outgoing?, he, hfind]
        exact ht
      · cases hentry
    · cases hentry
  leaves id hid := by
    have hdead := h.deadEnds
    simp only [deadEndProblems, List.map_eq_nil_iff, List.filter_eq_nil_iff, Bool.not_eq_true',
      Bool.not_eq_false] at hdead
    obtain ⟨e, hedge, hsource⟩ := List.any_eq_true.mp (hdead id hid)
    obtain ⟨f, hf, -, hfind⟩ := find?_adjacency hedge (beq_iff_eq.mp hsource)
    refine ⟨f, ?_, leads_of_edgeProblems (h.each f hf)⟩
    rw [outgoing?, he, hfind]

theorem sound_of_build {name : String} {checkpointer : Option String} {metadata : Fields}
    (h : Graph.build name schema nodes edges checkpointer metadata = .ok d) : d.Sound := by
  unfold Graph.build at h
  split at h
  · rename_i hp
    cases h
    exact sound_of_clean (clean_of_problems hp) rfl
  · cases h

theorem Compiled.sound (h : d.Compiled) : d.Sound := by
  cases h with
  | ofDraft h => exact sound_of_build h
  | ofDocument h =>
    unfold Document.compile at h
    split at h
    · cases h
    · split at h
      · cases h
      · have hbuild := congrArg Prod.snd h
        simp only [Document.build] at hbuild
        split at hbuild
        · exact sound_of_build hbuild
        · cases hbuild

/-! ### Nodes and their names -/

theorem id_of_node? {n : Node} (h : d.node? id = some n) : n.id = id := by
  have hb : (n.id == id) = true := List.find?_some (p := fun n : Node => n.id == id) h
  exact beq_iff_eq.mp hb

theorem mem_nodeIds_of_node? {n : Node} (h : d.node? id = some n) : id ∈ d.nodeIds :=
  List.mem_map.mpr ⟨n, List.mem_of_find?_eq_some h, id_of_node? h⟩

theorem node?_of_mem (h : id ∈ d.nodeIds) : ∃ n, d.node? id = some n := by
  obtain ⟨n, hn, hid⟩ := List.mem_map.mp h
  cases hfind : d.node? id with
  | none => exact absurd (beq_iff_eq.mpr hid) (List.find?_eq_none.mp hfind n hn)
  | some n => exact ⟨n, rfl⟩

/-! ### Steps from places -/

/-- A step from a node that has its edge asks for input, fails there for a reason that ends a run, or leads to
    a place. -/
theorem Leads.stride_cases (h : d.Leads e) (he : d.outgoing? p.node = some e) {answer : Except Failure StepOutcome}
    (ha : ∀ f, answer = .error f → f.kind.isFatal = true) :
    (∃ prompt, d.stride p answer = .suspended prompt) ∨
    (∃ q f, d.stride p answer = .failed q f ∧ q.node = p.node ∧ p.step ≤ q.step ∧ f.kind.isFatal = true) ∨
    ∃ q, d.stride p answer = .reached q ∧ d.IsPlace q.node := by
  cases answer with
  | error f => exact Or.inr (Or.inl ⟨p, f, rfl, rfl, Int.le_refl _, ha f rfl⟩)
  | ok o =>
    cases o with
    | suspend prompt => exact Or.inl ⟨prompt, rfl⟩
    | update values =>
      right
      unfold stride
      dsimp only
      cases d.schema.applyValue p.state values with
      | error f => exact Or.inl ⟨p, _, rfl, rfl, Int.le_refl _, Execution.isFatal_invalidUpdate p.node f⟩
      | ok state =>
        obtain ⟨r, hr, hplace⟩ := h state
        rw [he]
        dsimp only
        rw [hr]
        cases r with
        | error f => exact Or.inl ⟨_, f, rfl, rfl, Int.le_add_one (Int.le_refl _), Edge.isFatal_of_next? hr⟩
        | ok t => exact Or.inr ⟨_, rfl, hplace t rfl⟩

/-- At a node of a sound graph no look-up of a step fails, and the step leads to a place if it leads on. -/
theorem Sound.turn_cases (h : d.Sound) (hp : p.node ∈ d.nodeIds) (i : Invocation) (thread : String)
    (calls : CallLog) :
    (∃ prompt, (d.turn i thread p calls).2 = .suspended prompt) ∨
    (∃ q f, (d.turn i thread p calls).2 = .failed q f ∧ q.node = p.node ∧ p.step ≤ q.step ∧
      f.kind.isFatal = true) ∨
    ∃ q, (d.turn i thread p calls).2 = .reached q ∧ d.IsPlace q.node := by
  obtain ⟨n, hn⟩ := node?_of_mem hp
  obtain ⟨e, he, hleads⟩ := h.leaves p.node hp
  have fatal : ∀ f, (n.run i.providers p.state (p.context thread i.entry) { calls }).2 = .error f →
      f.kind.isFatal = true := fun f => Node.isFatal_of_run
  rw [turn, hn]
  exact hleads.stride_cases he fatal

section Turns

variable (h : d.Sound) (hp : p.node ∈ d.nodeIds) {i : Invocation} {thread : String} {calls : CallLog} {q : Position}
include h hp

theorem Sound.turn_ne_lost (f : Fault) : (d.turn i thread p calls).2 ≠ .lost f := by
  rcases h.turn_cases hp i thread calls with ⟨_, hs⟩ | ⟨_, _, hs, -⟩ | ⟨_, hs, -⟩ <;> rw [hs] <;>
    exact Stride.noConfusion

theorem Sound.isPlace_of_reached (hq : (d.turn i thread p calls).2 = .reached q) : d.IsPlace q.node := by
  rcases h.turn_cases hp i thread calls with ⟨_, hs⟩ | ⟨_, _, hs, -⟩ | ⟨_, hs, hplace⟩ <;> rw [hs] at hq <;> cases hq
  exact hplace

theorem Sound.of_failed {f : Failure} (hq : (d.turn i thread p calls).2 = .failed q f) :
    q.node = p.node ∧ p.step ≤ q.step ∧ f.kind.isFatal = true := by
  rcases h.turn_cases hp i thread calls with ⟨_, hs⟩ | ⟨_, _, hs, hf⟩ | ⟨_, hs, -⟩ <;> rw [hs] at hq <;> cases hq
  exact hf

end Turns

theorem Sound.isPlace_of_origin (h : d.Sound) {input : Value} (hp : d.origin? input = some p) : d.IsPlace p.node := by
  obtain ⟨s, hs, hplace⟩ := h.entry
  simp only [origin?, hs, Option.bind_eq_bind, Option.bind_some, Option.bind_eq_some_iff] at hp
  obtain ⟨state, -, hp⟩ := hp
  cases hp
  exact hplace

/-- The walks of a sound graph go from place to place. -/
theorem Sound.isPlace_of_walk (h : d.Sound) {thread : String} {input : Value} {invocations : Nat → Invocation}
    {k : Nat} (hp : d.walk thread input invocations k = some p) : d.IsPlace p.node := by
  cases k with
  | zero => exact h.isPlace_of_origin hp
  | succ k =>
    obtain ⟨q, -, hq⟩ := Option.bind_eq_some_iff.mp hp
    split at hq
    · rename_i r hr
      cases hq
      -- Only a node has steps that reach a position.
      have mem : q.node ∈ d.nodeIds := by
        cases hn : d.node? q.node with
        | none =>
          rw [turn, hn] at hr
          cases hr
        | some n => exact mem_nodeIds_of_node? hn
      exact h.isPlace_of_reached mem hr
    · cases hq

/-! ### A graph that gathers words -/

/-- A graph with one node, which is run until there are two words. -/
def gathering (l : Logic) : Definition where
  name := "gathering"
  schema := ⟨"gathering", [⟨"words", .any, .concatenate, .list [], false⟩]⟩
  nodes := [{ id := "ask", logic := some l }]
  edges := [.normal startMarker "ask",
    { source := "ask", kind := .conditional, possible := ["ask", endMarker]
      condition := some fun s => match s.getD "words" with
        | .list (_ :: _ :: _) => .ok (.str endMarker)
        | _ => .ok (.str "ask") }]

theorem gathering_compiled (l : Logic) : (gathering l).Compiled := by
  have h : Draft.compile ⟨(gathering l).schema, (gathering l).nodes, (gathering l).edges⟩ = .ok (gathering l) := rfl
  exact .ofDraft h

end Definition

/-- Logic that asks for input, and acts when it has been given some. -/
def Logic.asking (prompt : State → Value) (act : State → Value → Action Reply) : Logic := fun s c =>
  if c.resumed then act s c.resumeValue else .done (.suspend (prompt s))

def Definition.inquiry : Definition :=
  gathering (.asking (fun _ => .str "Which word?") fun _ v => .done (.update (.ofFields [("words", v)])))

end Workflow
