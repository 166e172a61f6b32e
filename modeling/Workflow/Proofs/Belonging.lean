import Workflow.Proofs.Final
import Workflow.Proofs.Sound

/-! # The graph of a thread

Checkpoints name the graph that they are of, and engines tell graphs apart by their names. All that is kept of a thread
is under the name of the graph that has started it, whatever engines do with the store, until the thread is deleted
(`StartedBy.belongs`). So engines of graphs of other names neither run the thread nor read it (`strangers_refused`);
those of another graph of the same name do (`namesake_not_refused`). -/

namespace Workflow

namespace Store

variable {s u : Store} {name thread other graph : String} {c : Checkpoint} {n : Nat}

/-- All that is kept of the thread is under the name. -/
structure Belongs (thread name : String) (s : Store) : Prop extends Owned s where
  graph : ∀ {c}, s.Reads thread c → c.graph = .str name

theorem Belongs.write (h : s.Belongs thread name) (own : c.thread = .str other)
    (named : other = thread → c.graph = .str name) : (s.write c).1.Belongs thread name where
  toOwned := h.toOwned.write own
  graph hd := by
    rcases reads_write own hd with hd | ⟨same, written⟩
    · exact h.graph hd
    · exact written.graph (named same.symm)

theorem Belongs.delete (h : s.Belongs thread name) (deleted : s.delete other = .ok (u, n)) : u.Belongs thread name where
  toOwned := h.toOwned.delete deleted
  graph hd := h.graph (reads_delete deleted hd).1

end Store

namespace Surroundings

variable {w : Surroundings} {name thread other graph : String} {snapshot : (id timestamp : Value) → Checkpoint}

/-- What a run writes down is under the name of its graph, or under that of the checkpoint which it writes over. -/
theorem Draws.named (draws : w.Draws graph thread snapshot) (h : w.store.Belongs thread graph) (id timestamp : Value) :
    (snapshot id timestamp).graph = .str graph := by
  cases draws with
  | run => rfl
  | failure load f =>
    have named := h.graph (Store.reads_of_load load)
    exact named

theorem stable_belongs (named : other = thread → graph = name) :
    Stock.Stable graph other fun x => x.store.Belongs thread name where
  save draws h := by
    refine h.write (draws.own h.toOwned _ _) ?_
    rintro rfl
    obtain rfl := named rfl
    exact draws.named h _ _
  logged _ h := h
  deleted h deleted := h.delete deleted

end Surroundings

namespace Engine

variable {g : Engine} {w : Surroundings} {use : Use} {name thread : String} {c : Checkpoint}

/-- Uses of the thread by engines of the name, and all uses of other threads. -/
theorem belongs_use (h : w.store.Belongs thread name) (named : use.thread = thread → g.definition.name = name) :
    (g.use w use).1.store.Belongs thread name :=
  stable_use (Surroundings.stable_belongs named) Store.Belongs.toOwned h

/-- An engine of another name leaves the thread, or deletes it. -/
theorem belongs_use_of_stranger (h : w.store.Belongs thread name) (last : w.store.load thread = .ok (some c))
    (other : g.definition.name ≠ name) (own : use.thread = thread) : (g.use w use).1.store.Belongs thread name := by
  subst own
  by_cases kept : use = .ask (.request (.delete use.thread))
  · rw [kept]
    simp only [Engine.use, answer, delete]
    split
    · exact h
    · rename_i deleted
      exact h.delete deleted
  · have closed : ∀ d, g.lastCheckpoint use.thread w.store = .ok d → d.status ≠ .paused := by
      intro d found
      obtain ⟨load, graph⟩ := lastCheckpoint_eq_ok_iff.mp found
      have graph := (h.graph (Store.reads_of_load load)).symm.trans (Value.eq_str_of_equal graph)
      exact absurd (Value.str.inj graph).symm other
    rw [store_use_of_closed last closed kept]
    exact h

end Engine

namespace Store

variable {s u : Store} {name thread : String} {c : Checkpoint}

/-- Stores of a thread that an engine of a graph of the name has started, where there was none; it was not deleted
    since, whatever else was done by engines of any graphs. -/
inductive StartedBy (name thread : String) : Store → Prop
  | started {g : Engine} {w : Surroundings} (named : g.definition.name = name) (reached : w.store.Reached)
      (new : w.store.load thread = .ok none) (input : Value) (options : CallOptions) :
      StartedBy name thread (g.start thread input options w).1.store
  | evolved {s u : Store} {c : Checkpoint} (h : StartedBy name thread s) (there : s.load thread = .ok (some c))
      (step : s.Evolves (fun _ => True) u) : StartedBy name thread u
  | swept {t : Table} (h : StartedBy name thread (.table t)) (now hours : Float) (perThread : Int) :
      StartedBy name thread (.table (t.sweep now hours perThread).1)

theorem Belongs.evolved (h : s.Belongs thread name) (there : s.load thread = .ok (some c))
    (step : s.Evolves (fun _ => True) u) : u.Belongs thread name := by
  obtain ⟨g, w, use, -, rfl, rfl⟩ := step
  by_cases own : use.thread = thread
  · by_cases named : g.definition.name = name
    · exact Engine.belongs_use h fun _ => named
    · -- The thread is there, so a graph of another name can neither start it nor take it up.
      exact Engine.belongs_use_of_stranger h there named own
  · exact Engine.belongs_use h fun same => absurd same own

/-- Whatever engines do, what is kept of a thread is under the name of the graph that has started it. -/
theorem StartedBy.belongs (h : s.StartedBy name thread) : s.Belongs thread name := by
  induction h with
  | @started g w named reached new input options =>
    have owned := reached.owned
    have none : w.store.Belongs thread name := ⟨owned, fun hc => absurd hc (owned.not_reads new)⟩
    have begun : (g.use w (.ask (.request (.start thread input options)))).1.store.Belongs thread name :=
      Engine.belongs_use none fun _ => named
    exact begun
  | evolved _ there step ih => exact ih.evolved there step
  | swept _ now hours perThread ih =>
    exact ⟨⟨fun hc => ih.own (reads_sweep hc), trivial⟩, fun hc => ih.graph (reads_sweep hc)⟩

end Store

namespace Engine

variable {g : Engine} {w : Surroundings} {name thread : String} {c : Checkpoint}

/-- Calls for a thread that a graph of another name has started are refused, whatever has become of the thread, and they
    leave everything as it is. -/
theorem strangers_refused (started : w.store.StartedBy name thread) (last : w.store.load thread = .ok (some c))
    (other : g.definition.name ≠ name) :
    let refusal : Fault :=
      .failure (.checkpoint s!"Thread {thread} belongs to graph '{name}', not '{g.definition.name}'")
    (∀ value options, g.resume thread value options w = (w, .error refusal)) ∧
    (thread ∉ w.active → g.cancel thread w = (w, .error refusal)) ∧
    g.state thread w = .error refusal ∧ g.outcome thread w = .error refusal ∧
    ∀ input options, ∃ f, g.start thread input options w = (w, .error f) := by
  intro refusal
  have named : c.graph = .str name := started.belongs.graph (Store.reads_of_load last)
  have refused : g.lastCheckpoint thread w.store = .error refusal := by
    have strange : c.graph ≠ .str g.definition.name := by
      rw [named]
      exact fun same => other (Value.str.inj same).symm
    rw [lastCheckpoint_of_other last strange, stranger, named]
    rfl
  refine ⟨fun value options => ?_, fun idle => ?_, ?_, ?_, fun input options => ?_⟩
  · rw [resume, resumption, refused]
    rfl
  · have cancelled : g.serve w (.cancel thread) = (w, .error refusal) := serve_of_lastCheckpoint idle refused
    exact cancelled
  · rw [state, refused]
    rfl
  · rw [outcome, refused]
    rfl
  · obtain ⟨f, refused, -⟩ := g.opening_of_there last input options.overrides
    exact ⟨f, by rw [start, refused]⟩

/-- A graph that tells a word of its own, under a name that is given. -/
def telling (name : String) : Definition where
  name
  schema := ⟨"gathering", [⟨"words", .any, .concatenate, .list [], false⟩]⟩
  nodes := [{ id := "tell", logic := some fun _ _ => .done (.update (.ofFields [("words", .list [.str "b"])])) }]
  edges := [.normal startMarker "tell", .normal "tell" endMarker]

theorem telling_compiled {name : String} (named : name.isEmpty = false) : (telling name).Compiled := by
  have h : Draft.compile ⟨(telling name).schema, (telling name).nodes, (telling name).edges⟩ name = .ok (telling name) := by
    rw [Draft.compile, named]
    rfl
  exact .ofDraft h

/-- An engine of a graph that waits for words. -/
def inquirer : Engine := { definition := .inquiry }

/-- The surroundings in which a thread was started and waits for a word. -/
def inquired : Surroundings := (inquirer.start "t" .null {} {}).1

theorem startedBy_inquired : inquired.store.StartedBy inquirer.definition.name "t" := by
  have new : (Store.memory []).Reached := .unused (.inl rfl)
  exact .started (w := {}) rfl new rfl .null {}

theorem strangers_refused_telling :
    let g : Engine := { definition := telling "telling" }
    let refusal : Fault := .failure (.checkpoint "Thread t belongs to graph 'gathering', not 'telling'")
    g.definition.Compiled ∧ ∃ c, inquired.store.load "t" = .ok (some c) ∧ c.status = .paused ∧
      (∀ value options, g.resume "t" value options inquired = (inquired, .error refusal)) ∧
      ("t" ∉ inquired.active → g.cancel "t" inquired = (inquired, .error refusal)) ∧
      g.state "t" inquired = .error refusal ∧ g.outcome "t" inquired = .error refusal ∧
      ∀ input options, ∃ f, g.start "t" input options inquired = (inquired, .error f) := by
  intro g refusal
  obtain ⟨c, last, paused⟩ : ∃ c, inquired.store.load "t" = .ok (some c) ∧ c.status = .paused :=
    exists_of_answer (by decide +kernel)
  have other : g.definition.name ≠ inquirer.definition.name := by decide
  exact ⟨telling_compiled rfl, c, last, paused, strangers_refused startedBy_inquired last other⟩

/-- A graph of other nodes under the same name takes the thread up, has no node where it stands, and tells of its state. -/
theorem namesake_not_refused :
    let namesake : Engine := { definition := telling "gathering" }
    inquirer.definition.Compiled ∧ namesake.definition.Compiled ∧
    inquirer.definition.nodeIds ≠ namesake.definition.nodeIds ∧
    inquired.store.StartedBy inquirer.definition.name "t" ∧
    (inquired.store.load "t").toOption.join.map Checkpoint.status = some .paused ∧
    (namesake.resume "t" (.str "tick") {} inquired).2 = .error (.key (.str "ask")) ∧
    namesake.state "t" inquired = .ok (.ofFields [("words", .list [])]) :=
  ⟨Definition.gathering_compiled _, telling_compiled rfl, by decide, startedBy_inquired, by decide +kernel, rfl, rfl⟩

end Engine

end Workflow
