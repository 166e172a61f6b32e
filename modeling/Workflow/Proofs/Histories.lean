import Mathlib.Data.List.Chain
import Workflow.Proofs.Life

/-! Histories: the records of a thread in memory, in order. Each of them says one thing about how the run
    stood, and no later one takes back what an earlier one says. Main statement: whatever the nodes do that
    it runs, a loop that finds the records of its thread in order leaves them in order (`Keeps.run`). -/

namespace Workflow

/-! ### Edges and their targets -/

/-- The edge has the target, fixed or to choose. -/
def Edge.LeadsTo (e : Edge) (t : String) : Prop :=
  match e.kind with
  | .normal => e.target = some t
  | .conditional => t ∈ e.possible

theorem Edge.leadsTo_of_next? {e : Edge} {state : State} {t : String} (h : e.next? state = some (.ok t)) :
    e.LeadsTo t := by
  unfold next? at h
  unfold LeadsTo
  cases hk : e.kind <;> rw [hk] at h
  · obtain ⟨t', ht, hok⟩ := Option.map_eq_some_iff.mp h
    cases hok
    exact ht
  · obtain ⟨answer, hs⟩ := Edge.select_of_route (Option.some.inj h)
    exact Edge.mem_possible_of_select hs

/-- A step that leads on takes the edge of its node. -/
theorem Definition.leadsTo_of_reached {d : Definition} {p q : Position} {answer : Except Failure StepOutcome}
    (h : d.stride p answer = .reached q) : ∃ e, d.outgoing? p.node = some e ∧ e.LeadsTo q.node := by
  unfold stride at h
  split at h
  · cases h
  · cases h
  · split at h
    · cases h
    · rename_i state _
      dsimp only at h
      split at h
      · cases h
      · rename_i e he
        split at h
        · cases h
        · cases h
        · rename_i t ht
          cases h
          exact ⟨e, he, Edge.leadsTo_of_next? ht⟩

/-! ### Records in order -/

/-- The record is a run of the graph written down, which has an error only if it failed. -/
def Checkpoint.Written (c : Checkpoint) (d : Definition) (thread : String) : Prop :=
  ∃ (e : Execution) (id time : Value), c = e.checkpoint d.name id time ∧ e.thread = thread ∧
    (e.status ≠ .failed → e.error = none)

/-- What a record says of its status agrees with the rest of it. -/
structure Checkpoint.Consistent (c : Checkpoint) (d : Definition) : Prop where
  pending : c.interrupt.isSome = true ↔ c.status = .paused
  error : c.error ≠ .null ↔ c.status = .failed
  ended : c.status = .completed → c.node = .str endMarker
  /-- A pause before a node, or for what it asks, is told of that node. -/
  before : ∀ i, c.interrupt = some i → i.kind ≠ .after → i.node = c.node
  /-- A pause after a node is told of the last node that ran, and its edge leads to the next one. -/
  after : ∀ i, c.interrupt = some i → i.kind = .after → ∃ id t e, i.node = .str id ∧
    c.history.getLast? = some (.str id) ∧ c.node = .str t ∧ d.outgoing? id = some e ∧ e.LeadsTo t

/-- Each record is consistent, no later one takes back a node that ran, and none follows the end. -/
structure Orderly (d : Definition) (thread : String) (cs : List Checkpoint) : Prop where
  written : ∀ c ∈ cs, c.Written d thread
  consistent : ∀ c ∈ cs, c.Consistent d
  grows : cs.IsChain fun b c => b.history <+: c.history
  closes : ∀ c ∈ cs.dropLast, c.status.isTerminal = false

section Records

variable {d : Definition} {thread : String} {c : Checkpoint} {cs : List Checkpoint} {e : Execution}

theorem Checkpoint.Written.failed (h : c.Written d thread) (f : Failure) (id time : Value) :
    (c.failed f.toValue id time).Written d thread := by
  obtain ⟨e, _, _, rfl, hthread, -⟩ := h
  exact ⟨e.failed f, id, time, rfl, hthread, fun hne => absurd rfl hne⟩

/-- A record that is not of a failure is taken up as the run that it was. -/
theorem Checkpoint.Written.takenUp (h : c.Written d thread) (unfailed : c.status ≠ .failed) :
    ∃ e, Execution.ofCheckpoint c = .ok e ∧ c.Shows e.position ∧ e.thread = thread ∧ e.error = none := by
  obtain ⟨e, id, time, rfl, hthread, hnone⟩ := h
  exact ⟨e, Execution.ofCheckpoint_checkpoint _ _ _ (hnone unfailed), e.shows_checkpoint _ _ _, hthread,
    hnone unfailed⟩

theorem Checkpoint.consistent_failed (c : Checkpoint) (f : Failure) (id time : Value) :
    (c.failed f.toValue id time).Consistent d where
  pending := ⟨fun h => (Bool.false_ne_true h).elim, RunStatus.noConfusion⟩
  error := ⟨fun _ => rfl, fun _ => Value.noConfusion⟩
  ended := RunStatus.noConfusion
  before _ hi := by cases hi
  after _ hi := by cases hi

theorem Checkpoint.consistent_going (unpaused : c.interrupt = none ∧ c.status ≠ .paused)
    (unfailed : c.error = .null ∧ c.status ≠ .failed) (ended : c.status = .completed → c.node = .str endMarker) :
    c.Consistent d where
  pending := by simp [unpaused]
  error := by simp [unfailed]
  ended := ended
  before i hi := by rw [unpaused.1] at hi; cases hi
  after i hi := by rw [unpaused.1] at hi; cases hi

theorem Orderly.nil : Orderly d thread [] :=
  ⟨List.forall_mem_nil _, List.forall_mem_nil _, .nil, List.forall_mem_nil _⟩

theorem Orderly.concat (h : Orderly d thread cs) (hw : c.Written d thread) (hc : c.Consistent d)
    (hlast : ∀ b, cs.getLast? = some b → b.status.isTerminal = false ∧ b.history <+: c.history) :
    Orderly d thread (cs ++ [c]) where
  written := List.forall_mem_append.mpr ⟨h.written, List.forall_mem_singleton.mpr hw⟩
  consistent := List.forall_mem_append.mpr ⟨h.consistent, List.forall_mem_singleton.mpr hc⟩
  grows := by
    refine List.isChain_append.mpr ⟨h.grows, .singleton _, fun b hb c' hc' => ?_⟩
    cases hc'
    exact (hlast b hb).2
  closes := by
    rw [List.dropLast_concat]
    intro b hb
    -- The last record before the new one was not of an end either.
    rcases List.eq_nil_or_concat cs with rfl | ⟨init, last, rfl⟩
    · cases hb
    · rw [List.concat_eq_append] at hb hlast h
      rcases List.mem_append.mp hb with hb | hb
      · exact h.closes b (by rw [List.dropLast_concat]; exact hb)
      · rw [List.mem_singleton.mp hb]
        exact (hlast last List.getLast?_concat).1

end Records

namespace Engine

variable {g : Engine} {thread : String} {p q : Position} {entry : Entry} {w v : Surroundings} {r : Pass} {x : Ended}
  {f : Failure} {metadata : Value}

/-! ### Passes among orderly records -/

/-- The records of a thread are orderly, and the last one is of no end and of no node that the run at a position
    has not run. -/
structure Keeps (g : Engine) (thread : String) (p : Position) (w : Surroundings) : Prop where
  memory : w.InMemory
  orderly : Orderly g.definition thread (w.records thread)
  last : ∀ c, (w.records thread).getLast? = some c →
    c.status.isTerminal = false ∧ c.history <+: p.history.map .str

section Keeping

variable (h : g.Keeps thread p w)
include h

/-- The run is written down after the other records. -/
theorem Keeps.concat {c : Checkpoint} (hw : c.Written g.definition thread) (hc : c.Consistent g.definition)
    (hhist : c.history = p.history.map .str) : Orderly g.definition thread ((w.keep c).records thread) := by
  have own : c.thread = .str thread := by
    obtain ⟨e, _, _, rfl, rfl, -⟩ := hw
    rfl
  rw [Surroundings.records_keep_self h.memory own]
  exact h.orderly.concat hw hc fun b hb => hhist ▸ h.last b hb

theorem Keeps.running (metadata : Value) :
    g.Keeps thread p (w.keep (g.snapshot (p.running thread metadata) w)) := by
  have consistent : (g.snapshot (p.running thread metadata) w).Consistent g.definition :=
    Checkpoint.consistent_going ⟨rfl, RunStatus.noConfusion⟩ ⟨rfl, RunStatus.noConfusion⟩ RunStatus.noConfusion
  refine ⟨h.memory.keep _, h.concat ⟨_, _, _, rfl, rfl, fun _ => rfl⟩ consistent rfl, fun c hc => ?_⟩
  rw [Surroundings.records_keep_self h.memory rfl, List.getLast?_concat] at hc
  cases hc
  exact ⟨rfl, List.prefix_refl _⟩

theorem Keeps.after (entry : Entry) : g.Keeps thread p (g.after (g.passAt thread p entry w)) := by
  have records : (g.after (g.passAt thread p entry w)).records thread = _ :=
    Surroundings.records_absorb_self h.memory thread _
  refine ⟨inMemory_after (q := g.passAt thread p entry w) h.memory, ?_, fun c hc => ?_⟩
  · rw [records]
    split
    · exact .nil
    · exact h.orderly
  · rw [records] at hc
    split at hc
    · cases hc
    · exact h.last c hc

theorem Keeps.told (entry : Entry) (hq : q.history = p.history ++ [p.node]) :
    g.Keeps thread q (g.told (g.passAt thread p entry w) q) := by
  have after := h.after entry
  refine ⟨after.memory.emit _, by rw [records_told]; exact after.orderly, fun c hc => ?_⟩
  rw [records_told] at hc
  obtain ⟨hterm, hpre⟩ := after.last c hc
  refine ⟨hterm, hpre.trans ?_⟩
  rw [hq, List.map_append]
  exact List.prefix_append _ _

theorem Keeps.goes (hgoes : g.Goes (g.passAt thread p entry w) r) :
    ∃ q v, r = g.passAt thread q {} v ∧ g.Keeps thread q v := by
  obtain ⟨q, -, hq, rfl⟩ := hgoes.next_passAt h.memory
  have told := h.told entry (Definition.step_of_turn_reached hq).2
  refine ⟨q, _, rfl, ?_⟩
  unfold noted
  split
  · exact told
  · exact told.running g.config.metadata

theorem Keeps.passes (hgoes : Relation.ReflTransGen g.Goes (g.passAt thread p entry w) r) :
    ∃ q e v, r = g.passAt thread q e v ∧ g.Keeps thread q v := by
  induction hgoes with
  | refl => exact ⟨p, entry, w, rfl, h⟩
  | tail _ hstep ih =>
    obtain ⟨q, e, v, rfl, hq⟩ := ih
    obtain ⟨q', v', rfl, hq'⟩ := hq.goes hstep
    exact ⟨q', {}, v', rfl, hq'⟩

/-! ### Endings -/

/-- A pause is told of the node of the run, or after the last node that ran. -/
theorem Keeps.pause {node : String} {kind : InterruptKind} {prompt : Value}
    (hnode : kind ≠ .after → node = p.node)
    (hafter : kind = .after → p.history.getLast? = some node ∧
      ∃ e, g.definition.outgoing? node = some e ∧ e.LeadsTo p.node) :
    Orderly g.definition thread
      ((g.pause (p.running thread metadata) node kind prompt w).1.records thread) := by
  rw [pause_eq h.memory, Surroundings.records_emit]
  refine h.concat ⟨(p.running thread metadata).paused node kind prompt, _, _, rfl, rfl, fun _ => rfl⟩ ?_ rfl
  refine ⟨⟨fun _ => rfl, fun _ => rfl⟩, ⟨fun hn => absurd rfl hn, RunStatus.noConfusion⟩,
    RunStatus.noConfusion, ?_, ?_⟩
  · rintro _ ⟨⟩ hk
    exact congrArg Value.str (hnode hk)
  · rintro _ ⟨⟩ hk
    obtain ⟨hlast, e, he, hleads⟩ := hafter hk
    refine ⟨node, p.node, e, rfl, ?_, rfl, he, hleads⟩
    show (p.history.map Value.str).getLast? = _
    rw [List.getLast?_map, hlast]
    rfl

theorem Keeps.complete (hnode : p.node = endMarker) :
    Orderly g.definition thread ((g.complete (p.running thread metadata) w).1.records thread) := by
  rw [complete_eq h.memory, Surroundings.records_emitLast]
  refine h.concat ⟨(p.running thread metadata).completed, _, _, rfl, rfl, fun _ => rfl⟩ ?_ rfl
  exact Checkpoint.consistent_going ⟨rfl, RunStatus.noConfusion⟩ ⟨rfl, RunStatus.noConfusion⟩
    fun _ => congrArg Value.str hnode

end Keeping

/-- A failure is written over the last record, or over the run where there is none. -/
theorem orderly_fail {e : Execution} (hm : w.InMemory) (own : e.thread = thread)
    (h : Orderly g.definition thread (w.records thread))
    (hlast : ∀ c, (w.records thread).getLast? = some c → c.status.isTerminal = false) :
    Orderly g.definition thread ((g.fail e f w).1.records thread) := by
  subst own
  rw [fail_eq hm, Surroundings.records_emitLast, Surroundings.records_keep_self hm thread_verdict]
  unfold verdict
  split
  · rename_i last hl
    refine h.concat ((h.written last (List.mem_of_getLast? hl)).failed f _ _) (last.consistent_failed f _ _) ?_
    intro b hb
    cases hl.symm.trans hb
    exact ⟨hlast _ hl, List.prefix_refl _⟩
  · rename_i hn
    rw [List.getLast?_eq_none_iff.mp hn]
    refine Orderly.nil.concat ⟨e.failed f, _, _, rfl, rfl, fun hne => absurd rfl hne⟩ ?_ fun b hb => by cases hb
    exact Checkpoint.consistent_failed (e.checkpoint g.definition.name .null .null) f _ _

theorem Keeps.fail (h : g.Keeps thread p w) {e : Execution} (own : e.thread = thread) :
    Orderly g.definition thread ((g.fail e f w).1.records thread) :=
  orderly_fail h.memory own h.orderly fun c hc => (h.last c hc).1

theorem leadsTo_of_turnAt (hq : (g.turnAt (g.passAt thread p entry w)).2 = .reached q) :
    q.history.getLast? = some p.node ∧ ∃ e, g.definition.outgoing? p.node = some e ∧ e.LeadsTo q.node := by
  have hhist : q.history = p.history ++ [p.node] := (Definition.step_of_turn_reached hq).2
  refine ⟨by rw [hhist, List.getLast?_concat], ?_⟩
  rw [turnAt_passAt, Definition.turn] at hq
  split at hq
  · cases hq
  · exact Definition.leadsTo_of_reached hq

theorem Keeps.ends (h : g.Keeps thread p w) (hends : g.Ends (g.passAt thread p entry w) x) :
    Orderly g.definition thread (x.1.records thread) := by
  have told : ∀ {q}, (g.turnAt (g.passAt thread p entry w)).2 = .reached q →
      g.Keeps thread q (g.told (g.passAt thread p entry w) q) :=
    fun hq => h.told entry (Definition.step_of_turn_reached hq).2
  cases hends with
  | cancelled | exhausted => exact h.fail rfl
  | completed _ hnode => exact h.complete hnode
  | held => exact h.pause (fun _ => rfl) (fun hk => InterruptKind.noConfusion hk)
  | suspended => exact (h.after entry).pause (fun _ => rfl) (fun hk => InterruptKind.noConfusion hk)
  | withdrawn | failed => exact (h.after entry).fail rfl
  | lost => exact (h.after entry).orderly
  | paused _ hq =>
    exact (told hq).pause (fun hk => absurd rfl hk) fun _ => leadsTo_of_turnAt hq
  | revoked _ hq => exact (told hq).fail rfl
  | unsaved _ hq _ _ save =>
    rw [save_snapshot (told hq).memory] at save
    cases save

theorem Keeps.run (h : g.Keeps thread p w) (entry : Entry) :
    Orderly g.definition thread ((g.run (g.passAt thread p entry w)).1.records thread) := by
  obtain ⟨r, hgoes, hends⟩ := g.run_passes (g.passAt thread p entry w)
  obtain ⟨q, e, v, rfl, hq⟩ := h.passes hgoes
  exact hq.ends hends

end Engine

end Workflow
