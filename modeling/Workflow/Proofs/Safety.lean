import Workflow.Proofs.Kept
import Workflow.Proofs.Sound

/-! Compiled graphs do not go wrong. Whatever is asked of an engine, its runs stay on places, what breaks a
    run ends it with a failure, and a request is refused only for what its caller passes or for how its
    thread stands (`compiled_goes_right`). -/

namespace Workflow

/-! ### What is kept -/

/-- The look-ups of a step succeed at a node, whatever state the step leads to. -/
structure Definition.Finds (d : Definition) (id : String) : Prop where
  node : ∃ n, d.node? id = some n
  edge : ∃ e, d.outgoing? id = some e ∧ ∀ state, e.next? state ≠ none

theorem Definition.Sound.finds {d : Definition} {id : String} (h : d.Sound) (hid : id ∈ d.nodeIds) : d.Finds id where
  node := Definition.node?_of_mem hid
  edge := by
    obtain ⟨e, he, hleads⟩ := h.leaves id hid
    refine ⟨e, he, fun state hnone => ?_⟩
    obtain ⟨r, hr, -⟩ := hleads state
    rw [hnone] at hr
    cases hr

/-- A record of a run of the graph, which can be taken up if it is paused. -/
structure Checkpoint.Proper (c : Checkpoint) (d : Definition) : Prop where
  graph : c.graph = .str d.name
  place : ∃ node, c.node = .str node ∧ d.IsPlace node
  nonneg : 0 ≤ c.step
  resumable : c.status = .paused → c.error = .null ∧ (∃ i, c.interrupt = some i) ∧
    ∃ config : Config, c.metadata = config.metadata ∧ 0 < config.recursionLimit

/-- An outcome is of a run that paused for a reason, that was completed, or that failed with one of the failures
    that end runs. -/
def Outcome.Regular (o : Outcome) : Prop :=
  match o.status with
  | .running => False
  | .paused => o.interrupt.isSome = true ∧ o.error = none
  | .completed => o.error = none
  | .failed => ∃ f, o.error = some f ∧ f.kind.isFatal = true

theorem Checkpoint.Proper.failed {c : Checkpoint} {d : Definition} (h : c.Proper d) (error id timestamp : Value) :
    (c.failed error id timestamp).Proper d :=
  ⟨h.graph, h.place, h.nonneg, RunStatus.noConfusion⟩

/-- A paused run is taken up at the place where it stands. -/
theorem Checkpoint.Proper.takenUp {c : Checkpoint} {d : Definition} (h : c.Proper d) (paused : c.status = .paused) :
    ∃ e, Execution.ofCheckpoint c = .ok e ∧ e.metadata = c.metadata ∧ d.IsPlace e.node ∧ 0 ≤ e.step ∧
      ∀ metadata, { e with metadata, interrupt := none, status := .running } =
        e.position.running e.thread metadata := by
  have unfailed : c.failure? = .ok none := by
    rw [failure?, (h.resumable paused).1]
    rfl
  obtain ⟨node, hnode, hplace⟩ := h.place
  rw [Execution.ofCheckpoint, unfailed, hnode]
  exact ⟨_, rfl, rfl, hplace, h.nonneg, fun _ => rfl⟩

namespace Engine

/-- A run stands at a place, and the records of its thread are proper. -/
structure Safe (g : Engine) (thread : String) (p : Position) (w : Surroundings) : Prop where
  memory : w.InMemory
  place : g.definition.IsPlace p.node
  nonneg : 0 ≤ p.step
  proper : ∀ c ∈ w.records thread, c.Proper g.definition

variable {g : Engine} {thread : String} {p q : Position} {entry : Entry} {w v : Surroundings} {r : Pass} {x : Ended}
  {f : Failure}

/-! ### Endings -/

theorem proper_keep (hm : w.InMemory) (hp : ∀ c ∈ w.records thread, c.Proper g.definition) {c : Checkpoint}
    (own : c.thread = .str thread) (hc : c.Proper g.definition) :
    ∀ b ∈ (w.keep c).records thread, b.Proper g.definition := by
  intro b hb
  rw [Surroundings.records_keep_self hm own] at hb
  rcases List.mem_append.mp hb with hb | hb
  · exact hp b hb
  · rw [List.mem_singleton.mp hb]
    exact hc

theorem Safe.pause (h : g.Safe thread p w) (pos : 0 < g.config.recursionLimit) (node : String)
    (kind : InterruptKind) (prompt : Value) :
    (∀ c ∈ (g.pause (p.running thread g.config.metadata) node kind prompt w).1.records thread,
      c.Proper g.definition) ∧
    ∃ o, (g.pause (p.running thread g.config.metadata) node kind prompt w).2 = .ok o ∧ o.Regular := by
  rw [pause_eq h.memory]
  refine ⟨?_, _, rfl, rfl, rfl⟩
  rw [Surroundings.records_emit]
  exact proper_keep h.memory h.proper rfl
    ⟨rfl, ⟨_, rfl, h.place⟩, h.nonneg, fun _ => ⟨rfl, ⟨_, rfl⟩, g.config, rfl, pos⟩⟩

theorem Safe.complete (h : g.Safe thread p w) (metadata : Value) :
    (∀ c ∈ (g.complete (p.running thread metadata) w).1.records thread, c.Proper g.definition) ∧
    ∃ o, (g.complete (p.running thread metadata) w).2 = .ok o ∧ o.Regular := by
  rw [complete_eq h.memory]
  refine ⟨?_, _, rfl, rfl⟩
  rw [Surroundings.records_emitLast]
  exact proper_keep h.memory h.proper rfl ⟨rfl, ⟨_, rfl, h.place⟩, h.nonneg, RunStatus.noConfusion⟩

theorem Safe.fail (h : g.Safe thread p w) (metadata : Value) (hf : f.kind.isFatal = true) :
    (∀ c ∈ (g.fail (p.running thread metadata) f w).1.records thread, c.Proper g.definition) ∧
    ∃ o, (g.fail (p.running thread metadata) f w).2 = .ok o ∧ o.Regular := by
  rw [fail_eq h.memory]
  refine ⟨?_, _, rfl, f, rfl, hf⟩
  rw [Surroundings.records_emitLast]
  refine proper_keep h.memory h.proper thread_verdict ?_
  -- The failure is written over the last record, or over the run as it stands if none is left.
  unfold verdict
  split
  · rename_i last hlast
    exact (h.proper last (List.mem_of_getLast? hlast)).failed _ _ _
  · exact ⟨rfl, ⟨_, rfl, h.place⟩, h.nonneg, RunStatus.noConfusion⟩

/-! ### Passes -/

section Passing

variable (h : g.Safe thread p w)
include h

theorem Safe.after (entry : Entry) : g.Safe thread p (g.after (g.passAt thread p entry w)) :=
  ⟨inMemory_after (q := g.passAt thread p entry w) h.memory, h.place, h.nonneg, fun c hc =>
    h.proper c (mem_records_after (q := g.passAt thread p entry w) h.memory hc)⟩

theorem Safe.told (entry : Entry) (hq : g.definition.IsPlace q.node) (hstep : q.step = p.step + 1) :
    g.Safe thread q (g.told (g.passAt thread p entry w) q) :=
  ⟨(h.after entry).memory.emit _, hq, hstep ▸ Int.le_add_one h.nonneg, fun c hc =>
    (h.after entry).proper c (records_told ▸ hc)⟩

theorem Safe.mem_nodeIds (inside : p.node ≠ endMarker) : p.node ∈ g.definition.nodeIds :=
  h.place.resolve_right inside

theorem Safe.goes (sound : g.definition.Sound) (hgoes : g.Goes (g.passAt thread p entry w) r) :
    ∃ q v, r = g.passAt thread q {} v ∧ g.Safe thread q v := by
  obtain ⟨q, runs, hq, rfl⟩ := hgoes.next_passAt h.memory
  have hstep : q.step = p.step + 1 := (Definition.step_of_turn_reached hq).1
  have hplace : g.definition.IsPlace q.node := sound.isPlace_of_reached (h.mem_nodeIds runs.inside) hq
  have told := h.told entry hplace hstep
  refine ⟨q, _, rfl, ?_⟩
  unfold noted
  split
  · exact told
  · exact ⟨told.memory.keep _, told.place, told.nonneg, proper_keep told.memory told.proper rfl
      ⟨rfl, ⟨_, rfl, hplace⟩, told.nonneg, RunStatus.noConfusion⟩⟩

/-- Whichever way a run of a sound graph ends, its records are proper and its outcome is regular. -/
theorem Safe.ends (sound : g.definition.Sound) (hends : g.Ends (g.passAt thread p entry w) x) :
    (∀ c ∈ x.1.records thread, c.Proper g.definition) ∧ ∃ o, x.2 = .ok o ∧ o.Regular := by
  -- A run that pauses has steps left.
  have pos : (g.passAt thread p entry w).left ≠ 0 → 0 < g.config.recursionLimit := fun left => by
    have left : (g.config.recursionLimit - p.step).toNat ≠ 0 := left
    have := h.nonneg
    omega
  have told : ∀ {q}, g.Runs (g.passAt thread p entry w) → (g.turnAt (g.passAt thread p entry w)).2 = .reached q →
      g.Safe thread q (g.told (g.passAt thread p entry w) q) := fun runs hq =>
    h.told entry (sound.isPlace_of_reached (h.mem_nodeIds runs.inside) hq) (Definition.step_of_turn_reached hq).1
  cases hends with
  | cancelled | exhausted => exact h.fail _ rfl
  | completed => exact h.complete _
  | held _ _ left => exact h.pause (pos left) _ _ _
  | suspended runs => exact (h.after entry).pause (pos runs.left) _ _ _
  | withdrawn => exact (h.after entry).fail _ rfl
  | @failed q f runs hq =>
    obtain ⟨hnode, hstep, hf⟩ := sound.of_failed (h.mem_nodeIds runs.inside) hq
    have after := h.after entry
    have safe : g.Safe thread q (g.after (g.passAt thread p entry w)) :=
      ⟨after.memory, hnode ▸ h.place, Int.le_trans h.nonneg hstep, after.proper⟩
    exact safe.fail _ hf
  | lost runs hq => exact absurd hq (sound.turn_ne_lost (h.mem_nodeIds runs.inside) _)
  | paused runs hq => exact (told runs hq).pause (pos runs.left) _ _ _
  | revoked runs hq => exact (told runs hq).fail _ rfl
  | unsaved runs hq _ _ save =>
    rw [save_snapshot (told runs hq).memory] at save
    cases save

theorem Safe.passes (sound : g.definition.Sound)
    (hgoes : Relation.ReflTransGen g.Goes (g.passAt thread p entry w) r) :
    ∃ q e v, r = g.passAt thread q e v ∧ g.Safe thread q v := by
  induction hgoes with
  | refl => exact ⟨p, entry, w, rfl, h⟩
  | tail _ hstep ih =>
    obtain ⟨q, e, v, rfl, hq⟩ := ih
    obtain ⟨q', v', rfl, hq'⟩ := hq.goes sound hstep
    exact ⟨q', {}, v', rfl, hq'⟩

theorem Safe.run (sound : g.definition.Sound) (entry : Entry) :
    (∀ c ∈ (g.run (g.passAt thread p entry w)).1.records thread, c.Proper g.definition) ∧
    ∃ o, (g.run (g.passAt thread p entry w)).2 = .ok o ∧ o.Regular := by
  obtain ⟨r, hgoes, hends⟩ := g.run_passes (g.passAt thread p entry w)
  obtain ⟨q, e, v, rfl, hq⟩ := h.passes sound hgoes
  exact hq.ends sound hends

end Passing

/-! ### What breaks a run -/

def answerAt (g : Engine) (n : Node) (q : Pass) : Except Failure StepOutcome :=
  (n.run g.providers q.execution.state (context q.execution q.entry) { calls := q.around.calls }).2

/-- What breaks a run at a pass: the steps are used up, the node fails, its update does not fit, or its edge
    leads nowhere, be it that the condition raises or that it selects what it may not. -/
inductive Breaks (g : Engine) : Pass → Failure → Prop
  | steps {q : Pass} (uncancelled : q.around.isCancelled q.execution.thread = false)
      (inside : q.execution.node ≠ endMarker) (h : q.left = 0) : Breaks g q (g.exhausted q.execution)
  | node {q : Pass} {n : Node} {f : Failure} (runs : g.Runs q) (hn : g.definition.node? q.execution.node = some n)
      (h : g.answerAt n q = .error f) : Breaks g q f
  | update {q : Pass} {n : Node} {values : Value} {f : Fault} (runs : g.Runs q)
      (hn : g.definition.node? q.execution.node = some n) (hv : g.answerAt n q = .ok (.update values))
      (h : g.definition.schema.applyValue q.execution.state values = .error f) :
      Breaks g q (Execution.invalidUpdate q.execution.node f)
  | edge {q : Pass} {n : Node} {values : Value} {state : State} {e : Edge} {f : Failure} (runs : g.Runs q)
      (hn : g.definition.node? q.execution.node = some n) (hv : g.answerAt n q = .ok (.update values))
      (hs : g.definition.schema.applyValue q.execution.state values = .ok state)
      (he : g.definition.outgoing? q.execution.node = some e) (h : e.next? state = some (.error f)) :
      Breaks g q f

theorem turnAt_of_node {q : Pass} {n : Node} {answer : Except Failure StepOutcome}
    (hn : g.definition.node? q.execution.node = some n) (ha : g.answerAt n q = answer) :
    (g.turnAt q).2 = g.definition.stride q.execution.position answer := by
  rw [turnAt, Definition.turn, show g.definition.node? q.execution.position.node = some n from hn, ← ha]
  rfl

/-- A pass that breaks ends the run with the failure. -/
theorem Breaks.run_eq {q : Pass} (h : g.Breaks q f) :
    ∃ p w, g.run q = g.fail (q.execution.arrived p) f w ∧ (q.around.InMemory → w.InMemory) := by
  have failed : ∀ {p f}, g.Runs q → (g.turnAt q).2 = .failed p f →
      ∃ p w, g.run q = g.fail (q.execution.arrived p) f w ∧ (q.around.InMemory → w.InMemory) := by
    intro p f runs hs
    refine ⟨p, g.after q, ?_, inMemory_after⟩
    rw [run_of_runs runs, hs]
    rfl
  cases h with
  | steps uncancelled inside h =>
    refine ⟨q.execution.position, q.around, ?_, id⟩
    rw [Engine.run_eq, if_neg (ne_true_of_eq_false uncancelled), if_neg inside, h]
    rfl
  | node runs hn h => exact failed (p := q.execution.position) runs (turnAt_of_node hn h)
  | update runs hn hv h => exact failed runs ((turnAt_of_node hn hv).trans (Definition.stride_unfit h))
  | edge runs hn hv hs he h => exact failed runs ((turnAt_of_node hn hv).trans (Definition.stride_astray hs he h))

theorem Breaks.isFatal {q : Pass} (h : g.Breaks q f) : f.kind.isFatal = true := by
  cases h with
  | steps | update => rfl
  | node _ _ h => exact Node.isFatal_of_run h
  | edge _ _ _ _ _ h => exact Edge.isFatal_of_next? h

/-! ### Requests -/

section Requests

variable {request : Request} {run : Engine} {a : Pass} {overrides : Overrides} {e : Fault}

/-- The last record of a thread can be read, if there is one. -/
theorem lastCheckpoint_cases (hm : w.InMemory) (proper : ∀ c ∈ w.records thread, c.Proper g.definition) :
    (w.records thread = [] ∧ g.lastCheckpoint thread w.store = .error (.failure (.threadNotFound thread))) ∨
    ∃ c ∈ w.records thread, (w.records thread).getLast? = some c ∧ g.lastCheckpoint thread w.store = .ok c := by
  cases hc : (w.records thread).getLast? with
  | none =>
    refine Or.inl ⟨List.getLast?_eq_none_iff.mp hc, ?_⟩
    exact lastCheckpoint_of_none (by rw [Surroundings.load_eq hm, hc])
  | some c =>
    have mem : c ∈ w.records thread := List.mem_of_getLast? hc
    have last : w.store.load thread = .ok (some c) := by rw [Surroundings.load_eq hm, hc]
    exact Or.inr ⟨c, mem, rfl, lastCheckpoint_of_own last (proper c mem).graph⟩

/-- A new run stands at the entry, and is written down there. -/
theorem safe_opened {input : Value} {overrides : Overrides} {config : Config} {e : Execution}
    (sound : g.definition.Sound) (hm : w.InMemory) (proper : ∀ c ∈ w.records thread, c.Proper g.definition)
    (h : g.opening thread input overrides w.store = .ok (config, e)) (observers : List Observer) :
    ∃ p, e = p.running thread config.metadata ∧ g.Safe thread p (g.opened e observers w) := by
  obtain ⟨-, -, p, hp, rfl, hstep, hhistory⟩ := (opening_eq_ok hm).mp h
  have hplace := sound.isPlace_of_origin hp
  obtain ⟨node, state, step, history⟩ := p
  cases hstep
  cases hhistory
  have opened := records_opened (g := g) (e := { thread, node, state, metadata := config.metadata }) hm observers
  refine ⟨⟨node, state, 0, []⟩, rfl, inMemory_opened hm _, hplace, Int.le_refl 0, fun c hc => ?_⟩
  rcases List.mem_append.mp (opened ▸ hc) with hc | hc
  · exact proper c hc
  · rw [List.mem_singleton.mp hc]
    exact ⟨rfl, ⟨node, rfl, hplace⟩, Int.le_refl 0, RunStatus.noConfusion⟩

/-- A request to end leaves proper records, and is refused only where nothing is known of the thread. -/
theorem cancel_safe (hm : w.InMemory) (proper : ∀ c ∈ w.records thread, c.Proper g.definition) :
    (∀ c ∈ (g.cancel thread w).1.records thread, c.Proper g.definition) ∧
    ((∃ o, (g.cancel thread w).2 = .ok o ∧ ∀ x ∈ o, x.Regular) ∨
      (g.cancel thread w).2 = .error (.failure (.threadNotFound thread)) ∧ w.records thread = []) := by
  rcases cancel_cases g thread hm with h | h | ⟨f, h, hf⟩ | ⟨c, e, hc, paused, he, hthread, h⟩
  · rw [h]
    exact ⟨fun c hc => proper c (Surroundings.records_requestCancel ▸ hc),
      Or.inl ⟨none, rfl, fun x hx => absurd hx (Option.not_mem_none x)⟩⟩
  · rw [h]
    exact ⟨proper, Or.inl ⟨none, rfl, fun x hx => absurd hx (Option.not_mem_none x)⟩⟩
  · rw [h]
    refine ⟨proper, Or.inr ?_⟩
    rcases hf with hf | ⟨c, hc, paused, hf⟩
    · rcases lastCheckpoint_cases hm proper with ⟨hr, hlast⟩ | ⟨c, -, -, hlast⟩ <;> cases hf.symm.trans hlast
      exact ⟨rfl, hr⟩
    · obtain ⟨e, he, -⟩ := (proper c hc).takenUp paused
      cases hf.symm.trans he
  · obtain ⟨e', he', -, hplace, nonneg, running⟩ := (proper c (List.mem_of_getLast? hc)).takenUp paused
    cases he.symm.trans he'
    have safe : g.Safe thread e.position w := ⟨hm, hplace, nonneg, proper⟩
    obtain ⟨records, o, ho, regular⟩ := safe.fail (f := .cancelled thread) e.metadata rfl
    have hfail : g.fail e (.cancelled thread) w =
        g.fail (e.position.running thread e.metadata) (.cancelled thread) w := by
      rw [← hthread, ← running e.metadata]
      rfl
    rw [h, hfail, ho]
    refine ⟨records, Or.inl ⟨some o, rfl, fun x hx => ?_⟩⟩
    cases hx
    exact regular

/-- A run that a request enters stands at a place. -/
theorem Enters.safe (sound : g.definition.Sound) (hm : w.InMemory)
    (proper : ∀ c ∈ w.records request.thread, c.Proper g.definition) (h : g.Enters w request run a) :
    run.definition = g.definition ∧
    ∃ p entry v, a = run.passAt request.thread p entry v ∧ run.Safe request.thread p v := by
  cases h with
  | @start thread input options config e providers opening names layer =>
    obtain ⟨p, rfl, safe⟩ := safe_opened sound hm proper opening options.observers
    exact ⟨rfl, p, {}, _, rfl, safe.memory, safe.place, safe.nonneg, safe.proper⟩
  | @resume thread value options r providers resumption layer =>
    obtain ⟨c, kept, stored, e, hc, paused, -, he, -, -, -, hr⟩ := resumption_eq_ok hm resumption
    obtain ⟨e', he', -, hplace, nonneg, running⟩ := (proper c (List.mem_of_getLast? hc)).takenUp paused
    cases he.symm.trans he'
    rw [running] at hr
    have hthread : e.thread = thread := by
      rw [← thread_of_resumption hm resumption, hr]
      rfl
    have safe : Safe { g with config := r.config, providers } thread e.position (reopened r thread w) :=
      ⟨inMemory_reopened hm, hplace, nonneg, fun c hc => proper c (records_reopened (r := r) ▸ hc)⟩
    refine ⟨rfl, e.position, entryAfter r.interrupt.kind value, _, ?_, safe⟩
    rw [hr, hthread]
    rfl

/-- Why requests are refused: the settings of the call do not hold, the names that it lists cannot be put in order
    or its providers are of no kind, whatever the request; the input of a start does not fit, or its thread was
    started before; a resumption is of a thread of which nothing is known or which is not paused; or nothing is known
    of the thread to end. -/
inductive Refused (g : Engine) (w : Surroundings) : Request → Fault → Prop
  | settings {request : Request} {e : Fault} (h : g.config.override request.options.overrides = .error e) :
      Refused g w request e
  | unordered {request : Request} {e : Fault} (h : request.options.overrides.checkNames = .error e) :
      Refused g w request e
  | providers {request : Request} {e : Fault} (h : g.providers.layer request.options.providers = .error e) :
      Refused g w request e
  | input {thread : String} {input : Value} {options : CallOptions} {e : Fault}
      (h : g.definition.schema.initialState input = .error e) : Refused g w (.start thread input options) e
  | taken {thread : String} {input : Value} {options : CallOptions} (h : w.records thread ≠ []) :
      Refused g w (.start thread input options)
        (.value s!"Thread {thread} already has an execution; use resume()")
  | unknown {thread : String} {value : Value} {options : CallOptions} (h : w.records thread = []) :
      Refused g w (.resume thread value options) (.failure (.threadNotFound thread))
  | unpaused {thread : String} {value : Value} {options : CallOptions} {c : Checkpoint}
      (hc : (w.records thread).getLast? = some c) (h : c.status ≠ .paused) :
      Refused g w (.resume thread value options) (.failure (.invalidResume thread c.status.name))
  | nothing {thread : String} (h : w.records thread = []) :
      Refused g w (.cancel thread) (.failure (.threadNotFound thread))

theorem refused_of_opening {input : Value} {options : CallOptions} (sound : g.definition.Sound) (hm : w.InMemory)
    (h : g.opening thread input options.overrides w.store = .error e) :
    g.Refused w (.start thread input options) e := by
  rcases opening_eq_error hm h with h | h | ⟨taken, rfl⟩ | entry
  · exact .settings h
  · exact .input h
  · exact .taken taken
  · obtain ⟨s, hs, -⟩ := sound.entry
    rw [entry] at hs
    cases hs

theorem refused_of_resumption {value : Value} {options : CallOptions} (hm : w.InMemory)
    (proper : ∀ c ∈ w.records thread, c.Proper g.definition)
    (h : g.resumption thread options.overrides w.store = .error e) :
    g.Refused w (.resume thread value options) e := by
  unfold resumption at h
  rcases lastCheckpoint_cases hm proper with ⟨hr, hlast⟩ | ⟨c, hmem, hc, hlast⟩ <;> rw [hlast] at h
  · cases h
    exact .unknown hr
  by_cases paused : c.status = .paused
  · obtain ⟨-, ⟨i, hi⟩, config, hmetadata, pos⟩ := (proper c hmem).resumable paused
    obtain ⟨e', he, hkept, -⟩ := (proper c hmem).takenUp paused
    -- What is kept of the settings brings them back, so only the overrides of the call can be refused.
    have stored : Overrides.ofMetadata e'.metadata = .ok config.kept := by
      rw [hkept, hmetadata, Config.ofMetadata_metadata]
    simp only [bind_eq_error, reduceCtorEq, Except.ok.injEq, exists_eq_left', false_or, paused, hi, he, stored,
      Config.override_kept g.config pos] at h
    rcases h with h | ⟨_, -, h | ⟨_, -, ⟨⟩⟩⟩
    · exact .settings (Config.override_error h g.config)
    · rw [Config.checkNames_onto_kept] at h
      exact .unordered h
  · simp only [bind_eq_error, reduceCtorEq, Except.ok.injEq, exists_eq_left', false_or] at h
    split at h
    · rename_i hs _
      exact absurd hs paused
    · cases h
      exact .unpaused hc paused

/-- The records that a request leaves of its thread are proper, and it is answered with an outcome of a run or
    refused. -/
theorem serve_safe (sound : g.definition.Sound) (hm : w.InMemory)
    (proper : ∀ c ∈ w.records request.thread, c.Proper g.definition) :
    (∀ c ∈ (g.serve w request).1.records request.thread, c.Proper g.definition) ∧
    ((∃ o, (g.serve w request).2 = .ok o ∧ ∀ x ∈ o, x.Regular) ∨
      ∃ f, (g.serve w request).2 = .error f ∧ g.Refused w request f) := by
  have entered : ∀ {run : Engine} {a : Pass}, g.Enters w request run a →
      (∀ c ∈ (g.serve w request).1.records request.thread, c.Proper g.definition) ∧
      ((∃ o, (g.serve w request).2 = .ok o ∧ ∀ x ∈ o, x.Regular) ∨
        ∃ f, (g.serve w request).2 = .error f ∧ g.Refused w request f) := by
    intro run a h
    obtain ⟨hd, p, entry, v, rfl, safe⟩ := h.safe sound hm proper
    obtain ⟨records, o, ho, regular⟩ := safe.run (hd ▸ sound) entry
    rw [h.serve_eq hm, ho]
    refine ⟨fun c hc => hd ▸ records c hc, Or.inl ⟨some o, rfl, fun x hx => ?_⟩⟩
    cases hx
    exact regular
  -- A request that enters no loop is refused, before or after its run has been written down.
  cases request with
  | start thread input options =>
    rcases start_cases g thread input options hm with ⟨f, ho, h⟩ | ⟨config, e, f, -, hn, h⟩ |
      ⟨config, e, f, ho, -, hl, h⟩ | ⟨run, a, he, -⟩
    · rw [serve, h]
      exact ⟨proper, Or.inr ⟨f, rfl, refused_of_opening sound hm ho⟩⟩
    · rw [serve, h]
      exact ⟨proper, Or.inr ⟨f, rfl, .unordered hn⟩⟩
    · rw [serve, h]
      obtain ⟨p, -, safe⟩ := safe_opened sound hm proper ho options.observers
      exact ⟨safe.proper, Or.inr ⟨f, rfl, .providers hl⟩⟩
    · exact entered he
  | resume thread value options =>
    rcases resume_cases g thread value options hm with ⟨f, ho, h⟩ | ⟨r, f, -, hl, h⟩ | ⟨run, a, he, -⟩
    · rw [serve, h]
      exact ⟨proper, Or.inr ⟨f, rfl, refused_of_resumption hm proper ho⟩⟩
    · rw [serve, h]
      exact ⟨fun c hc => proper c (records_reopened (r := r) ▸ hc), Or.inr ⟨f, rfl, .providers hl⟩⟩
    · exact entered he
  | cancel thread =>
    obtain ⟨records, ⟨o, ho, regular⟩ | ⟨he, hr⟩⟩ := cancel_safe hm proper
    · exact ⟨records, Or.inl ⟨o, ho, regular⟩⟩
    · exact ⟨records, Or.inr ⟨_, he, .nothing hr⟩⟩
  | delete thread =>
    have forgotten : (delete thread w).1.records thread = [] :=
      (Surroundings.records_congr (store_delete hm) thread).trans (Surroundings.records_forget_self hm)
    refine ⟨fun c hc => ?_, Or.inl ⟨none, ?_, fun x hx => absurd hx (Option.not_mem_none x)⟩⟩
    · cases forgotten ▸ hc
    · obtain ⟨saved, hs⟩ := hm
      rw [serve, delete, hs]
      rfl

theorem proper_serveAll (sound : g.definition.Sound) (hm : w.InMemory)
    (proper : ∀ c ∈ w.records thread, c.Proper g.definition) (requests : List Request) :
    (g.serveAll w requests).InMemory ∧ ∀ c ∈ (g.serveAll w requests).records thread, c.Proper g.definition := by
  induction requests generalizing w with
  | nil => exact ⟨hm, proper⟩
  | cons request requests ih =>
    obtain ⟨memory, others⟩ := serve_frame g hm request
    refine ih memory ?_
    by_cases own : request.thread = thread
    · subst own
      exact (serve_safe sound hm proper).1
    · rw [others thread own]
      exact proper

/-- What breaks a run that a request enters is what the request is answered with. -/
theorem Enters.answer (h : g.Enters w request run a) (hm : w.InMemory) {q : Pass}
    (hgoes : Relation.ReflTransGen run.Goes a q) (hq : run.Breaks q f) (memory : q.around.InMemory) :
    ∃ o, (g.serve w request).2 = .ok (some o) ∧ o.status = .failed ∧ o.error = some f := by
  obtain ⟨p, v, heq, kept⟩ := hq.run_eq
  rw [h.serve_eq hm, run_eq_of_goes hgoes, heq, fail_eq (kept memory)]
  exact ⟨_, rfl, rfl, rfl⟩

end Requests

/-! ### Main statement -/

/-- Nothing goes wrong when a request is served. -/
structure GoesRight (g : Engine) (v : Surroundings) (request : Request) : Prop where
  entry : ∃ s, g.definition.entryPoint? = some s ∧ g.definition.IsPlace s
  /-- Walks, runs and records are at nodes or at the end. -/
  walks : ∀ thread input invocations n p, g.definition.walk thread input invocations n = some p →
    g.definition.IsPlace p.node
  runs : ∀ run a q, g.Enters v request run a → Relation.ReflTransGen run.Goes a q →
    g.definition.IsPlace q.execution.node
  records : ∀ c ∈ v.records request.thread, ∃ id, c.node = .str id ∧ g.definition.IsPlace id
  /-- Every look-up at a node succeeds. -/
  finds : ∀ id, g.definition.IsPlace id → id ≠ endMarker → g.definition.Finds id
  /-- What breaks a run is what its failed outcome tells. -/
  breaks : ∀ run a q f, g.Enters v request run a → Relation.ReflTransGen run.Goes a q → run.Breaks q f →
    f.kind.isFatal = true ∧
      ∃ o, (g.serve v request).2 = .ok (some o) ∧ o.status = .failed ∧ o.error = some f
  /-- There is an answer, or a reason for which the request is refused. -/
  answers : (∃ o, (g.serve v request).2 = .ok o ∧ ∀ x ∈ o, x.Regular) ∨
    ∃ e, (g.serve v request).2 = .error e ∧ g.Refused v request e

end Engine

end Workflow
