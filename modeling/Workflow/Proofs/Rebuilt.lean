import Workflow.Proofs.Reread
import Workflow.Proofs.Resumed

/-! # Outcomes that are rebuilt

What the last checkpoint of a thread tells of a call that has just been answered. A run that waits or is completed is
told of as the answer does. A failure is written down over the last checkpoint, so what is told of a failed run leaves
out the steps since (`Engine.outcome_rebuilt`). -/

namespace Workflow

/-- The kinds that a run can end with are rebuilt, unless they are a caller's own. -/
theorem FailureKind.isRebuilt_of_isFatal {k : FailureKind} (h : k.isFatal = true)
    (common : ∀ name category, k ≠ .derived name category) : k.IsRebuilt := by
  refine .inr ?_
  cases k with
  | derived name category => exact absurd rfl (common name category)
  | nodeExecution | routing | recursionLimit | cancelled => decide
  | _ => cases h

/-- The second failure is what is told of the first one afterwards. It is alike, unless the first one is of a kind of a
    caller's own: then it tells the same, but it is of the kind that is rebuilt under that name, or of the general one. -/
structure Failure.Recalled (f f' : Failure) : Prop extends f.Retold f' where
  alike : (∀ name category, f.kind ≠ .derived name category) → f.Alike f'

/-- The outcomes are of calls that ended alike: they tell of one status, of one state and of what the thread waits for,
    and of failures of which the second one recalls the first. -/
structure Outcome.Agrees (o o' : Outcome) : Prop where
  thread : o'.thread = o.thread
  status : o'.status = o.status
  state : o'.state = o.state
  interrupt : o'.interrupt = o.interrupt
  error : Option.Rel Failure.Recalled o.error o'.error

/-- The first outcome tells of more steps than the second one, which is of these records: it tells of the nodes since
    the last of them, if there is one. -/
structure Outcome.Outruns (o o' : Outcome) (records : List Checkpoint) (lost : List String) : Prop where
  last : ∀ b, records.getLast? = some b → o'.steps = b.step ∧ o'.history = b.history
  whole : records = [] → lost = []
  history : o.history = o'.history ++ lost.map .str
  steps : o.steps = o'.steps + lost.length

namespace Definition

variable {d : Definition} {i : Invocation} {thread : String} {p q : Position} {f : Failure} {calls : CallLog}

/-- A step that fails ends the run, where it was or after its node. -/
theorem failed_of_turn (h : (d.turn i thread p calls).2 = .failed q f) :
    f.kind.isFatal = true ∧ (q.step = p.step ∧ q.history = p.history ∨
      q.step = p.step + 1 ∧ q.history = p.history ++ [p.node]) := by
  unfold turn at h
  split at h
  · cases h
  · dsimp only at h
    unfold stride at h
    split at h
    · rename_i failed
      cases h
      exact ⟨Node.isFatal_of_run failed, .inl ⟨rfl, rfl⟩⟩
    · cases h
    · split at h
      · cases h
        exact ⟨Execution.isFatal_invalidUpdate _ _, .inl ⟨rfl, rfl⟩⟩
      · dsimp only at h
        split at h
        · cases h
        · split at h <;> cases h
          rename_i astray
          exact ⟨Edge.isFatal_of_next? astray, .inr ⟨rfl, rfl⟩⟩

end Definition

/-! ### The steps since the last checkpoint -/

/-- The checkpoint is of the run before its last nodes. -/
structure Checkpoint.Trails (c : Checkpoint) (p : Position) (lost : List String) : Prop where
  history : ∃ past : List String, c.history = past.map .str ∧ p.history = past ++ lost
  step : p.step = c.step + lost.length

namespace Checkpoint

variable {c : Checkpoint} {p q : Position} {lost : List String}

theorem Shows.trails (h : c.Shows p) : c.Trails p [] where
  history := ⟨p.history, h.history, (List.append_nil _).symm⟩
  step := by rw [h.step]; exact (Int.add_zero _).symm

theorem Trails.same (h : c.Trails p lost) (step : q.step = p.step) (history : q.history = p.history) :
    c.Trails q lost where
  history := history ▸ h.history
  step := step.trans h.step

theorem Trails.next (h : c.Trails p lost) (step : q.step = p.step + 1) (history : q.history = p.history ++ [p.node]) :
    c.Trails q (lost ++ [p.node]) where
  history := by
    obtain ⟨past, told, all⟩ := h.history
    exact ⟨past, told, by rw [history, all, List.append_assoc]⟩
  step := by
    rw [step, h.step, List.length_append, Int.add_assoc]
    rfl

end Checkpoint

namespace Engine

open Surroundings

variable {g run : Engine} {w v : Surroundings} {thread : String} {p q : Position} {e : Execution} {f : Failure}
  {entry : Entry} {r s : Pass} {o : Outcome} {request : Request}

/-- The last record of the thread is of the graph, and of the run before some last nodes; none of them, if every step is
    written down. -/
structure Trails (g : Engine) (thread : String) (p : Position) (w : Surroundings) : Prop where
  memory : w.InMemory
  last : ∀ c, (w.records thread).getLast? = some c → c.graph = .str g.definition.name ∧
    ∃ lost, c.Trails p lost ∧ (g.config.mode = .everyStep → lost = [])

theorem Trails.after (h : g.Trails thread p w) (entry : Entry) {c : Checkpoint}
    (hc : ((g.after (g.passAt thread p entry w)).records thread).getLast? = some c) :
    (w.records thread).getLast? = some c := by
  have left : (g.after (g.passAt thread p entry w)).records thread = _ := records_absorb_self h.memory thread _
  rw [left] at hc
  split at hc
  · cases hc
  · exact hc

theorem Trails.goes (h : g.Trails thread p w) (goes : g.Goes (g.passAt thread p entry w) r) :
    ∃ q v, r = g.passAt thread q {} v ∧ g.Trails thread q v := by
  obtain ⟨q, -, reached, rfl⟩ := goes.next_passAt h.memory
  obtain ⟨step, history⟩ := Definition.step_of_turn_reached reached
  have memory : (g.told (g.passAt thread p entry w) q).InMemory := inMemory_told h.memory
  refine ⟨q, _, rfl, inMemory_noted h.memory, fun c hc => ?_⟩
  unfold noted at hc
  cases mode : g.config.mode with
  | interruptsOnly =>
    rw [mode] at hc
    obtain ⟨graph, lost, trails, -⟩ := h.last c (h.after entry (records_told ▸ hc))
    exact ⟨graph, _, trails.next step history, CheckpointMode.noConfusion⟩
  | everyStep =>
    rw [mode] at hc
    dsimp only at hc
    rw [records_keep_self memory rfl, List.getLast?_concat] at hc
    cases hc
    exact ⟨rfl, [], ((q.running thread g.config.metadata).shows_checkpoint _ _ _).trails, fun _ => rfl⟩

theorem Trails.passes (h : g.Trails thread p w) (goes : Relation.ReflTransGen g.Goes (g.passAt thread p entry w) r) :
    ∃ q entry v, r = g.passAt thread q entry v ∧ g.Trails thread q v := by
  induction goes with
  | refl => exact ⟨p, entry, w, rfl, h⟩
  | tail _ step ih =>
    obtain ⟨q, entry, v, rfl, hq⟩ := ih
    obtain ⟨q', v', rfl, hq'⟩ := hq.goes step
    exact ⟨q', {}, v', rfl, hq'⟩

/-- When a run fails, its last record is of the run before some last nodes; at most one, if every step is written
    down. -/
theorem Trails.fails (h : g.Trails thread p w) (fails : g.Fails (g.passAt thread p entry w) e v f) :
    e.thread = thread ∧ v.InMemory ∧ f.kind.isFatal = true ∧
      ∀ c, (v.records thread).getLast? = some c → c.graph = .str g.definition.name ∧
        ∃ lost, c.Trails e.position lost ∧ (g.config.mode = .everyStep → lost.length ≤ 1) := by
  have here {v : Surroundings} (kept : ∀ c, (v.records thread).getLast? = some c → (w.records thread).getLast? = some c)
      {q : Position} (moved : q.step = p.step ∧ q.history = p.history ∨
        q.step = p.step + 1 ∧ q.history = p.history ++ [p.node]) (c : Checkpoint)
      (hc : (v.records thread).getLast? = some c) : c.graph = .str g.definition.name ∧
        ∃ lost, c.Trails q lost ∧ (g.config.mode = .everyStep → lost.length ≤ 1) := by
    obtain ⟨graph, lost, trails, every⟩ := h.last c (kept c hc)
    refine ⟨graph, ?_⟩
    rcases moved with ⟨step, history⟩ | ⟨step, history⟩
    · exact ⟨lost, trails.same step history, fun mode => by rw [every mode]; exact Nat.zero_le _⟩
    · exact ⟨_, trails.next step history, fun mode => by rw [every mode]; exact Nat.le_refl _⟩
  have memory : v.InMemory := fails.inMemory h.memory
  cases fails with
  | cancelled | exhausted => exact ⟨rfl, memory, rfl, here (fun _ hc => hc) (.inl ⟨rfl, rfl⟩)⟩
  | withdrawn => exact ⟨rfl, memory, rfl, here (fun _ => h.after entry) (.inl ⟨rfl, rfl⟩)⟩
  | failed _ failed =>
    obtain ⟨isFatal, moved⟩ := Definition.failed_of_turn failed
    exact ⟨rfl, memory, isFatal, here (fun _ => h.after entry) moved⟩
  | revoked _ reached =>
    have moved := Definition.step_of_turn_reached reached
    exact ⟨rfl, memory, rfl, here (fun _ hc => h.after entry (records_told ▸ hc)) (.inr moved)⟩

/-! ### Outcomes -/

/-- In memory, the outcome that is told of the thread is that of its last record, if that is of the graph. -/
theorem outcome_eq (memory : w.InMemory) {c : Checkpoint} (last : (w.records thread).getLast? = some c)
    (graph : c.graph = .str g.definition.name) : g.outcome thread w = Outcome.ofCheckpoint thread c := by
  have equal : c.graph.equal (.str g.definition.name) = true := by rw [graph, Value.equal_str, beq_self_eq_true]
  rw [outcome, (lastCheckpoint_eq_ok memory).mpr ⟨last, equal⟩]
  rfl

theorem outcome_congr (same : v.store = w.store) : g.outcome thread v = g.outcome thread w := by
  rw [outcome, outcome, same]

/-- A run that has not failed is told of as it was written down. -/
theorem outcome_keep (memory : w.InMemory) (unfailed : e.error = none) :
    g.outcome e.thread (w.keep (g.snapshot e w)) = .ok e.outcome := by
  have last : ((w.keep (g.snapshot e w)).records e.thread).getLast? = some (g.snapshot e w) := by
    rw [records_keep_self memory thread_snapshot, List.getLast?_concat]
  rw [outcome_eq (memory.keep _) last rfl, Execution.outcome, unfailed]
  simp only [Outcome.ofCheckpoint, snapshot, drawUp, Execution.checkpoint, Checkpoint.failure?, unfailed]
  rfl

/-- A call that does not fail is told of as it was answered. -/
theorem Ends.outcome_eq {x : Ended} (ends : g.Ends (g.passAt thread p entry w) x) (memory : w.InMemory)
    (ho : x.2 = .ok o) (unfailed : o.status ≠ .failed) : g.outcome thread x.1 = .ok o ∧ o.error = none := by
  have failed {e f v} (ho : (g.fail e f v).2 = .ok o) : False := unfailed (outcome_of_fail ho).1
  have pause {q : Position} {v : Surroundings} {node kind prompt} (memory : v.InMemory)
      (ho : (g.pause (q.running thread g.config.metadata) node kind prompt v).2 = .ok o) :
      g.outcome thread (g.pause (q.running thread g.config.metadata) node kind prompt v).1 = .ok o ∧
        o.error = none := by
    rw [pause_eq memory] at ho ⊢
    cases ho
    have told := outcome_keep (g := g) (e := (q.running thread g.config.metadata).paused node kind prompt) memory rfl
    exact ⟨(outcome_congr (store_emit _ _)).trans told, rfl⟩
  have complete {q : Position} (ho : (g.complete (q.running thread g.config.metadata) w).2 = .ok o) :
      g.outcome thread (g.complete (q.running thread g.config.metadata) w).1 = .ok o ∧ o.error = none := by
    rw [complete_eq memory] at ho ⊢
    cases ho
    have told := outcome_keep (g := g) (e := (q.running thread g.config.metadata).completed) memory rfl
    exact ⟨(outcome_congr (store_emitLast _ _)).trans told, rfl⟩
  cases ends with
  | cancelled | exhausted | withdrawn | failed | revoked => exact (failed ho).elim
  | completed => exact complete ho
  | held => exact pause memory ho
  | suspended => exact pause (inMemory_after memory) ho
  | paused => exact pause (inMemory_told memory) ho
  | lost | unsaved => cases ho

/-- A run that has failed is told of as its failure was written down. -/
theorem outcome_fail (memory : w.InMemory) (isFatal : f.kind.isFatal = true)
    (own : ∀ c, (w.records e.thread).getLast? = some c → c.graph = .str g.definition.name) :
    ∃ f', f.Recalled f' ∧ g.outcome e.thread (g.fail e f w).1 = .ok {
      thread := e.thread, status := .failed, state := (g.verdict e f w).state, error := some f'
      steps := (g.verdict e f w).step, history := (g.verdict e f w).history } := by
  obtain ⟨f', read, retold, -⟩ := Failure.ofValue_toValue f
  have alike : f.Recalled f' :=
    ⟨retold, fun common => retold.alike (FailureKind.isRebuilt_of_isFatal isFatal common)⟩
  have error : (g.verdict e f w).error = f.toValue := by
    unfold verdict
    split <;> rfl
  have waitless : (g.verdict e f w).interrupt = none := by
    unfold verdict
    split <;> rfl
  have graph : (g.verdict e f w).graph = .str g.definition.name := by
    unfold verdict
    split
    · rename_i c last
      exact own c last
    · rfl
  have failure : (g.verdict e f w).failure? = .ok (some f') := by
    rw [Checkpoint.failure?, error, if_pos (by rfl), read]
    rfl
  have last : ((w.keep (g.verdict e f w)).records e.thread).getLast? = some (g.verdict e f w) := by
    rw [records_keep_self memory thread_verdict, List.getLast?_concat]
  refine ⟨f', alike, ?_⟩
  rw [fail_eq memory, outcome_congr (store_emitLast _ _), outcome_eq (memory.keep _) last graph, Outcome.ofCheckpoint,
    failure, status_verdict, waitless]
  rfl

/-- A failure is written down over the last record, or of the run as it stands if there is none. -/
theorem verdict_trails {P : List String → Prop} (whole : P [])
    (last : ∀ c, (w.records e.thread).getLast? = some c → ∃ lost, c.Trails e.position lost ∧ P lost) :
    ∃ lost, P lost ∧ (w.records e.thread = [] → lost = []) ∧ e.step = (g.verdict e f w).step + lost.length ∧
      e.history.map .str = (g.verdict e f w).history ++ lost.map Value.str ∧
      ∀ b, (w.records e.thread).getLast? = some b →
        (g.verdict e f w).step = b.step ∧ (g.verdict e f w).history = b.history := by
  cases hlast : (w.records e.thread).getLast? with
  | none =>
    rw [show g.verdict e f w = g.snapshot (e.failed f) w by rw [verdict, hlast]]
    refine ⟨[], whole, fun _ => rfl, (Int.add_zero _).symm, (List.append_nil _).symm, fun b hb => ?_⟩
    cases hb
  | some b =>
    obtain ⟨lost, ⟨⟨past, told, all⟩, step⟩, hP⟩ := last b hlast
    rw [show g.verdict e f w = w.drawUp (b.failed f.toValue) by rw [verdict, hlast]]
    refine ⟨lost, hP, fun none => ?_, step, ?_, fun b' hb => ?_⟩
    · rw [none] at hlast
      cases hlast
    · show e.history.map .str = b.history ++ lost.map .str
      rw [told, ← List.map_append]
      exact congrArg (List.map Value.str) all
    · cases hb
      exact ⟨rfl, rfl⟩

/-- A call that fails is told of by the last record before, failed, or by the run as it stands. -/
theorem outcome_of_failed {P : List String → Prop} (memory : w.InMemory) (isFatal : f.kind.isFatal = true)
    (whole : P []) (last : ∀ c, (w.records e.thread).getLast? = some c → c.graph = .str g.definition.name ∧
      ∃ lost, c.Trails e.position lost ∧ P lost) (ho : (g.fail e f w).2 = .ok o) :
    ∃ o' c lost, g.outcome e.thread (g.fail e f w).1 = .ok o' ∧ o.Agrees o' ∧
      (g.fail e f w).1.records e.thread = w.records e.thread ++ [c] ∧ o.Outruns o' (w.records e.thread) lost ∧
      P lost := by
  obtain ⟨f', alike, told⟩ := outcome_fail memory isFatal fun c hc => (last c hc).1
  obtain ⟨lost, hP, none, steps, history, kept⟩ :=
    verdict_trails (g := g) (f := f) whole fun c hc => (last c hc).2
  obtain ⟨c, records, -⟩ := fail_records memory rfl ho
  rw [fail_eq memory] at ho
  cases ho
  exact ⟨_, c, lost, told, ⟨rfl, rfl, rfl, rfl, .some alike⟩, records, ⟨kept, none, history, steps⟩, hP⟩

/-! ### Calls -/

/-- A run stands where its last record shows it when it is launched. -/
theorem Launches.trails (h : g.Launches w request run e entry v) (memory : w.InMemory) (reached : w.store.Reached) :
    ∃ p, e = p.running request.thread run.config.metadata ∧ run.Trails request.thread p v := by
  cases h with
  | @start thread input options config e providers u c opening _ save =>
    obtain ⟨-, p, -, -, rfl⟩ := origin_of_opening opening
    have joined : (w.joined thread options.observers).InMemory := memory.joined _ _
    rw [save_snapshot joined] at save
    cases save
    refine ⟨p, rfl, (joined.keep _).emit _, fun c hc => ?_⟩
    rw [records_emit, show Request.thread _ = thread from rfl, records_keep_self joined rfl, List.getLast?_concat] at hc
    cases hc
    exact ⟨rfl, [], ((p.running thread config.metadata).shows_checkpoint _ _ _).trails, fun _ => rfl⟩
  | @resume thread value options r providers resumption =>
    obtain ⟨c, p, last, -, -, -, depicts, execution⟩ := resumption_of_depicts (reached.depicts thread) resumption
    obtain ⟨load, graph⟩ := lastCheckpoint_eq_ok_iff.mp last
    refine ⟨p, execution, (memory.activate).emit _, fun c' hc' => ?_⟩
    rw [show Request.thread _ = thread from rfl, records_reopened] at hc'
    rw [load_eq memory] at load
    cases (Except.ok.inj load).symm.trans hc'
    exact ⟨Value.eq_str_of_equal graph, [], depicts.toShows.trails, fun _ => rfl⟩

/-- What is told of a thread agrees with the answer to a call. If the call did not fail, it is the answer. Otherwise the
    last record before that of the failure is told of, if there is one, and the last nodes may be left out: none, if the
    call ends a run that waited, and one at most, if every step is written down. -/
structure Retells (g : Engine) (w : Surroundings) (request : Request) (o o' : Outcome) : Prop extends o.Agrees o' where
  kept : o.status ≠ .failed → o' = o
  failed : o.status = .failed → ∃ records c lost,
    (g.serve w request).1.records request.thread = records ++ [c] ∧ o.Outruns o' records lost ∧
    (request = .cancel request.thread → lost = []) ∧
    ∀ run e entry v, g.Launches w request run e entry v → run.config.mode = .everyStep → lost.length ≤ 1

theorem Launches.run_eq {run' : Engine} {e' : Execution} {entry' : Entry} {v' : Surroundings}
    (h : g.Launches w request run e entry v) (h' : g.Launches w request run' e' entry' v') : run' = run := by
  cases h with
  | start opening _ _ layer =>
    cases h' with
    | start opening' _ _ layer' =>
      cases opening.symm.trans opening'
      cases layer.symm.trans layer'
      rfl
  | resume resumption layer =>
    cases h' with
    | resume resumption' layer' =>
      cases resumption.symm.trans resumption'
      cases layer.symm.trans layer'
      rfl

theorem Launches.outcome_eq {u : Surroundings} (h : g.Launches w request run e entry v) :
    run.outcome thread u = g.outcome thread u := by
  cases h <;> rfl

theorem Launches.uncancels (h : g.Launches w request run e entry v) : request ≠ .cancel request.thread := by
  cases h <;> exact Request.noConfusion

/-- A paused thread that a call ends is of the graph. -/
theorem graph_of_cancelled {c : Checkpoint} (memory : w.InMemory) (last : (w.records thread).getLast? = some c)
    (answered : (g.cancel thread w).2 = .ok (some o)) : c.graph = .str g.definition.name := by
  unfold cancel at answered
  split at answered
  · cases answered
  · dsimp only at answered
    split at answered
    · cases answered
    · cases answered
    · rename_i taken
      obtain ⟨c', told, -⟩ := bind_eq_ok.mp taken
      obtain ⟨last', graph⟩ := (lastCheckpoint_eq_ok memory).mp told
      cases last.symm.trans last'
      exact Value.eq_str_of_equal graph

/-- A paused thread that a call ends is told of by its last record, failed. -/
theorem retells_cancelled {c : Checkpoint} (memory : w.InMemory) (reached : w.store.Reached)
    (last : (w.records thread).getLast? = some c) (paused : c.status = .paused)
    (taken : Execution.ofCheckpoint c = .ok e) (own : e.thread = thread)
    (served : g.serve w (.cancel thread) =
      ((g.fail e (.cancelled thread) w).1, (g.fail e (.cancelled thread) w).2.map some))
    (ho : (g.serve w (.cancel thread)).2 = .ok (some o)) :
    ∃ o', g.outcome thread (g.serve w (.cancel thread)).1 = .ok o' ∧ g.Retells w (.cancel thread) o o' := by
  have graph := graph_of_cancelled memory last ho
  have load : w.store.load thread = .ok (some c) := (load_eq memory thread).trans (congrArg _ last)
  obtain ⟨p, -, depicts⟩ := (reached.depicts thread).shown (Store.reads_of_load load)
    (by rw [paused]; exact RunStatus.noConfusion)
  have stands : e.position = p := depicts.toShows.position_eq taken
  have answered : (g.fail e (.cancelled thread) w).2 = .ok o := by
    rw [served] at ho
    exact ok_of_map_some ho
  have last (c' : Checkpoint) (hc : (w.records e.thread).getLast? = some c') :
      c'.graph = .str g.definition.name ∧ ∃ lost, c'.Trails e.position lost ∧ lost = [] := by
    rw [own] at hc
    cases last.symm.trans hc
    exact ⟨graph, [], stands ▸ depicts.toShows.trails, rfl⟩
  obtain ⟨o', c', lost, told, agrees, records, outruns, rfl⟩ :=
    outcome_of_failed (P := (· = [])) memory rfl rfl last answered
  rw [own] at told records
  refine ⟨o', by rw [served]; exact told, agrees, fun unfailed => ?_, fun _ => ?_⟩
  · exact absurd (outcome_of_fail answered).1 unfailed
  · exact ⟨_, c', [], by rw [served]; exact records, own ▸ outruns, fun _ => rfl, fun _ _ _ _ _ _ => Nat.zero_le _⟩

/-- A run that a call launches is told of by what is written down of it last. -/
theorem Launches.retells (launch : g.Launches w request run e entry v) (memory : w.InMemory) (reached : w.store.Reached)
    (ho : (g.serve w request).2 = .ok (some o)) :
    ∃ o', g.outcome request.thread (g.serve w request).1 = .ok o' ∧ g.Retells w request o o' := by
  obtain ⟨p, rfl, trails⟩ := launch.trails memory reached
  obtain ⟨r, goes, ends⟩ := run_passes run (run.firstPass (p.running request.thread run.config.metadata) entry v)
  have served := launch.serve_eq
  have answered := launch.run_answered ho
  generalize run.run _ = x at served answered ends
  obtain ⟨p', entry', v', rfl, trails⟩ := trails.passes goes
  have left : g.outcome request.thread (g.serve w request).1 = run.outcome request.thread x.1 := by
    rw [served, ← launch.outcome_eq]
    exact outcome_congr rfl
  rw [left]
  by_cases failed : o.status = .failed
  · obtain ⟨e, u, f, fails, rfl⟩ := ends.fails answered failed
    obtain ⟨own, memory, isFatal, last⟩ := trails.fails fails
    obtain ⟨o', c, lost, told, agrees, records, outruns, few⟩ :=
      outcome_of_failed (P := fun lost => run.config.mode = .everyStep → lost.length ≤ 1) memory isFatal
        (fun _ => Nat.zero_le _) (own ▸ last) answered
    rw [own] at told records
    refine ⟨o', told, agrees, fun unfailed => absurd failed unfailed, fun _ => ?_⟩
    refine ⟨_, c, lost, by rw [served]; exact records, own ▸ outruns, fun cancels => ?_, ?_⟩
    · exact absurd cancels launch.uncancels
    · intro run' e' entry' v' launch' mode
      exact few (launch.run_eq launch' ▸ mode)
  · obtain ⟨told, none⟩ := ends.outcome_eq trails.memory answered failed
    exact ⟨o, told, ⟨rfl, rfl, rfl, rfl, by rw [none]; exact .none⟩, fun _ => rfl, fun h => absurd h failed⟩

/-- Whatever was done with a store in memory, a call that is answered with an outcome leaves the thread to be told of by
    an outcome that agrees with it. -/
theorem outcome_rebuilt (memory : w.InMemory) (reached : w.store.Reached) (ho : (g.serve w request).2 = .ok (some o)) :
    ∃ o', g.outcome request.thread (g.serve w request).1 = .ok o' ∧ g.Retells w request o o' := by
  cases g.serve_cases memory request with
  | idle _ _ untold => exact absurd ho (untold o)
  | begun _ served =>
    rw [served] at ho
    cases ho
  | deleted _ untold => exact absurd ho (untold o)
  | ended last paused taken own served => exact retells_cancelled memory reached last paused taken own served ho
  | entered enters =>
    obtain ⟨_, _, _, launch⟩ := enters.launches memory
    exact launch.retells memory reached ho

/-- A run that fails at its second step, of which nothing is written down but how it began. -/
theorem outcome_rebuilt_gathering :
    let g : Engine := { definition := .gathering .once, config := { mode := .interruptsOnly } }
    let request : Request := .start "t" .null {}
    ({} : Surroundings).InMemory ∧ ({} : Surroundings).store.Reached ∧
      ∃ o, (g.serve {} request).2 = .ok (some o) ∧ o.status = .failed ∧
        ∃ o', g.outcome "t" (g.serve {} request).1 = .ok o' ∧ g.Retells {} request o o' := by
  intro g request
  have memory : ({} : Surroundings).InMemory := ⟨[], rfl⟩
  have reached : ({} : Surroundings).store.Reached := .unused (.inl rfl)
  have answer : ((g.serve {} request).2.toOption.bind id).map Outcome.status = some .failed := by decide +kernel
  obtain ⟨o, ho, failed⟩ := exists_of_answer answer
  exact ⟨memory, reached, o, ho, failed, outcome_rebuilt memory reached ho⟩

/-- Logic that fails as nodes do, with a kind of its own. -/
def spent : Logic := fun _ _ =>
  .raise (.failure { Failure.nodeExecution "no words left" with kind := .derived "Spent" "node_execution" })

/-- What is to be seen of an answer, and of what is told of the thread afterwards. -/
theorem exists_of_seen {α : Type} {a b : α} (see : Outcome → α)
    (answer : ((g.serve w request).2.toOption.bind id).map see = some a)
    (retold : (g.outcome thread (g.serve w request).1).toOption.map see = some b) :
    ∃ o o', (g.serve w request).2 = .ok (some o) ∧ g.outcome thread (g.serve w request).1 = .ok o' ∧
      see o = a ∧ see o' = b := by
  obtain ⟨o, ho, told⟩ := exists_of_answer answer
  obtain ⟨o', ho', told'⟩ := exists_of_told retold
  exact ⟨o, o', ho, ho', told, told'⟩

/-- The step before a failure is told of by the answer, and is not by what is told of the thread afterwards. A failure
    of a kind of a caller's own is told of afterwards as one of the general kind. -/
theorem outcome_forgets :
    let g (logic : Logic) : Engine := { definition := .gathering logic, config := { mode := .interruptsOnly } }
    let request : Request := .start "t" .null {}
    ({} : Surroundings).InMemory ∧ ({} : Surroundings).store.Reached ∧
      (∃ o o', ((g .once).serve {} request).2 = .ok (some o) ∧
        (g .once).outcome "t" ((g .once).serve {} request).1 = .ok o' ∧
        o.steps = 1 ∧ o.history = [.str "ask"] ∧ o'.steps = 0 ∧ o'.history = []) ∧
      ∃ o o', ((g spent).serve {} request).2 = .ok (some o) ∧
        (g spent).outcome "t" ((g spent).serve {} request).1 = .ok o' ∧
        o.error.map Failure.kind = some (.derived "Spent" "node_execution") ∧
        o'.error.map Failure.kind = some .general := by
  intro g request
  refine ⟨⟨[], rfl⟩, .unused (.inl rfl), ?_, ?_⟩
  · have answer : (((g .once).serve {} request).2.toOption.bind id).map (fun o => (o.steps, o.history)) =
        some (1, [.str "ask"]) := by rfl
    have retold : ((g .once).outcome "t" ((g .once).serve {} request).1).toOption.map (fun o => (o.steps, o.history)) =
        some (0, []) := by rfl
    obtain ⟨o, o', ho, ho', told, told'⟩ := exists_of_seen _ answer retold
    simp only [Prod.mk.injEq] at told told'
    exact ⟨o, o', ho, ho', told.1, told.2, told'.1, told'.2⟩
  · have answer : (((g spent).serve {} request).2.toOption.bind id).map (fun o => o.error.map Failure.kind) =
        some (some (.derived "Spent" "node_execution")) := by rfl
    have retold : ((g spent).outcome "t" ((g spent).serve {} request).1).toOption.map
        (fun o => o.error.map Failure.kind) = some (some .general) := by rfl
    exact exists_of_seen _ answer retold

end Engine

end Workflow
