import Workflow.Proofs.Belonging
import Workflow.Proofs.Heard

/-! # Requests to end that observers make

An observer may ask for the end of a run when it is told of an event. When it is told that the run begins or is taken
up, or of a step, the request is heeded before another node is run: the run fails as one that was asked to end
(`heeded_of_asked`). When it is told that the run waits, the run has been written down already; it goes on waiting, and
the request is over with the call (`waits_of_paused`, `unheeded_inquiry`). -/

namespace Workflow

namespace Surroundings

variable {w : Surroundings} {e : Event}

/-- A running thread has been asked to end after an event if it was before, or a receiver of the event asks for it. -/
theorem isCancelled_emit (running : e.thread ∈ w.active) :
    (w.emit e).isCancelled e.thread = (w.isCancelled e.thread || w.bus.asksCancel e) := by
  unfold emit
  dsimp only
  split
  · rename_i asks
    rw [asks, Bool.or_true, isCancelled, List.contains_iff_mem, mem_cancels_requestCancel]
    exact .inr ⟨rfl, running⟩
  · rename_i silent
    rw [Bool.eq_false_iff.mpr silent, Bool.or_false]
    rfl

end Surroundings

namespace Engine

variable {g run : Engine} {w : Surroundings} {request : Request} {a q : Pass} {p : Position} {o : Outcome}

/-! ### Requests between nodes -/

/-- The thread has been asked to end when its run comes to the first node, or when a step has been told. -/
inductive AskedBetween (g : Engine) (a : Pass) : Prop
  | before (asked : a.around.isCancelled a.execution.thread = true) : AskedBetween g a
  | after {q : Pass} {p : Position} (goes : Relation.ReflTransGen g.Goes a q) (runs : g.Runs q)
      (reached : (g.turnAt q).2 = .reached p) (asked : (g.told q p).isCancelled q.execution.thread = true) :
      AskedBetween g a

/-- A run whose thread has been asked to end when a step has been told fails before another node, unless the step cannot
    be written down. -/
theorem run_of_told_asked (runs : g.Runs q) (reached : (g.turnAt q).2 = .reached p)
    (asked : (g.told q p).isCancelled q.execution.thread = true) :
    (∃ v, g.run q = g.fail (q.execution.arrived p) (.cancelled q.execution.thread) v ∧
      (v = g.told q p ∨ ∃ c, g.save (q.execution.arrived p) (g.told q p) = (v, .ok c))) ∨
    ∃ v f, g.save (q.execution.arrived p) (g.told q p) = (v, .error f) ∧ g.run q = (v, .error f) := by
  have next : ∀ {v : Surroundings}, v.isCancelled q.execution.thread = true →
      g.run ⟨q.left - 1, q.execution.arrived p, {}, v⟩ =
        g.fail (q.execution.arrived p) (.cancelled q.execution.thread) v := fun cancelled => by
    rw [run_eq]
    exact if_pos cancelled
  rw [run_of_runs runs, reached, follow_reached]
  by_cases held : g.config.after.contains q.execution.node
  · rw [if_pos held, if_pos asked]
    exact .inl ⟨_, rfl, .inl rfl⟩
  · rw [if_neg held]
    cases g.config.mode with
    | interruptsOnly => exact .inl ⟨_, next asked, .inl rfl⟩
    | everyStep =>
      dsimp only
      rcases save : g.save (q.execution.arrived p) (g.told q p) with ⟨v, f | c⟩
      · exact .inr ⟨v, f, rfl, rfl⟩
      · have cancelled := stable_save (Surroundings.stable_isCancelled g.definition.name q.execution.thread) asked save rfl
        exact .inl ⟨v, next cancelled, .inr ⟨c, rfl⟩⟩

/-- Whatever the store is, a run that is answered for has failed if its thread was asked to end between nodes. -/
theorem outcome_of_askedBetween (asked : g.AskedBetween a) (answered : (g.run a).2 = .ok o) :
    o.status = .failed ∧ o.error = some (.cancelled a.execution.thread) := by
  cases asked with
  | before asked =>
    rw [run_eq, if_pos asked] at answered
    exact (outcome_of_fail answered).imp_right And.left
  | after goes runs reached asked =>
    rw [run_eq_of_goes goes] at answered
    rw [← passes_thread goes]
    rcases run_of_told_asked runs reached asked with ⟨v, failed, -⟩ | ⟨v, f, -, refused⟩
    · rw [failed] at answered
      exact (outcome_of_fail answered).imp_right And.left
    · rw [refused] at answered
      cases answered

/-- In memory, the run fails. -/
theorem run_of_askedBetween (hm : a.around.InMemory) (ours : g.Ours a.execution.thread a.around)
    (asked : g.AskedBetween a) : ∃ e v, g.run a = g.fail e (.cancelled a.execution.thread) v ∧ v.InMemory ∧
      e.thread = a.execution.thread ∧ g.Ours e.thread v := by
  cases asked with
  | before asked => exact ⟨_, _, by rw [run_eq, if_pos asked], hm, rfl, ours⟩
  | @after q p goes runs reached asked =>
    obtain ⟨memory, ours⟩ := passes_ours ours hm goes
    rw [run_eq_of_goes goes, ← passes_thread goes]
    have save := save_snapshot (g := g) (e := q.execution.arrived p) (inMemory_told (g := g) (p := p) memory)
    rcases run_of_told_asked runs reached asked with ⟨v, failed, rfl | ⟨c, saved⟩⟩ | ⟨v, f, refused, -⟩
    · exact ⟨_, _, failed, inMemory_told memory, rfl, ours_told ours memory p⟩
    · cases save.symm.trans saved
      exact ⟨_, _, failed, (inMemory_told memory).keep _, rfl, ours_keep (inMemory_told memory) rfl rfl⟩
    · cases save.symm.trans refused

theorem error_verdict {e : Execution} {f : Failure} : (g.verdict e f w).error = f.toValue := by
  unfold verdict
  split <;> rfl

/-! ### Requests that are heeded -/

/-- A request to end the thread of a call is heeded. -/
structure Heeded (g : Engine) (w : Surroundings) (request : Request) : Prop where
  answer : ∃ o, (g.serve w request).2 = .ok (some o) ∧ o.status = .failed ∧ o.error = some (.cancelled request.thread)
  last : ∃ c, ((g.serve w request).1.records request.thread).getLast? = some c ∧ c.status = .failed ∧
    c.error = (Failure.cancelled request.thread).toValue
  ended : ∀ value options, (g.serve (g.serve w request).1 (.resume request.thread value options)).2 =
    .error (.failure (.invalidResume request.thread RunStatus.failed.name))
  rests : (g.serve w request).1.Rests request.thread

/-- A request that is made while the run of a call goes on, and no node is run, is heeded. -/
theorem heeded_of_asked (hm : w.InMemory) (enters : g.Enters w request run a) (asked : run.AskedBetween a) :
    g.Heeded w request := by
  obtain ⟨hd, ours⟩ := enters.ours hm
  obtain ⟨e, v, failed, hv, own, ours⟩ := run_of_askedBetween (enters.inMemory hm) ours asked
  have served := enters.serve_eq hm
  rw [enters.thread_eq hm] at own failed
  rw [failed] at served
  have last : ((g.serve w request).1.records request.thread).getLast? =
      some (run.verdict e (.cancelled request.thread) v) := by
    rw [served, ← own]
    show ((run.fail e _ v).1.records e.thread).getLast? = _
    rw [fail_eq hv, Surroundings.records_emitLast, Surroundings.records_keep_self hv thread_verdict, List.getLast?_concat]
  refine ⟨?_, ⟨_, last, status_verdict, error_verdict⟩, fun value options => ?_, ?_⟩
  · rw [served, fail_eq hv]
    exact ⟨_, rfl, rfl, rfl⟩
  · have after := (serve_frame g hm request).1
    exact resume_of_failed ((lastCheckpoint_eq_ok after).mpr ⟨last, hd ▸ graph_verdict ours⟩) status_verdict
  · rw [served]
    exact Surroundings.rests_release _ _

/-- A thread at rest has been asked to end when its run comes to the first node exactly if an observer asks when it is
    told that the run begins or is taken up. -/
theorem Enters.asked_before (enters : g.Enters w request run a) (hm : w.InMemory) (rests : w.Rests request.thread) :
    ∃ (v : Surroundings) (event : Event), event.thread = request.thread ∧ (event.kind = .runStarted ∨ event.kind = .resumed) ∧
      a.around = v.emit event ∧ a.around.isCancelled a.execution.thread = v.bus.asksCancel event := by
  have own := enters.thread_eq hm
  have asked : ∀ {v : Surroundings} {event : Event}, event.thread = a.execution.thread →
      a.execution.thread ∈ v.active → v.cancels = w.cancels →
      (v.emit event).isCancelled a.execution.thread = v.bus.asksCancel event := fun same running cancels => by
    have unasked := (own ▸ rests : w.Rests a.execution.thread).isCancelled
    rw [← same, Surroundings.isCancelled_emit (same ▸ running), Surroundings.isCancelled, cancels, same,
      show w.cancels.contains _ = false from unasked, Bool.false_or]
  have activated : ∀ u : Surroundings, (u.activate request.thread).cancels = u.cancels := fun u => by
    unfold Surroundings.activate
    split <;> rfl
  cases enters with
  | start opening =>
    obtain rfl := thread_of_opening hm opening
    exact ⟨_, _, rfl, .inl rfl, rfl, asked rfl (Surroundings.mem_active_activate _ _) (activated _)⟩
  | resume resumption =>
    obtain rfl := thread_of_resumption hm resumption
    exact ⟨_, _, rfl, .inr rfl, rfl, asked rfl (Surroundings.mem_active_activate _ _) (activated _)⟩

/-- After a step, the thread has been asked to end if it was before, or an observer asks when it is told of the step. -/
theorem asked_told (running : q.execution.thread ∈ q.around.active) (p : Position) :
    (g.told q p).isCancelled q.execution.thread =
      ((g.after q).isCancelled q.execution.thread || (g.after q).bus.asksCancel
        { kind := .stepCompleted, thread := q.execution.thread, node := q.execution.node, step := p.step
          data := [("next_node", .str p.node)] }) := by
  refine Surroundings.isCancelled_emit ?_
  show _ ∈ (Surroundings.absorb _ _ _).active
  rwa [Surroundings.active_absorb]

/-! ### Requests that are not heeded -/

/-- Whatever observers ask for when they are told that a run waits, it waits, and the request is over with the call. -/
theorem waits_of_paused (hm : w.InMemory) (e : Execution) (node : String) (kind : InterruptKind) (prompt : Value) :
    let x := g.pause e node kind prompt w
    x.2 = .ok (e.paused node kind prompt).outcome ∧
      (x.1.release e.thread).records e.thread = w.records e.thread ++ [g.snapshot (e.paused node kind prompt) w] ∧
      (x.1.release e.thread).Rests e.thread := by
  intro x
  have paused : x = _ := pause_eq hm node kind prompt
  have own : (g.snapshot (e.paused node kind prompt) w).thread = .str e.thread := rfl
  refine ⟨congrArg Prod.snd paused, ?_, Surroundings.rests_release _ _⟩
  show x.1.records e.thread = _
  rw [paused, Surroundings.records_emit, Surroundings.records_keep_self hm own]

/-- An observer that asks for the end of its thread when it is told of an event of this kind. -/
def halting (kind : EventKind) : Observer := { name := "a", react := fun e => if e.kind = kind then [.cancel] else [] }

/-- An observer ends a run that begins, but not one that waits for a word: the request is taken, and the thread can be
    resumed after it. -/
theorem unheeded_inquiry :
    let start := fun kind => inquirer.start "t" .null { observers := [halting kind] } {}
    let v := (start .interrupted).1
    (start .runStarted).2.toOption.map Outcome.status = some .failed ∧
      (start .interrupted).2.toOption.map Outcome.status = some .paused ∧
      v.deliveries.map (fun d => d.event.kind) = [.runStarted, .interrupted] ∧ v.cancels = [] ∧
      (v.records "t").getLast?.map Checkpoint.status = some .paused ∧
      (inquirer.resume "t" (.str "tick") {} v).2.toOption.map Outcome.steps = some 1 := by
  refine ⟨?_, ?_, ?_, ?_, ?_, ?_⟩ <;> decide +kernel

end Engine

end Workflow
