import Workflow.Proofs.Laps

/-! # Running threads

Which threads calls are running, and which of them were asked to end. Whatever a run does to its
surroundings comes down to telling observers, saving checkpoints and running nodes, so what these keep is
kept by the loop (`run_stable`). All of them leave the running threads as they are, and only running threads
are asked to end; so a thread is at rest when a call of it is over, however the call ends (`rests_serve`). -/

namespace Workflow

namespace Surroundings

variable {w : Surroundings} {thread other : String}

/-! ### What a run does to its surroundings -/

/-- What a run of the graph writes down of the thread: how it stands, or its failure over what was last written. -/
inductive Draws (w : Surroundings) (graph thread : String) : ((id timestamp : Value) → Checkpoint) → Prop
  | run {e : Execution} (own : e.thread = thread) : Draws w graph thread (e.checkpoint graph)
  | failure {last : Checkpoint} (load : w.store.load thread = .ok (some last)) (f : Failure) :
      Draws w graph thread (last.failed f.toValue)

/-- The property is kept by everything that a run of the graph in the thread does to its surroundings. -/
structure Stable (graph thread : String) (P : Surroundings → Prop) : Prop where
  emit : ∀ {w} e, e.thread = thread → P w → P (w.emit e)
  emitLast : ∀ {w} e, e.thread = thread → P w → P (w.emitLast e)
  save : ∀ {w snapshot}, w.Draws graph thread snapshot → P w → P (w.save snapshot).1
  absorb : ∀ {w} effects, P w → P (w.absorb thread effects)

theorem stable_of_never {P : Surroundings → Prop} (h : ∀ w, ¬ P w) (graph thread : String) : Stable graph thread P where
  emit _ _ hw := absurd hw (h _)
  emitLast _ _ hw := absurd hw (h _)
  save _ hw := absurd hw (h _)
  absorb _ hw := absurd hw (h _)

/-- The property is kept by everything that calls of the graph do to the thread, with these observers joining it. -/
structure StableCalls (graph thread : String) (observers : List Observer) (P : Surroundings → Prop) : Prop
    extends Stable graph thread P where
  owned : ∀ {w c}, P w → w.store.load thread = .ok (some c) → c.thread = .str thread
  attended : ∀ {w}, P w → P (w.attended thread observers)
  activate : ∀ {w}, P w → P (w.activate thread)
  release : ∀ {w}, P w → P (w.release thread)
  asked : ∀ {w}, P w → P (w.requestCancel thread)
  deleted : ∀ {w store n}, P w → w.store.delete thread = .ok (store, n) →
    P { w with store, bus := w.bus.clear thread }

theorem StableCalls.joined {graph thread : String} {observers : List Observer} {P : Surroundings → Prop}
    (h : StableCalls graph thread observers P) {w : Surroundings} (hw : P w) : P (w.joined thread observers) :=
  h.activate (h.attended hw)

@[simp] theorem active_requestCancel (w : Surroundings) (thread : String) :
    (w.requestCancel thread).active = w.active := by
  unfold requestCancel
  split <;> rfl

@[simp] theorem active_emit (w : Surroundings) (e : Event) : (w.emit e).active = w.active := by
  unfold emit
  dsimp only
  split
  · rw [active_requestCancel]
  · rfl

@[simp] theorem active_forget (w : Surroundings) (thread : String) : (w.forget thread).active = w.active := by
  unfold forget
  split <;> rfl

@[simp] theorem cancels_forget (w : Surroundings) (thread : String) : (w.forget thread).cancels = w.cancels := by
  unfold forget
  split <;> rfl

theorem active_absorb (w : Surroundings) (thread : String) (effects : Action.Effects) :
    (w.absorb thread effects).active = w.active :=
  absorb_induction (P := fun v => v.active = w.active) rfl (fun h => by rwa [active_forget]) fun _ h => by
    rwa [active_requestCancel]

/-- A request to end is added where it is heard, and no other goes. -/
theorem mem_cancels_requestCancel : other ∈ (w.requestCancel thread).cancels ↔
    other ∈ w.cancels ∨ other = thread ∧ thread ∈ w.active := by
  unfold requestCancel
  split
  · rename_i h
    simp only [Bool.and_eq_true, List.contains_iff_mem] at h
    simp [h.1]
  · rename_i h
    simp only [Bool.and_eq_true, List.contains_iff_mem, Bool.not_eq_true', not_and, Bool.not_eq_false] at h
    constructor
    · exact .inl
    · rintro (h' | ⟨rfl, h'⟩)
      · exact h'
      · simpa using h h'

/-- Only a running thread is asked to end. -/
theorem cancels_requestCancel (h : other ∈ (w.requestCancel thread).cancels) :
    other ∈ w.cancels ∨ other ∈ w.active := by
  rcases mem_cancels_requestCancel.mp h with h | ⟨rfl, running⟩
  · exact .inl h
  · exact .inr running

theorem cancels_emit (w : Surroundings) (e : Event) (h : other ∈ (w.emit e).cancels) :
    other ∈ w.cancels ∨ other ∈ w.active := by
  unfold emit at h
  dsimp only at h
  split at h
  · have asked := cancels_requestCancel h
    exact asked
  · exact .inl h

theorem cancels_absorb (w : Surroundings) (thread : String) (effects : Action.Effects)
    (h : other ∈ (w.absorb thread effects).cancels) : other ∈ w.cancels ∨ other ∈ w.active := by
  have kept : (w.absorb thread effects).active = w.active ∧
      (other ∈ (w.absorb thread effects).cancels → other ∈ w.cancels ∨ other ∈ w.active) := by
    refine absorb_induction
      (P := fun v => v.active = w.active ∧ (other ∈ v.cancels → other ∈ w.cancels ∨ other ∈ w.active)) ⟨rfl, .inl⟩ ?_ ?_
    · intro v hv
      rwa [active_forget, cancels_forget]
    · intro v _ hv
      rw [active_requestCancel]
      refine ⟨hv.1, fun asked => ?_⟩
      rcases cancels_requestCancel asked with asked | running
      · exact hv.2 asked
      · exact .inr (hv.1 ▸ running)
  exact kept.2 h

theorem stable_active (graph thread : String) {other : String} : Stable graph other (fun w => thread ∈ w.active) where
  emit e _ h := by rwa [active_emit]
  emitLast e _ h := by rwa [emitLast, active_emit]
  save _ h := h
  absorb effects h := by rwa [active_absorb]

/-! ### Threads at rest -/

/-- No call is running the thread, and nobody has asked it to end. -/
structure Rests (thread : String) (w : Surroundings) : Prop where
  inactive : thread ∉ w.active
  unasked : thread ∉ w.cancels

theorem stable_rests (thread : String) {graph other : String} : Stable graph other (Rests thread) where
  emit {w} e _ h := ⟨by simpa using h.inactive, fun hc => (w.cancels_emit e hc).elim h.unasked h.inactive⟩
  emitLast {w} e _ h := ⟨by simpa [emitLast] using h.inactive,
    fun hc => (w.cancels_emit e hc).elim h.unasked h.inactive⟩
  save _ h := ⟨h.inactive, h.unasked⟩
  absorb {w} effects h := ⟨by simpa [active_absorb] using h.inactive,
    fun hc => (w.cancels_absorb other effects hc).elim h.unasked h.inactive⟩

theorem rests_release (w : Surroundings) (thread : String) : (w.release thread).Rests thread := by
  constructor <;> simp [release]

theorem Rests.release (h : w.Rests thread) (other : String) : (w.release other).Rests thread :=
  ⟨fun ha => h.inactive (List.mem_filter.mp ha).1, fun hc => h.unasked (List.mem_filter.mp hc).1⟩

theorem Rests.activate (h : w.Rests thread) (hne : other ≠ thread) : (w.activate other).Rests thread := by
  unfold Surroundings.activate
  split
  · exact h
  · refine ⟨?_, h.unasked⟩
    simp only [List.mem_append, List.mem_singleton, not_or]
    exact ⟨h.inactive, hne.symm⟩

theorem Rests.isCancelled (h : w.Rests thread) : w.isCancelled thread = false := by
  simpa [Surroundings.isCancelled] using h.unasked

theorem mem_active_activate (w : Surroundings) (thread : String) : thread ∈ (w.activate thread).active := by
  unfold activate
  split
  · rename_i h
    exact List.contains_iff_mem.mp h
  · simp

/-! ### Requests to end -/

/-- A thread that was asked to end stays so. -/
theorem stable_isCancelled (graph thread : String) {running : String} :
    Stable graph running (fun w => w.isCancelled thread = true) := by
  have asked {w : Surroundings} (other : String) (h : w.isCancelled thread = true) :
      (w.requestCancel other).isCancelled thread = true := by
    simp only [isCancelled, List.contains_iff_mem] at h ⊢
    exact mem_cancels_requestCancel.mpr (.inl h)
  have emit {w : Surroundings} (e : Event) (h : w.isCancelled thread = true) :
      (w.emit e).isCancelled thread = true := by
    unfold Surroundings.emit
    dsimp only
    split
    · exact asked e.thread h
    · exact h
  refine ⟨fun e _ h => emit e h, fun e _ h => emit e h, fun _ h => h, fun {w} effects h => ?_⟩
  refine absorb_induction (P := fun v => v.isCancelled thread = true) h ?_ fun _ => asked running
  intro v hv
  rwa [isCancelled, cancels_forget]

/-- Logic that asks for the end of its running thread is heard. -/
theorem isCancelled_absorb (running : thread ∈ w.active) {effects : Action.Effects}
    (asks : effects.cancelled = true) : (w.absorb thread effects).isCancelled thread = true := by
  simp only [absorb, asks, if_true, isCancelled, List.contains_iff_mem, mem_cancels_requestCancel, true_and]
  right
  split <;> simpa using running

end Surroundings

namespace Engine

open Surroundings

variable {P : Surroundings → Prop} {g run : Engine} {q r : Pass} {x : Ended} {e : Execution} {w : Surroundings}

/-! ### The loop -/

theorem stable_save {thread : String} {v : Surroundings} {c : Except Fault Checkpoint} (h : Stable g.definition.name thread P)
    (hw : P w) (saved : g.save e w = (v, c)) (own : e.thread = thread) : P v := by
  have kept : P (g.save e w).1 := h.save (.run own) hw
  rwa [saved] at kept

theorem stable_pause (h : Stable g.definition.name e.thread P) (hw : P w) (node : String) (kind : InterruptKind) (prompt : Value) :
    P (g.pause e node kind prompt w).1 := by
  unfold pause
  dsimp only
  split <;> rename_i saved
  · exact stable_save h hw saved rfl
  · exact h.emit _ rfl (stable_save h hw saved rfl)

theorem stable_complete (h : Stable g.definition.name e.thread P) (hw : P w) : P (g.complete e w).1 := by
  unfold complete
  dsimp only
  split <;> rename_i saved
  · exact stable_save h hw saved rfl
  · exact h.emitLast _ rfl (stable_save h hw saved rfl)

theorem stable_record (h : Stable g.definition.name e.thread P) (hw : P w) (f : Failure) : P (g.record e f w).1 := by
  unfold record
  split
  · exact hw
  · rename_i load
    exact h.save (.failure load f) hw
  · exact h.save (.run (e := e) rfl) hw

theorem stable_fail (h : Stable g.definition.name e.thread P) (hw : P w) (f : Failure) : P (g.fail e f w).1 := by
  have kept : P (g.record { e with status := .failed, interrupt := none, error := some f } f w).1 :=
    stable_record (e := { e with status := .failed, interrupt := none, error := some f }) h hw f
  unfold fail
  dsimp only
  split <;> rename_i recorded <;> rw [recorded] at kept
  · exact kept
  · exact h.emitLast _ rfl kept

theorem stable_after (h : Stable g.definition.name q.execution.thread P) (hq : P q.around) : P (g.after q) := h.absorb _ hq

theorem stable_told (h : Stable g.definition.name q.execution.thread P) (hq : P q.around) (p : Position) : P (g.told q p) :=
  h.emit _ rfl (stable_after h hq)

theorem Goes.stable (h : Stable g.definition.name q.execution.thread P) (hq : P q.around) (hgoes : g.Goes q r) : P r.around := by
  cases hgoes with
  | unsaved => exact stable_told h hq _
  | saved _ _ _ _ save => exact stable_save h (stable_told h hq _) save rfl

theorem Ends.stable (h : Stable g.definition.name q.execution.thread P) (hq : P q.around) (hends : g.Ends q x) : P x.1 := by
  cases hends with
  | cancelled | exhausted => exact stable_fail h hq _
  | completed => exact stable_complete h hq
  | held => exact stable_pause h hq _ _ _
  | suspended => exact stable_pause h (stable_after h hq) _ _ _
  | withdrawn => exact stable_fail h (stable_after h hq) _
  | failed => exact stable_fail (e := q.execution.arrived _) h (stable_after h hq) _
  | lost => exact stable_after h hq
  | paused => exact stable_pause (e := q.execution.arrived _) h (stable_told h hq _) _ _ _
  | revoked => exact stable_fail (e := q.execution.arrived _) h (stable_told h hq _) _
  | unsaved _ _ _ _ save => exact stable_save h (stable_told h hq _) save rfl

theorem passes_thread (h : Relation.ReflTransGen g.Goes q r) : r.execution.thread = q.execution.thread := by
  induction h with
  | refl => rfl
  | tail _ hstep ih => cases hstep <;> exact ih

theorem passes_stable (h : Stable g.definition.name q.execution.thread P) (hq : P q.around) (hgoes : Relation.ReflTransGen g.Goes q r) :
    P r.around := by
  induction hgoes with
  | refl => exact hq
  | tail before hstep ih => exact hstep.stable (passes_thread before ▸ h) ih

theorem run_stable (h : Stable g.definition.name q.execution.thread P) (hq : P q.around) : P (g.run q).1 := by
  obtain ⟨r, hgoes, hends⟩ := g.run_passes q
  exact hends.stable (passes_thread hgoes ▸ h) (passes_stable h hq hgoes)

/-! ### Requests -/

theorem stable_proceed (h : Stable g.definition.name e.thread P) (hw : P w) (config : Config) (providers : List (String × Provider))
    (entry : Entry) : P (g.proceed config providers e entry w).1 := by
  unfold proceed
  split
  · exact hw
  · rename_i run same
    obtain ⟨ps, -, same⟩ := bind_eq_ok.mp same
    cases same
    exact run_stable (g := { g with config, providers := ps }) (q := ⟨_, e, entry, w⟩) h hw

theorem stable_begin (h : Stable g.definition.name e.thread P) (hw : P w) (config : Config) (providers : List (String × Provider)) :
    P (g.begin config providers e w).1 := by
  unfold begin
  split <;> rename_i saved
  · exact stable_save h hw saved rfl
  · exact stable_proceed h (h.emit _ rfl (stable_save h hw saved rfl)) _ _ _

/-- A new run is of the thread that is started. -/
theorem thread_of_begun {thread : String} {input : Value} {overrides : Overrides} {store : Store} {config : Config}
    (h : g.opening thread input overrides store = .ok (config, e)) : e.thread = thread := by
  simp only [opening, bind_eq_ok] at h
  obtain ⟨_, -, _, -, _, -, h⟩ := h
  split at h
  · cases h
  · split at h <;> cases h
    rfl

section Calls
variable {request : Request} (h : StableCalls g.definition.name request.thread request.options.observers P) (hw : P w)
include h hw

/-- What is resumed or ended is a run of the thread. -/
theorem thread_of_last {c : Checkpoint} (last : g.lastCheckpoint request.thread w.store = .ok c)
    (taken : Execution.ofCheckpoint c = .ok e) : e.thread = request.thread := by
  rw [thread_ofCheckpoint taken, h.owned hw (lastCheckpoint_eq_ok_iff.mp last).1]
  rfl

/-- A property that calls of the thread keep is kept by each of them. -/
theorem stable_serve : P (g.serve w request).1 := by
  cases request with
  | start thread input options =>
    simp only [serve, start]
    split
    · exact hw
    · rename_i opening
      split
      · exact h.attended hw
      · have begun := stable_begin (g := g) (thread_of_begun opening ▸ h.toStable) (h.joined hw)
        exact h.release (begun _ _)
  | resume thread value options =>
    simp only [serve, resume]
    split
    · exact hw
    · rename_i r resumption
      obtain ⟨c, _, _, e, last, -, -, taken, -, -, -, execution⟩ := taken_of_resumption resumption
      have own : r.execution.thread = thread := by
        rw [execution]
        exact thread_of_last (e := e) h hw last taken
      exact h.release (stable_proceed (own ▸ h.toStable) (h.emit _ own (h.activate hw)) _ _ _)
  | cancel thread =>
    simp only [serve, cancel]
    split
    · exact h.asked hw
    · split
      · exact hw
      · exact hw
      · rename_i e paused
        obtain ⟨c, last, paused⟩ := bind_eq_ok.mp paused
        split at paused
        · obtain ⟨e', taken, paused⟩ := bind_eq_ok.mp paused
          cases paused
          exact stable_fail (thread_of_last h hw last taken ▸ h.toStable) hw _
        · cases paused
  | delete thread =>
    simp only [serve, delete]
    split
    · exact hw
    · rename_i deleted
      exact h.deleted hw deleted

end Calls

/-- A thread that is at rest is so after any call, however the call ends. -/
theorem rests_serve {thread : String} (h : w.Rests thread) (request : Request) :
    (g.serve w request).1.Rests thread := by
  -- The thread of the call is at rest once the call has released it; no other thread is touched.
  cases request with
  | start other input options =>
    simp only [serve, start]
    have attended : (w.attended other options.observers).Rests thread := ⟨h.inactive, h.unasked⟩
    split
    · exact h
    · split
      · exact attended
      · by_cases own : other = thread
        · exact own ▸ rests_release _ _
        · exact (stable_begin (stable_rests thread) (attended.activate own) _ _).release other
  | resume other value options =>
    simp only [serve, resume]
    split
    · exact h
    · by_cases own : other = thread
      · exact own ▸ rests_release _ _
      · have stable {run : String} : Stable g.definition.name run (Rests thread) := stable_rests thread
        exact (stable_proceed stable (stable.emit _ rfl (h.activate own)) _ _ _).release other
  | cancel other =>
    simp only [serve, cancel]
    split
    · rename_i running
      have running : other ∈ w.active := List.contains_iff_mem.mp running
      refine ⟨by simpa using h.inactive, fun hc => ?_⟩
      rcases mem_cancels_requestCancel.mp hc with hc | ⟨rfl, -⟩
      · exact h.unasked hc
      · exact h.inactive running
    · split
      · exact h
      · exact h
      · exact stable_fail (stable_rests thread) h _
  | delete other =>
    simp only [serve, delete]
    split
    · exact h
    · exact ⟨h.inactive, h.unasked⟩

theorem rests_serveAll {thread : String} (h : w.Rests thread) (requests : List Request) :
    (g.serveAll w requests).Rests thread := by
  induction requests generalizing w with
  | nil => exact h
  | cons request _ ih => exact ih (rests_serve h request)

end Engine

end Workflow
