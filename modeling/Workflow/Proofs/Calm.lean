import Workflow.Proofs.Requests

/-! Calm surroundings, in which nobody asks for the end of a thread: the store is in memory, there is no
    such request, and no observer makes one. Telling observers, writing down and running nodes that do not
    ask for the end leave surroundings calm. -/

namespace Workflow

/-- None of the observers ever asks for the end of a run. -/
def Watching (observers : List Observer) : Prop := ∀ o ∈ observers, ∀ e, Reaction.cancel ∉ o.react e

/-- No observer of the thread ever asks for its end. -/
def Bus.QuietFor (b : Bus) (thread : String) : Prop :=
  ∀ r ∈ b.registrations, r.thread = thread → ∀ e, Reaction.cancel ∉ r.observer.react e

/-- No observer ever asks for the end of a run. -/
def Bus.Quiet (b : Bus) : Prop := ∀ r ∈ b.registrations, ∀ e, Reaction.cancel ∉ r.observer.react e

namespace Bus

variable {b : Bus} {e : Event} {r : Registration} {thread : String} {observers : List Observer}

theorem mem_registrations_unsubscribe {handle : String} (h : r ∈ (b.unsubscribe handle).registrations) :
    r ∈ b.registrations := by
  unfold unsubscribe at h
  split at h
  · exact List.mem_of_mem_eraseP h
  · exact h

/-- Whatever observers do about an event, no new one is there after it. -/
theorem mem_registrations_emitted (h : r ∈ (b.emitted e).registrations) : r ∈ b.registrations := by
  unfold emitted at h
  generalize b.reactions e = reactions at h
  induction reactions generalizing b with
  | nil => exact h
  | cons reaction reactions ih =>
    have hr := ih h
    cases reaction with
    | unsubscribe handle => exact mem_registrations_unsubscribe hr
    | cancel => exact hr

theorem subscribeAll_eq (b : Bus) (thread : String) (observers : List Observer) : b.subscribeAll thread observers =
    { b with registrations := b.registrations ++ observers.map (⟨thread, ·⟩) } := by
  induction observers generalizing b with
  | nil => simp [subscribeAll]
  | cons o observers ih =>
    have next : b.subscribeAll thread (o :: observers) = (b.subscribe thread o).subscribeAll thread observers := rfl
    rw [next, ih]
    simp [subscribe]

theorem registrations_subscribeAll (b : Bus) (thread : String) (observers : List Observer) :
    (b.subscribeAll thread observers).registrations = b.registrations ++ observers.map (⟨thread, ·⟩) := by
  rw [subscribeAll_eq]

theorem mem_receivers {o : Observer} (h : o ∈ b.receivers e) :
    ∃ r ∈ b.registrations, r.thread = e.thread ∧ r.observer = o := by
  unfold receivers audience at h
  split at h
  · obtain ⟨r, hr, same⟩ := List.mem_map.mp h
    obtain ⟨hr, own⟩ := List.mem_filter.mp hr
    exact ⟨r, hr, beq_iff_eq.mp own, same⟩
  · cases h

/-- Only those who follow its thread do something about an event. -/
theorem mem_reactions {reaction : Reaction} (h : reaction ∈ b.reactions e) :
    ∃ r ∈ b.registrations, r.thread = e.thread ∧ reaction ∈ r.observer.react e := by
  rw [reactions, hear_eq] at h
  obtain ⟨o, ho, hreact⟩ := List.mem_flatMap.mp h
  obtain ⟨r, hr, own, rfl⟩ := mem_receivers ho
  exact ⟨r, hr, own, hreact⟩

theorem QuietFor.emitted (h : b.QuietFor thread) (e : Event) : (b.emitted e).QuietFor thread :=
  fun r hr => h r (mem_registrations_emitted hr)

theorem QuietFor.asksCancel (h : b.QuietFor thread) (he : e.thread = thread) : b.asksCancel e = false := by
  rw [Bus.asksCancel, List.contains_eq_mem, decide_eq_false_iff_not]
  intro hmem
  obtain ⟨r, hr, own, hreact⟩ := mem_reactions hmem
  exact h r hr (own.trans he) e hreact

/-- A thread that has no observers yet has those that join it. -/
theorem quietFor_joined (h : ∀ r ∈ b.registrations, r.thread ≠ thread) (ho : Watching observers) :
    (b.subscribeAll thread observers).QuietFor thread := by
  intro r hr own
  rw [registrations_subscribeAll, List.mem_append, List.mem_map] at hr
  rcases hr with hr | ⟨o, hmem, rfl⟩
  · exact absurd own (h r hr)
  · exact ho o hmem

theorem Quiet.emitted (h : b.Quiet) (e : Event) : (b.emitted e).Quiet :=
  fun r hr => h r (mem_registrations_emitted hr)

theorem Quiet.asksCancel (h : b.Quiet) (e : Event) : b.asksCancel e = false :=
  have quiet : b.QuietFor e.thread := fun r hr _ => h r hr
  quiet.asksCancel rfl

theorem Quiet.clear (h : b.Quiet) (thread : String) : (b.clear thread).Quiet :=
  fun r hr => h r (List.mem_filter.mp hr).1

theorem Quiet.subscribeAll (h : b.Quiet) (ho : Watching observers) (thread : String) :
    (b.subscribeAll thread observers).Quiet := by
  intro r hr
  rw [registrations_subscribeAll, List.mem_append, List.mem_map] at hr
  rcases hr with hr | ⟨o, hmem, rfl⟩
  · exact h r hr
  · exact ho o hmem

end Bus

namespace Surroundings

/-- Nobody asks for the end of the thread. -/
structure Calm (w : Surroundings) (thread : String) : Prop where
  memory : w.InMemory
  uncancelled : w.isCancelled thread = false
  quiet : w.bus.Quiet

variable {w : Surroundings} {thread other : String} {effects : Action.Effects}

/-- Nobody is there at first. -/
theorem calm_empty (thread : String) : ({} : Surroundings).Calm thread :=
  ⟨⟨[], rfl⟩, rfl, fun _ h => (List.not_mem_nil h).elim⟩

theorem emit_of_quiet (h : w.bus.Quiet) (e : Event) :
    w.emit e = { w with bus := w.bus.emitted e, deliveries := w.deliveries ++ w.bus.deliveries e } :=
  if_neg (ne_true_of_eq_false (h.asksCancel e))

theorem Calm.emit (h : w.Calm thread) (e : Event) : (w.emit e).Calm thread := by
  rw [emit_of_quiet h.quiet]
  exact ⟨h.memory, h.uncancelled, h.quiet.emitted e⟩

theorem Calm.keep (h : w.Calm thread) (c : Checkpoint) : (w.keep c).Calm thread :=
  ⟨h.memory.keep c, h.uncancelled, h.quiet⟩

theorem Calm.activate (h : w.Calm thread) : (w.activate other).Calm thread := by
  unfold Surroundings.activate
  split
  · exact h
  · exact ⟨h.memory, h.uncancelled, h.quiet⟩

theorem Calm.release (h : w.Calm thread) : (w.release thread).Calm thread :=
  ⟨h.memory, w.isCancelled_release thread, h.quiet⟩

theorem absorb_of_calm (hc : effects.cancelled = false) (hf : effects.forgotten = false) :
    w.absorb thread effects = { w with calls := effects.calls, trace := w.trace ++ effects.trace } := by
  rw [absorb, hc, hf]
  rfl

/-! ### The calls that providers served -/

theorem calls_emit (h : w.bus.Quiet) (e : Event) : (w.emit e).calls = w.calls := by
  rw [emit_of_quiet h]

@[simp] theorem calls_keep (w : Surroundings) (c : Checkpoint) : (w.keep c).calls = w.calls := rfl

@[simp] theorem calls_activate (w : Surroundings) (thread : String) : (w.activate thread).calls = w.calls := by
  unfold activate
  split <;> rfl

end Surroundings

namespace Engine

variable {w : Surroundings} {e : Execution} {thread : String}

theorem calm_opened (g : Engine) (h : w.Calm thread) : (g.opened e [] w).Calm thread :=
  (((show (w.attended e.thread []).Calm thread from h).activate).keep _).emit _

theorem calls_opened (g : Engine) (h : w.Calm thread) : (g.opened e [] w).calls = w.calls := by
  have joined : (w.joined e.thread []).Calm thread :=
    (show (w.attended e.thread []).Calm thread from h).activate
  rw [opened, Surroundings.calls_emit (joined.keep _).quiet, Surroundings.calls_keep, Surroundings.joined,
    Surroundings.calls_activate]
  rfl

theorem calm_reopened {r : Resumption} (h : w.Calm thread) : (reopened r thread w).Calm thread :=
  h.activate.emit _

theorem calls_reopened {r : Resumption} (h : w.Calm thread) : (reopened r thread w).calls = w.calls := by
  rw [reopened, Surroundings.calls_emit (h.activate).quiet, Surroundings.calls_activate]

end Engine

end Workflow
