import Workflow.Proofs.Pass

/-! What passes and endings write down, where the store is in memory. A pass that goes on puts at most one
    checkpoint after the records of its thread, and every ending but a lost one puts exactly one there;
    the records of other threads stay. -/

namespace Workflow

namespace Execution

def paused (e : Execution) (node : String) (kind : InterruptKind) (prompt : Value) : Execution :=
  { e with status := .paused, interrupt := some { node := .str node, prompt, kind } }

def completed (e : Execution) : Execution := { e with status := .completed }

def failed (e : Execution) (f : Failure) : Execution :=
  { e with status := .failed, interrupt := none, error := some f }

end Execution

namespace Engine

variable {g : Engine} {q r : Pass} {p : Position} {e : Execution} {w : Surroundings} {other : String}

/-! ### Passes that go on -/

/-- The surroundings after a step has been told and, if every step is, written down. -/
def noted (g : Engine) (q : Pass) (p : Position) : Surroundings :=
  match g.config.mode with
  | .interruptsOnly => g.told q p
  | .everyStep => (g.told q p).keep (g.snapshot (q.execution.arrived p) (g.told q p))

theorem inMemory_after (h : q.around.InMemory) : (g.after q).InMemory := h.absorb _ _

theorem inMemory_told (h : q.around.InMemory) : (g.told q p).InMemory := (inMemory_after h).emit _

theorem inMemory_noted (h : q.around.InMemory) : (g.noted q p).InMemory := by
  unfold noted
  split
  · exact inMemory_told h
  · exact (inMemory_told h).keep _

theorem thread_snapshot : (g.snapshot e w).thread = .str e.thread := rfl

theorem save_snapshot (h : w.InMemory) : g.save e w = (w.keep (g.snapshot e w), .ok (g.snapshot e w)) :=
  w.save_eq h _

/-- In memory, a pass goes on to a pass that its step determines. -/
theorem Goes.next (h : g.Goes q r) (hm : q.around.InMemory) : ∃ p, g.Runs q ∧ (g.turnAt q).2 = .reached p ∧
    q.execution.node ∉ g.config.after ∧ r = ⟨q.left - 1, q.execution.arrived p, {}, g.noted q p⟩ := by
  cases h with
  | unsaved runs reached free mode => exact ⟨_, runs, reached, free, by rw [noted, mode]⟩
  | saved runs reached free mode save =>
    rw [save_snapshot (inMemory_told hm)] at save
    cases save
    exact ⟨_, runs, reached, free, by rw [noted, mode]⟩

theorem mem_records_after {c : Checkpoint} (h : q.around.InMemory)
    (hc : c ∈ (g.after q).records q.execution.thread) : c ∈ q.around.records q.execution.thread :=
  Surroundings.mem_records_absorb h hc

theorem records_told : (g.told q p).records other = (g.after q).records other := Surroundings.records_emit

theorem records_after_of_ne (h : q.around.InMemory) (hne : q.execution.thread ≠ other) :
    (g.after q).records other = q.around.records other :=
  Surroundings.records_absorb_of_ne h hne _

theorem records_noted_of_ne (h : q.around.InMemory) (hne : q.execution.thread ≠ other) :
    (g.noted q p).records other = q.around.records other := by
  rw [← records_after_of_ne (g := g) h hne, ← records_told (p := p)]
  unfold noted
  split
  · rfl
  · exact Surroundings.records_keep_of_ne (inMemory_told h) thread_snapshot hne

/-! ### Endings -/

theorem pause_eq (h : w.InMemory) (node : String) (kind : InterruptKind) (prompt : Value) :
    g.pause e node kind prompt w =
      ((w.keep (g.snapshot (e.paused node kind prompt) w)).emit
          { kind := .interrupted, thread := e.thread, node, step := e.step
            data := [("interrupt", Interrupt.toValue { node := .str node, prompt, kind })] },
        .ok (e.paused node kind prompt).outcome) := by
  have hs := save_snapshot (g := g) (e := e.paused node kind prompt) h
  unfold pause
  dsimp only
  rw [show g.save { e with status := .paused, interrupt := some { node := .str node, prompt, kind } } w = _ from hs]
  rfl

theorem complete_eq (h : w.InMemory) :
    g.complete e w =
      ((w.keep (g.snapshot e.completed w)).emitLast
          { kind := .completed, thread := e.thread, step := e.step, data := [("steps", .int e.step)] },
        .ok e.completed.outcome) := by
  have hs := save_snapshot (g := g) (e := e.completed) h
  unfold complete
  dsimp only
  rw [show g.save { e with status := .completed } w = _ from hs]
  rfl

/-- What is written down of a failure: the last record of the thread, failed, or the run as it stands. -/
def verdict (g : Engine) (e : Execution) (f : Failure) (w : Surroundings) : Checkpoint :=
  match (w.records e.thread).getLast? with
  | some last => w.drawUp (last.failed f.toValue)
  | none => g.snapshot (e.failed f) w

theorem record_eq (h : w.InMemory) (f : Failure) :
    g.record (e.failed f) f w = (w.keep (g.verdict e f w), .ok (g.verdict e f w)) := by
  have hl : w.store.load (e.failed f).thread = .ok (w.records e.thread).getLast? := Surroundings.load_eq h _
  unfold record verdict
  rw [hl]
  cases (w.records e.thread).getLast? with
  | none => exact save_snapshot h
  | some last => exact w.save_eq h _

theorem fail_eq (h : w.InMemory) (f : Failure) :
    g.fail e f w =
      ((w.keep (g.verdict e f w)).emitLast
          { kind := .failed, thread := e.thread, node := e.node, step := e.step
            data := [("error", f.toValue)] },
        .ok { (e.failed f).outcome with state := (g.verdict e f w).state }) := by
  have hr := record_eq (g := g) (e := e) h f
  unfold fail
  dsimp only
  rw [show g.record { e with status := .failed, interrupt := none, error := some f } f w = _ from hr]
  rfl

theorem thread_verdict {f : Failure} : (g.verdict e f w).thread = .str e.thread := by
  unfold verdict
  split
  · rename_i last h
    exact (Surroundings.thread_of_mem_records (List.mem_of_getLast? h) : last.thread = _)
  · rfl

theorem status_verdict {f : Failure} : (g.verdict e f w).status = .failed := by
  unfold verdict
  split <;> rfl

/-- How a call ends: the run pauses, is completed or fails, or the graph has lost its way. -/
inductive Writes (g : Engine) (e : Execution) (w : Surroundings) : Ended → Prop
  | paused (node : String) (kind : InterruptKind) (prompt : Value) :
      Writes g e w (g.pause e node kind prompt w)
  | completed : Writes g e w (g.complete e w)
  | failed (f : Failure) : Writes g e w (g.fail e f w)
  | lost (f : Fault) : Writes g e w (w, .error f)

variable {x : Ended}

theorem Writes.inMemory (h : g.Writes e w x) (hm : w.InMemory) : x.1.InMemory := by
  cases h with
  | paused =>
    rw [pause_eq hm]
    exact (hm.keep _).emit _
  | completed =>
    rw [complete_eq hm]
    exact (hm.keep _).emitLast _
  | failed f =>
    rw [fail_eq hm]
    exact (hm.keep _).emitLast _
  | lost => exact hm

theorem Writes.records_of_ne (h : g.Writes e w x) (hm : w.InMemory) (hne : e.thread ≠ other) :
    x.1.records other = w.records other := by
  cases h with
  | paused =>
    rw [pause_eq hm, Surroundings.records_emit]
    exact Surroundings.records_keep_of_ne hm thread_snapshot hne
  | completed =>
    rw [complete_eq hm, Surroundings.records_emitLast]
    exact Surroundings.records_keep_of_ne hm thread_snapshot hne
  | failed f =>
    rw [fail_eq hm, Surroundings.records_emitLast]
    exact Surroundings.records_keep_of_ne hm thread_verdict hne
  | lost => rfl

/-- In memory, the last pass of a call ends in one of these ways, with the thread of its run. -/
theorem Ends.writes (h : g.Ends q x) (hm : q.around.InMemory) : ∃ e w, g.Writes e w x ∧ w.InMemory ∧
    e.thread = q.execution.thread ∧
    ∀ other, q.execution.thread ≠ other → w.records other = q.around.records other := by
  have after := inMemory_after (g := g) hm
  have frame : ∀ other, q.execution.thread ≠ other → (g.after q).records other = q.around.records other :=
    fun _ hne => records_after_of_ne hm hne
  cases h with
  | cancelled => exact ⟨_, _, .failed _, hm, rfl, fun _ _ => rfl⟩
  | completed => exact ⟨_, _, .completed, hm, rfl, fun _ _ => rfl⟩
  | exhausted => exact ⟨_, _, .failed _, hm, rfl, fun _ _ => rfl⟩
  | held => exact ⟨_, _, .paused _ _ _, hm, rfl, fun _ _ => rfl⟩
  | suspended => exact ⟨_, _, .paused _ _ _, after, rfl, frame⟩
  | withdrawn => exact ⟨_, _, .failed _, after, rfl, frame⟩
  | failed => exact ⟨_, _, .failed _, after, rfl, frame⟩
  | lost => exact ⟨q.execution, _, .lost _, after, rfl, frame⟩
  | paused => exact ⟨_, _, .paused _ _ _, inMemory_told hm, rfl, fun _ hne => records_told.trans (frame _ hne)⟩
  | revoked => exact ⟨_, _, .failed _, inMemory_told hm, rfl, fun _ hne => records_told.trans (frame _ hne)⟩
  | unsaved _ _ _ _ save =>
    rw [save_snapshot (inMemory_told hm)] at save
    cases save

/-! ### What the whole loop keeps -/

/-- In memory, a loop leaves the store in memory and the records of other threads as they are. -/
theorem run_frame (g : Engine) (q : Pass) (hm : q.around.InMemory) : (g.run q).1.InMemory ∧
    ∀ other, q.execution.thread ≠ other → (g.run q).1.records other = q.around.records other := by
  obtain ⟨r, hgoes, hends⟩ := g.run_passes q
  -- Every pass keeps the thread of its run and the records of all others.
  have kept : r.around.InMemory ∧ r.execution.thread = q.execution.thread ∧
      ∀ other, q.execution.thread ≠ other → r.around.records other = q.around.records other := by
    clear hends
    induction hgoes with
    | refl => exact ⟨hm, rfl, fun _ _ => rfl⟩
    | tail _ hstep ih =>
      obtain ⟨hm', ht, hr⟩ := ih
      obtain ⟨p, -, -, -, rfl⟩ := hstep.next hm'
      exact ⟨inMemory_noted hm', ht, fun other hne =>
        (records_noted_of_ne hm' (ht ▸ hne)).trans (hr other hne)⟩
  obtain ⟨hm', ht, hr⟩ := kept
  obtain ⟨e, w, hw, hwm, he, hrec⟩ := hends.writes hm'
  exact ⟨hw.inMemory hwm, fun other hne => (hw.records_of_ne hwm (he.trans ht ▸ hne)).trans
    ((hrec other (ht ▸ hne)).trans (hr other hne))⟩

end Engine

end Workflow
