import Workflow.Engine.Calls

/-! The records of a thread: what a store in memory keeps of it, the oldest first. Every operation of the
    surroundings either leaves the records of a thread as they are, puts one checkpoint after them, or
    drops them all. -/

namespace Workflow

/-! ### Texts and marks -/

@[simp] theorem Value.equal_str (s t : String) : (Value.str s).equal (.str t) = (s == t) := by
  simp [Value.equal, Value.equalAtoms, Value.number?]

/-- Only a text is equal to a text. -/
theorem Value.eq_str_of_equal {v : Value} {s : String} (h : v.equal (.str s) = true) : v = .str s := by
  cases v <;> simp_all [Value.equal, Value.equalAtoms, Value.number?]

theorem Checkpoint.isOf_iff {c : Checkpoint} {thread : String} :
    c.isOf thread = true ↔ c.thread = .str thread :=
  ⟨Value.eq_str_of_equal, fun h => by rw [Checkpoint.isOf, h, Value.equal_str, beq_self_eq_true]⟩

theorem Checkpoint.isOf_eq {c : Checkpoint} {thread : String} (h : c.thread = .str thread) (other : String) :
    c.isOf other = (thread == other) := by
  rw [Checkpoint.isOf, h, Value.equal_str]

/-- No checkpoint is of two threads. -/
theorem Store.ofThread_without_of_ne (saved : List Checkpoint) {thread other : String} (h : other ≠ thread) :
    ofThread (without saved thread) other = ofThread saved other := by
  rw [ofThread, without, List.filter_filter]
  refine List.filter_congr fun c _ => ?_
  cases hc : c.isOf other with
  | false => rfl
  | true =>
    rw [Checkpoint.isOf_eq (Checkpoint.isOf_iff.mp hc), beq_false_of_ne h]
    rfl

namespace Surroundings

/-! ### What the store is seen as -/

/-- The store is in memory, and takes every checkpoint. -/
def InMemory (w : Surroundings) : Prop := ∃ saved, w.store = .memory saved

/-- What a store in memory keeps of a thread. -/
def records (w : Surroundings) (thread : String) : List Checkpoint :=
  match w.store with
  | .memory saved => Store.ofThread saved thread
  | _ => []

variable {w v : Surroundings} {thread other : String}

theorem records_of_store {saved : List Checkpoint} (h : w.store = .memory saved) (thread : String) :
    w.records thread = Store.ofThread saved thread := by
  simp only [records, h]

theorem InMemory.congr (hw : w.InMemory) (h : v.store = w.store) : v.InMemory := by
  rw [InMemory, h]
  exact hw

theorem records_congr (h : v.store = w.store) (thread : String) : v.records thread = w.records thread := by
  simp only [records, h]

theorem load_eq (h : w.InMemory) (thread : String) :
    w.store.load thread = .ok (w.records thread).getLast? := by
  obtain ⟨saved, hs⟩ := h
  rw [records_of_store hs, hs]
  rfl

theorem list_eq (h : w.InMemory) (thread : String) : w.store.list thread = .ok (w.records thread) := by
  obtain ⟨saved, hs⟩ := h
  rw [records_of_store hs, hs]
  rfl

theorem thread_of_mem_records {c : Checkpoint} (h : c ∈ w.records thread) : c.thread = .str thread := by
  unfold records at h
  split at h
  · exact Checkpoint.isOf_iff.mp (List.mem_filter.mp h).2
  · cases h

/-! ### Operations that leave the store -/

@[simp] theorem store_requestCancel (w : Surroundings) (thread : String) :
    (w.requestCancel thread).store = w.store := by
  unfold requestCancel
  split <;> rfl

@[simp] theorem store_activate (w : Surroundings) (thread : String) : (w.activate thread).store = w.store := by
  unfold activate
  split <;> rfl

@[simp] theorem store_emit (w : Surroundings) (e : Event) : (w.emit e).store = w.store := by
  unfold emit
  dsimp only
  split
  · rw [store_requestCancel]
  · rfl

@[simp] theorem store_emitLast (w : Surroundings) (e : Event) : (w.emitLast e).store = w.store := store_emit w e

@[simp] theorem records_requestCancel : (w.requestCancel other).records thread = w.records thread :=
  records_congr (store_requestCancel w other) thread

@[simp] theorem records_activate : (w.activate other).records thread = w.records thread :=
  records_congr (store_activate w other) thread

@[simp] theorem records_emit {e : Event} : (w.emit e).records thread = w.records thread :=
  records_congr (store_emit w e) thread

@[simp] theorem records_emitLast {e : Event} : (w.emitLast e).records thread = w.records thread :=
  records_congr (store_emitLast w e) thread

theorem InMemory.requestCancel (h : w.InMemory) : (w.requestCancel thread).InMemory :=
  h.congr (store_requestCancel w thread)

theorem InMemory.activate (h : w.InMemory) : (w.activate thread).InMemory := h.congr (store_activate w thread)

theorem InMemory.emit (h : w.InMemory) (e : Event) : (w.emit e).InMemory := h.congr (store_emit w e)

theorem InMemory.emitLast (h : w.InMemory) (e : Event) : (w.emitLast e).InMemory :=
  h.congr (store_emitLast w e)

/-! ### Saving -/

/-- The checkpoint that the next save draws up. -/
def drawUp (w : Surroundings) (snapshot : (id timestamp : Value) → Checkpoint) : Checkpoint :=
  snapshot (drawnId w.drawn) (.int w.drawn)

/-- The surroundings after a checkpoint has been put into a store in memory. -/
def keep (w : Surroundings) (c : Checkpoint) : Surroundings :=
  { w with
    drawn := w.drawn + 1
    store := match w.store with
      | .memory saved => .memory (saved ++ [c])
      | s => s }

theorem store_keep {saved : List Checkpoint} (h : w.store = .memory saved) (c : Checkpoint) :
    (w.keep c).store = .memory (saved ++ [c]) := by
  simp only [keep, h]

/-- A store in memory refuses no checkpoint. -/
theorem save_eq (h : w.InMemory) (snapshot : (id timestamp : Value) → Checkpoint) :
    w.save snapshot = (w.keep (w.drawUp snapshot), .ok (w.drawUp snapshot)) := by
  obtain ⟨saved, hs⟩ := h
  simp only [save, keep, drawUp, hs, Store.write, Store.save]
  rfl

theorem InMemory.keep (h : w.InMemory) (c : Checkpoint) : (w.keep c).InMemory := by
  obtain ⟨saved, hs⟩ := h
  exact ⟨saved ++ [c], store_keep hs c⟩

theorem records_keep (h : w.InMemory) (c : Checkpoint) (thread : String) :
    (w.keep c).records thread = w.records thread ++ if c.isOf thread then [c] else [] := by
  obtain ⟨saved, hs⟩ := h
  rw [records_of_store hs, records_of_store (store_keep hs c), Store.ofThread_append]

theorem records_keep_self (h : w.InMemory) {c : Checkpoint} (hc : c.thread = .str thread) :
    (w.keep c).records thread = w.records thread ++ [c] := by
  rw [records_keep h, Checkpoint.isOf_eq hc, beq_self_eq_true, if_pos rfl]

theorem records_keep_of_ne (h : w.InMemory) {c : Checkpoint} (hc : c.thread = .str other) (hne : other ≠ thread) :
    (w.keep c).records thread = w.records thread := by
  rw [records_keep h, Checkpoint.isOf_eq hc, beq_eq_false_iff_ne.mpr hne, if_neg Bool.false_ne_true,
    List.append_nil]

/-! ### Forgetting -/

theorem store_forget {saved : List Checkpoint} (h : w.store = .memory saved) (thread : String) :
    (w.forget thread).store = .memory (Store.without saved thread) := by
  simp only [forget, h, Store.delete]

theorem InMemory.forget (h : w.InMemory) (thread : String) : (w.forget thread).InMemory := by
  obtain ⟨saved, hs⟩ := h
  exact ⟨_, store_forget hs thread⟩

theorem records_forget_self (h : w.InMemory) : (w.forget thread).records thread = [] := by
  obtain ⟨saved, hs⟩ := h
  rw [records_of_store (store_forget hs thread), Store.ofThread_without]

theorem records_forget_of_ne (h : w.InMemory) (hne : other ≠ thread) :
    (w.forget other).records thread = w.records thread := by
  obtain ⟨saved, hs⟩ := h
  rw [records_of_store hs, records_of_store (store_forget hs other), Store.ofThread_without_of_ne saved hne.symm]

/-! ### Nodes -/

/-- A node writes to the logs, forgets its thread and asks for its end, and what all of these keep is kept by it. -/
theorem absorb_induction {P : Surroundings → Prop} {effects : Action.Effects}
    (logged : P { w with calls := effects.calls, trace := w.trace ++ effects.trace })
    (forget : ∀ {v}, P v → P (v.forget thread))
    (ask : ∀ {v}, effects.cancelled = true → P v → P (v.requestCancel thread)) : P (w.absorb thread effects) := by
  unfold absorb
  dsimp only
  cases effects.forgotten <;> cases hc : effects.cancelled
  · exact logged
  · exact ask hc logged
  · exact forget logged
  · exact ask hc (forget logged)

theorem InMemory.absorb (h : w.InMemory) (thread : String) (effects : Action.Effects) :
    (w.absorb thread effects).InMemory :=
  absorb_induction (P := InMemory) h (fun h => h.forget thread) fun _ h => h.requestCancel

/-- Logic that does not ask for an end leaves the observers and all that was asked. -/
theorem absorb_silent (w : Surroundings) (thread : String) {effects : Action.Effects}
    (silent : effects.cancelled = false) :
    (w.absorb thread effects).cancels = w.cancels ∧ (w.absorb thread effects).bus = w.bus := by
  refine absorb_induction (P := fun v => v.cancels = w.cancels ∧ v.bus = w.bus) ⟨rfl, rfl⟩ ?_ ?_
  · intro v h
    unfold Surroundings.forget
    split <;> exact h
  · intro v asks
    rw [silent] at asks
    cases asks

/-- A node that runs leaves the records of its thread, or drops all of them. -/
theorem records_absorb_self (h : w.InMemory) (thread : String) (effects : Action.Effects) :
    (w.absorb thread effects).records thread = if effects.forgotten then [] else w.records thread := by
  have logged : ({ w with calls := effects.calls, trace := w.trace ++ effects.trace } : Surroundings).InMemory := h
  unfold absorb
  dsimp only
  cases effects.forgotten <;> cases effects.cancelled
  · rfl
  · exact records_requestCancel
  · exact records_forget_self logged
  · exact records_requestCancel.trans (records_forget_self logged)

theorem records_absorb_of_ne (h : w.InMemory) (hne : other ≠ thread) (effects : Action.Effects) :
    (w.absorb other effects).records thread = w.records thread := by
  have kept : (w.absorb other effects).InMemory ∧ (w.absorb other effects).records thread = w.records thread := by
    refine absorb_induction (P := fun v => v.InMemory ∧ v.records thread = w.records thread) ⟨h, rfl⟩ ?_ ?_
    · rintro v ⟨hv, same⟩
      exact ⟨hv.forget other, (records_forget_of_ne hv hne).trans same⟩
    · rintro v - ⟨hv, same⟩
      exact ⟨hv.requestCancel, records_requestCancel.trans same⟩
  exact kept.2

theorem mem_records_absorb (h : w.InMemory) {effects : Action.Effects} {c : Checkpoint}
    (hc : c ∈ (w.absorb thread effects).records thread) : c ∈ w.records thread := by
  rw [records_absorb_self h] at hc
  split at hc
  · cases hc
  · exact hc

end Surroundings

end Workflow
