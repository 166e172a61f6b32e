import Workflow.Proofs.Archive
import Workflow.Proofs.Exact
import Workflow.Proofs.Laps

/-! Limits on what stores tell of. Whatever a store is made of, what can be read under a thread is of that thread and
    counts no more steps than a bound (`Store.Below`) as long as checkpoints within the bound are written. Main
    statement: a call keeps such a bound, unless its own is higher (`Unrolls.keeps_below`). -/

namespace Workflow

namespace Store

/-- The checkpoint can be read under the thread. -/
def Reads (s : Store) (thread : String) (c : Checkpoint) : Prop :=
  match s with
  | .memory saved | .limited saved _ _ => c ∈ saved ∧ c.thread = .str thread
  | .table t => ∃ r ∈ t.rows, r.thread = thread ∧ ∃ unreadable, r.payload.read unreadable = .ok c
  | .files f => ∃ x ∈ f.files, x.thread = thread ∧ ∃ unreadable, x.payload.read unreadable = .ok c

/-- What can be read under a thread is of it, and counts no more steps than its bound. -/
def Below (s : Store) (bound : String → Int) : Prop :=
  ∀ thread c, s.Reads thread c → c.thread = .str thread ∧ c.step ≤ bound thread

variable {s u : Store} {c d : Checkpoint} {thread : String} {bound bound' : String → Int}

theorem Below.mono (h : s.Below bound) (hle : ∀ thread, bound thread ≤ bound' thread) : s.Below bound' :=
  fun thread c hc => ⟨(h thread c hc).1, Int.le_trans (h thread c hc).2 (hle thread)⟩

theorem not_reads_of_isNew (h : s.IsNew) : ¬s.Reads thread c := by
  cases s with
  | memory saved =>
    cases h
    exact fun hc => nomatch hc.1
  | table t =>
    rintro ⟨r, hr, -⟩
    rw [show t.rows = [] from h] at hr
    cases hr
  | files f =>
    rintro ⟨x, hx, -⟩
    rw [h.2] at hx
    cases hx
  | limited => exact h.elim

/-! ### Reading -/

theorem exists_of_mapM {α : Type} {read : α → Except Fault Checkpoint} {xs : List α} {cs : List Checkpoint}
    (h : xs.mapM read = .ok cs) (hc : c ∈ cs) : ∃ x ∈ xs, read x = .ok c := by
  induction xs generalizing cs with
  | nil =>
    cases h
    cases hc
  | cons x xs ih =>
    rw [List.mapM_cons] at h
    obtain ⟨b, hb, h⟩ := bind_eq_ok.mp h
    obtain ⟨bs, hbs, h⟩ := bind_eq_ok.mp h
    cases h
    rcases List.mem_cons.mp hc with rfl | hc
    · exact ⟨x, List.mem_cons_self, hb⟩
    · obtain ⟨y, hy, read⟩ := ih hbs hc
      exact ⟨y, List.mem_cons_of_mem x hy, read⟩

theorem Table.mem_ofThread {t : Table} {r : Row} (h : r ∈ t.ofThread thread) : r ∈ t.rows ∧ r.thread = thread := by
  obtain ⟨mem, same⟩ := List.mem_filter.mp (List.mem_mergeSort.mp h)
  exact ⟨mem, eq_of_beq same⟩

theorem Files.mem_ofThread {s : Files} {f : File} (h : f ∈ s.ofThread thread) : f ∈ s.files ∧ f.thread = thread := by
  unfold ofThread at h
  split at h
  · obtain ⟨mem, same⟩ := List.mem_filter.mp (List.mem_mergeSort.mp h)
    exact ⟨mem, eq_of_beq same⟩
  · cases h

theorem reads_of_ofThread {saved : List Checkpoint} (h : c ∈ ofThread saved thread) :
    c ∈ saved ∧ c.thread = .str thread :=
  (List.mem_filter.mp h).imp_right Checkpoint.isOf_iff.mp

theorem reads_of_list {cs : List Checkpoint} (h : s.list thread = .ok cs) (hc : c ∈ cs) : s.Reads thread c := by
  cases s with
  | memory | limited =>
    cases h
    exact reads_of_ofThread hc
  | table t =>
    obtain ⟨r, hr, read⟩ := exists_of_mapM h hc
    obtain ⟨mem, own⟩ := Table.mem_ofThread hr
    exact ⟨r, mem, own, _, read⟩
  | files f =>
    obtain ⟨_, -, h⟩ := bind_eq_ok.mp h
    obtain ⟨x, hx, read⟩ := exists_of_mapM h hc
    obtain ⟨mem, own⟩ := Files.mem_ofThread hx
    exact ⟨x, mem, own, _, read⟩

theorem reads_of_load (h : s.load thread = .ok (some c)) : s.Reads thread c := by
  cases s with
  | memory | limited =>
    exact reads_of_ofThread (List.mem_of_getLast? (Except.ok.inj h))
  | table t =>
    simp only [Store.load, Table.load] at h
    split at h
    · rename_i r hr
      obtain ⟨mem, own⟩ := Table.mem_ofThread (List.mem_of_getLast? hr)
      cases read : Table.readRow r <;> rw [read] at h <;> cases h
      exact ⟨r, mem, own, _, read⟩
    · cases h
  | files f =>
    obtain ⟨_, -, h⟩ := bind_eq_ok.mp h
    split at h
    · rename_i x hx
      obtain ⟨mem, own⟩ := Files.mem_ofThread (List.mem_of_getLast? hx)
      obtain ⟨d, read, h⟩ := bind_eq_ok.mp h
      cases h
      exact ⟨x, mem, own, _, read⟩
    · cases h

/-! ### Writing and deleting -/

theorem read_written {p : Payload} (h : Payload.ofCheckpoint c = .ok p) {unreadable : Payload.Unreadable}
    (read : p.read unreadable = .ok d) : c.ReadAs d := by
  unfold Payload.ofCheckpoint at h
  split at h <;> cases h
  rename_i written
  exact Checkpoint.read_keeps written read

theorem Table.mem_save {t v : Table} {r : Row} (h : t.save c = .ok v) (hr : r ∈ v.rows) :
    r ∈ t.rows ∨ r.thread = c.thread.text ∧ Payload.ofCheckpoint c = .ok r.payload := by
  rcases t.save_cases c with ⟨p, written, -, taken⟩ | ⟨f, refused, -⟩
  · rw [taken] at h
    cases h
    rcases List.mem_append.mp hr with hr | hr
    · exact .inl hr
    · rw [List.mem_singleton.mp hr]
      exact .inr ⟨rfl, written⟩
  · rw [refused] at h
    cases h

/-- A file takes the place of one of its name, so a save may lose a file and makes no other than its own. -/
theorem Files.mem_write {s : Files} {x : File} (hx : x ∈ (s.write c).1.files) :
    x ∈ s.files ∨ x.thread = c.thread.text ∧ Payload.ofCheckpoint c = .ok x.payload := by
  rcases s.write_cases c with ⟨p, written, -, taken⟩ | ⟨f, -, -, left, -⟩
  · rw [taken] at hx
    rcases List.mem_append.mp hx with hx | hx
    · exact .inl (Files.files_withFolder s c.thread.text ▸ (List.mem_filter.mp hx).1)
    · rw [List.mem_singleton.mp hx]
      exact .inr ⟨rfl, written⟩
  · rcases left with left | left <;> rw [left] at hx
    · exact .inl hx
    · exact .inl (Files.files_withFolder s c.thread.text ▸ hx)

/-- What a save adds is of the thread, the graph and the steps of what is saved. -/
theorem reads_write {other : String} (own : c.thread = .str thread) (h : (s.write c).1.Reads other d) :
    s.Reads other d ∨ other = thread ∧ c.ReadAs d := by
  have text : c.thread.text = thread := by rw [own]; rfl
  have appended {saved : List Checkpoint} (h : d ∈ saved ++ [c] ∧ d.thread = .str other) :
      (d ∈ saved ∧ d.thread = .str other) ∨ other = thread ∧ c.ReadAs d := by
    rcases List.mem_append.mp h.1 with hd | hd
    · exact .inl ⟨hd, h.2⟩
    · have same := List.mem_singleton.mp hd
      subst same
      cases own.symm.trans h.2
      exact .inr ⟨rfl, id, id, rfl⟩
  cases s with
  | memory saved => exact appended h
  | limited saved n hint =>
    cases n with
    | zero => exact .inl h
    | succ n => exact appended h
  | table t =>
    simp only [Store.write, Store.save] at h
    cases ht : t.save c with
    | error f =>
      rw [ht] at h
      exact .inl h
    | ok v =>
      rw [ht] at h
      obtain ⟨r, hr, rfl, unreadable, read⟩ := h
      rcases Table.mem_save ht hr with hr | ⟨same, written⟩
      · exact .inl ⟨r, hr, rfl, unreadable, read⟩
      · exact .inr ⟨same.trans text, read_written written read⟩
  | files f =>
    obtain ⟨x, hx, rfl, unreadable, read⟩ := h
    rcases Files.mem_write hx with hx | ⟨same, written⟩
    · exact .inl ⟨x, hx, rfl, unreadable, read⟩
    · exact .inr ⟨same.trans text, read_written written read⟩

theorem Below.write (h : s.Below bound) (own : c.thread = .str thread) (within : c.step ≤ bound thread) :
    (s.write c).1.Below bound := by
  intro other d hd
  rcases reads_write own hd with hd | ⟨rfl, written⟩
  · exact h other d hd
  · exact ⟨written.thread own, written.step ▸ within⟩

theorem reads_delete {other : String} {n : Nat} (hs : s.delete thread = .ok (u, n)) (h : u.Reads other c) :
    s.Reads other c ∧ other ≠ thread := by
  have kept {saved : List Checkpoint} (h : c ∈ without saved thread ∧ c.thread = .str other) :
      (c ∈ saved ∧ c.thread = .str other) ∧ other ≠ thread := by
    obtain ⟨mem, differs⟩ := List.mem_filter.mp h.1
    refine ⟨⟨mem, h.2⟩, ?_⟩
    rintro rfl
    rw [Checkpoint.isOf_iff.mpr h.2] at differs
    cases differs
  cases s with
  | memory | limited =>
    cases hs
    exact kept h
  | table t =>
    cases hs
    obtain ⟨r, hr, rfl, read⟩ := h
    obtain ⟨mem, differs⟩ := List.mem_filter.mp hr
    exact ⟨⟨r, mem, rfl, read⟩, bne_iff_ne.mp differs⟩
  | files f =>
    obtain rfl := delete_files hs
    obtain ⟨x, hx, rfl, read⟩ := h
    obtain ⟨mem, differs⟩ := List.mem_filter.mp hx
    exact ⟨⟨x, mem, rfl, read⟩, bne_iff_ne.mp differs⟩

theorem Below.delete (h : s.Below bound) {n : Nat} (hs : s.delete thread = .ok (u, n)) : u.Below bound :=
  fun other c hc => h other c (reads_delete hs hc).1

end Store

/-! ### Surroundings -/

namespace Surroundings

variable {w : Surroundings} {thread : String} {bound : String → Int}

theorem below_save {snapshot : Value → Value → Checkpoint} (h : w.store.Below bound)
    (own : ∀ id time, (snapshot id time).thread = .str thread)
    (within : ∀ id time, (snapshot id time).step ≤ bound thread) : (w.save snapshot).1.store.Below bound :=
  h.write (own _ _) (within _ _)

theorem below_forget (h : w.store.Below bound) (thread : String) : (w.forget thread).store.Below bound := by
  unfold forget
  split
  · rename_i hs
    exact h.delete hs
  · exact h

theorem below_absorb (h : w.store.Below bound) (thread : String) (effects : Action.Effects) :
    (w.absorb thread effects).store.Below bound :=
  absorb_induction (P := fun v => v.store.Below bound) h (fun h => below_forget h thread) fun _ h => by
    rwa [store_requestCancel]

end Surroundings

/-! ### Engines -/

namespace Engine

variable {g run : Engine} {e e' : Execution} {entry : Entry} {w v : Surroundings} {x : Ended} {t : List Attempt}
  {request : Request} {f : Failure} {bound : String → Int}

section Endings

variable (h : w.store.Below bound) (within : e.step ≤ bound e.thread)
include h within

theorem below_save : (g.save e w).1.store.Below bound :=
  Surroundings.below_save h (fun _ _ => rfl) fun _ _ => within

theorem below_pause (node : String) (kind : InterruptKind) (prompt : Value) :
    (g.pause e node kind prompt w).1.store.Below bound := by
  have saved : (g.save (e.paused node kind prompt) w).1.store.Below bound := below_save h within
  unfold pause
  dsimp only
  change (g.save { e with status := .paused, interrupt := some { node := .str node, prompt, kind } } w).1.store.Below
    bound at saved
  split
  · rename_i hs
    rw [hs] at saved
    exact saved
  · rename_i hs
    rw [hs] at saved
    exact (Surroundings.store_emit _ _).symm ▸ saved

theorem below_complete : (g.complete e w).1.store.Below bound := by
  have saved : (g.save { e with status := .completed } w).1.store.Below bound := below_save h within
  unfold complete
  dsimp only
  split
  · rename_i hs
    rw [hs] at saved
    exact saved
  · rename_i hs
    rw [hs] at saved
    exact (Surroundings.store_emitLast _ _).symm ▸ saved

/-- A failure is written down with the steps of the last checkpoint, or of the run. -/
theorem below_record : (g.record e f w).1.store.Below bound := by
  unfold record
  split
  · exact h
  · rename_i last hl
    obtain ⟨own, within⟩ := h _ _ (Store.reads_of_load hl)
    exact Surroundings.below_save h (fun _ _ => own) fun _ _ => within
  · exact below_save h within

theorem below_fail : (g.fail e f w).1.store.Below bound := by
  have recorded : (g.record (e.failed f) f w).1.store.Below bound := below_record h within
  unfold fail
  dsimp only
  change (g.record { e with status := .failed, interrupt := none, error := some f } f w).1.store.Below bound at recorded
  split
  · rename_i hs
    rw [hs] at recorded
    exact recorded
  · rename_i hs
    rw [hs] at recorded
    exact (Surroundings.store_emitLast _ _).symm ▸ recorded

end Endings

/-! ### Laps -/

section Lapping

variable (h : w.store.Below bound) (within : e.step ≤ bound e.thread) (limit : g.config.recursionLimit ≤ bound e.thread)
include h

theorem below_after (entry : Entry) : (g.after (g.firstPass e entry w)).store.Below bound :=
  Surroundings.below_absorb h _ _

theorem below_told (entry : Entry) (p : Position) : (g.told (g.firstPass e entry w) p).store.Below bound :=
  (Surroundings.store_emit _ _).symm ▸ below_after h entry

include limit

omit h in
/-- A step that reaches a position below the bound of the run is counted within it. -/
theorem within_of_reached {p : Position} (runs : g.Runs (g.firstPass e entry w))
    (reached : (g.turnAt (g.firstPass e entry w)).2 = .reached p) : p.step ≤ bound e.thread := by
  have step : p.step = e.step + 1 := (Definition.step_of_turn_reached reached).1
  have below : e.step < g.config.recursionLimit := Int.not_le.mp (mt left_firstPass.mpr runs.left)
  omega

theorem below_of_goes {r : Pass} (goes : g.Goes (g.firstPass e entry w) r) : r.around.store.Below bound ∧
    r.execution.thread = e.thread ∧ r.execution.step ≤ bound e.thread := by
  cases goes with
  | unsaved runs reached =>
    exact ⟨below_told h entry _, rfl, within_of_reached limit runs reached⟩
  | @saved p v c runs reached _ _ save =>
    have within := within_of_reached limit runs reached
    have saved : (g.save (e.arrived p) (g.told (g.firstPass e entry w) p)).1.store.Below bound :=
      below_save (below_told h entry p) within
    rw [show g.save (e.arrived p) _ = (v, .ok c) from save] at saved
    exact ⟨saved, rfl, within⟩

include within

theorem below_of_ends (ends : g.Ends (g.firstPass e entry w) x) : x.1.store.Below bound := by
  have after : (g.after (g.firstPass e entry w)).store.Below bound := below_after h entry
  have told : ∀ p, (g.told (g.firstPass e entry w) p).store.Below bound := below_told h entry
  cases ends with
  | cancelled | exhausted => exact below_fail h within
  | completed => exact below_complete h within
  | held => exact below_pause h within _ _ _
  | suspended => exact below_pause after within _ _ _
  | withdrawn => exact below_fail after within
  | @failed p f runs hs =>
    refine below_fail after ?_
    have counted : p.step = e.step ∨ p.step = e.step + 1 := Definition.step_of_turn_failed hs
    have below : e.step < g.config.recursionLimit := Int.not_le.mp (mt left_firstPass.mpr runs.left)
    show p.step ≤ bound e.thread
    omega
  | lost => exact after
  | paused runs hs => exact below_pause (told _) (within_of_reached limit runs hs) _ _ _
  | revoked runs hs => exact below_fail (told _) (within_of_reached limit runs hs)
  | @unsaved p v f runs hs _ _ save =>
    have saved : (g.save (e.arrived p) (g.told (g.firstPass e entry w) p)).1.store.Below bound :=
      below_save (told p) (within_of_reached limit runs hs)
    rw [show g.save (e.arrived p) _ = (v, .error f) from save] at saved
    exact saved

end Lapping

theorem Unrolls.keeps_below (unrolls : g.Unrolls e entry w t x) (h : w.store.Below bound)
    (within : e.step ≤ bound e.thread) (limit : g.config.recursionLimit ≤ bound e.thread) :
    x.1.store.Below bound := by
  induction unrolls with
  | ends hl => exact below_of_ends h within limit (ends_of_lap hl)
  | goes hl _ ih =>
    obtain ⟨kept, same, within⟩ := below_of_goes h limit (goes_of_lap hl)
    have same : _ = _ := same
    exact ih kept (same ▸ within) (same ▸ limit)

/-! ### Requests -/

theorem thread_of_taken {c : Checkpoint} {thread : String} (own : c.thread = .str thread)
    (h : Execution.ofCheckpoint c = .ok e) : e.thread = thread ∧ e.step = c.step := by
  refine ⟨?_, congrArg Position.step (position_ofCheckpoint h)⟩
  rw [thread_ofCheckpoint h, own]
  rfl

/-- A checkpoint that is taken up is one that can be read under the thread. -/
theorem reads_of_lastCheckpoint {c : Checkpoint} {thread : String}
    (h : g.lastCheckpoint thread w.store = .ok c) : w.store.Reads thread c :=
  Store.reads_of_load (lastCheckpoint_eq_ok_iff.mp h).1

theorem resumption_step {thread : String} {overrides : Overrides} {r : Resumption}
    (h : g.resumption thread overrides w.store = .ok r) (hw : w.store.Below bound) :
    r.execution.thread = thread ∧ r.execution.step ≤ bound thread := by
  obtain ⟨c, _, _, e, hc, -, -, he, -, -, -, hr⟩ := taken_of_resumption h
  obtain ⟨own, within⟩ := hw _ _ (reads_of_lastCheckpoint hc)
  obtain ⟨thread, step⟩ := thread_of_taken own he
  rw [hr]
  exact ⟨thread, step ▸ within⟩

/-- The first checkpoint of a thread counts no steps. -/
theorem below_opening {thread : String} {input : Value} {overrides : Overrides} {config : Config}
    (h : g.opening thread input overrides w.store = .ok (config, e)) (hw : w.store.Below bound)
    (nonneg : ∀ thread, 0 ≤ bound thread) (observers : List Observer) : e.thread = thread ∧
      e.step ≤ bound e.thread ∧ (g.save e (w.joined thread observers)).1.store.Below bound := by
  obtain ⟨-, p, -, zero, rfl⟩ := origin_of_opening h
  have within : p.step ≤ bound thread := zero ▸ nonneg _
  exact ⟨rfl, within, below_save ((w.store_joined thread observers).symm ▸ hw) within⟩

theorem Launches.keeps_below (h : g.Launches w request run e entry v) (hw : w.store.Below bound)
    (nonneg : ∀ thread, 0 ≤ bound thread) :
    v.store.Below bound ∧ e.thread = request.thread ∧ e.step ≤ bound e.thread := by
  cases h with
  | @start thread input options config e providers v c opening names save =>
    obtain ⟨own, within, saved⟩ := below_opening opening hw nonneg options.observers
    rw [save] at saved
    exact ⟨(Surroundings.store_emit _ _).symm ▸ saved, own, within⟩
  | @resume thread value options r providers resumption =>
    obtain ⟨own, within⟩ := resumption_step resumption hw
    refine ⟨?_, own, own.symm ▸ within⟩
    exact ((Surroundings.store_emit _ _).trans (Surroundings.store_activate w thread)).symm ▸ hw

theorem below_cancel (hw : w.store.Below bound) (thread : String) : (g.cancel thread w).1.store.Below bound := by
  rcases g.cancel_leaves_or_ends thread w with ⟨same, -⟩ | ⟨c, e, last, -, taken, cancelled⟩
  · exact same ▸ hw
  · obtain ⟨own, within⟩ := hw _ _ (reads_of_lastCheckpoint last)
    obtain ⟨same, step⟩ := thread_of_taken own taken
    rw [cancelled]
    exact below_fail hw (by rw [same, step]; exact within)

theorem below_unlaunched (hw : w.store.Below bound) (nonneg : ∀ thread, 0 ≤ bound thread) {v : Surroundings}
    (h : g.Unlaunched w request v) : v.store.Below bound := by
  cases h with
  | unopened | unordered | unresumed => exact hw
  | unwritten opening save =>
    obtain ⟨-, -, saved⟩ := below_opening opening hw nonneg _
    rw [save] at saved
    exact saved
  | unprovided ev opening save =>
    obtain ⟨-, -, saved⟩ := below_opening opening hw nonneg _
    rw [save] at saved
    exact (Surroundings.store_emit _ _).symm ▸ saved
  | unserved => exact ((Surroundings.store_emit _ _).trans (Surroundings.store_activate w _)).symm ▸ hw

/-- A request that launches no run writes at most the start of one. -/
theorem below_serve_unlaunched (hw : w.store.Below bound) (nonneg : ∀ thread, 0 ≤ bound thread)
    (idle : ∀ run e entry v, ¬g.Launches w request run e entry v) : (g.serve w request).1.store.Below bound := by
  have unlaunched (runs : request ≠ .cancel request.thread ∧ request ≠ .delete request.thread) :
      (g.serve w request).1.store.Below bound := by
    rcases launches_or_unlaunched (g := g) (w := w) runs with ⟨_, _, _, _, launch⟩ | ⟨v, f, ends, served⟩
    · exact absurd launch (idle _ _ _ _)
    · rw [served]
      exact below_unlaunched hw nonneg ends
  cases request with
  | start | resume => exact unlaunched ⟨Request.noConfusion, Request.noConfusion⟩
  | cancel thread => exact below_cancel hw thread
  | delete thread =>
    simp only [serve, delete]
    split
    · exact hw
    · rename_i hs
      exact hw.delete hs

end Engine

end Workflow
