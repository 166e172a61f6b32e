import Workflow.Proofs.Depicted
import Workflow.Proofs.Failing

/-! # Resumed calls

A store tells of what was written last (`Store.load_written`). So a call that is answered that its run waits leaves a
checkpoint to be told of that shows where the run has come to, which is where a call that resumes it goes on
(`Launch.Follows.goes_on`). -/

namespace Workflow

theorem Config.isJson_metadata (c : Config) : c.metadata.IsJson := by
  have names (ids : List String) : (Value.list (ids.map .str)).IsJson := by
    refine .list fun x hx => ?_
    obtain ⟨s, -, rfl⟩ := List.mem_map.mp hx
    exact .str s
  have distinct : ["recursion_limit", "interrupt_before", "interrupt_after", "checkpoint_mode"].Nodup := by decide
  refine @Value.isJson_ofFields [_, _, _, _] distinct fun f hf => ?_
  simp only [List.mem_cons, List.not_mem_nil, or_false] at hf
  rcases hf with rfl | rfl | rfl | rfl
  · exact .int _
  · exact names _
  · exact names _
  · exact .str _

/-- What is kept of a configuration is kept by every store as it is. -/
theorem Config.exact_metadata (c : Config) : c.metadata.Exact := c.isJson_metadata.exact

/-! ### What was written last -/

namespace Store

variable {s u : Store} {c : Checkpoint} {thread : String} {n : Nat} {durable : Bool}

/-- What is kept under a thread is of it, and a store that outlives the process keeps it in the order of saving. -/
structure Ranked (durable : Bool) (s : Store) : Prop extends Owned s where
  kind : s.isDurable = durable
  order : durable = true → s.InOrder

theorem Ranked.write (h : s.Ranked durable) (own : c.thread = .str thread) : (s.write c).1.Ranked durable where
  toOwned := h.toOwned.write own
  kind := (isDurable_write s c).trans h.kind
  order lasting := by
    have kept := (h.order lasting).perform (.save c)
    simp only [Store.perform] at kept
    split at kept <;> rename_i written <;> rwa [written]

theorem Ranked.delete (h : s.Ranked durable) (deleted : s.delete thread = .ok (u, n)) : u.Ranked durable where
  toOwned := h.toOwned.delete deleted
  kind := (isDurable_delete deleted).trans h.kind
  order lasting := by
    have kept := (h.order lasting).perform (.delete thread)
    rwa [Store.perform, deleted] at kept

theorem Ranked.sweep {t : Table} (h : (table t).Ranked durable) (now hours : Float) (perThread : Int) :
    (table (t.sweep now hours perThread).1).Ranked durable where
  own hc := h.own (reads_sweep hc)
  housed := trivial
  kind := h.kind
  order lasting := by
    cases h.order lasting with
    | table order => exact .table (order.sweep now hours perThread)

theorem ranked_of_isUnused (h : s.IsUnused) : s.Ranked s.isDurable where
  toOwned := owned_of_isUnused h
  kind := rfl
  order lasting := by
    rcases h with h | ⟨saves, hint, rfl⟩
    · exact inOrder_of_isNew lasting h
    · cases lasting

/-- A write leaves no fewer files. -/
theorem Files.Numbered.length_write {f : Files} (h : f.Numbered) (c : Checkpoint) (thread : String) :
    (f.ofThread thread).length ≤ ((f.write c).1.ofThread thread).length := by
  rcases f.write_cases c with ⟨p, -, -, taken⟩ | ⟨_, -, -, left | left, -⟩
  · rw [taken, h.length_ofThread, (h.added c p).length_ofThread, h.files_added, part, part, List.filter_append,
      List.length_append]
    exact Nat.le_add_right _ _
  · exact Nat.le_of_eq (congrArg (fun g : Files => (g.ofThread thread).length) left).symm
  · rw [left, h.length_ofThread, (h.withFolder _).length_ofThread, files_withFolder]

/-- Files of the thread are told in the order of saving for as long as eight digits number them. -/
def Few (s : Store) (thread : String) : Prop := ∀ f, s = .files f → (f.ofThread thread).length < 10 ^ 8

theorem Few.of_write (few : (s.write c).1.Few thread) (ranked : s.Ranked durable) : s.Few thread := by
  rintro f rfl
  cases ranked.order ranked.kind.symm with
  | files numbered => exact Nat.lt_of_le_of_lt (numbered.length_write c thread) (few _ rfl)

/-- What a store takes is what it tells of from then on, as it is kept. -/
theorem load_written (h : s.Ranked durable) (version : durable = true → c.version = checkpointVersion)
    (own : c.thread = .str thread) (few : (s.write c).1.Few thread) (taken : (s.write c).2 = .ok ()) :
    ∃ d, (s.write c).1.load thread = .ok (some d) ∧ c.KeptAs durable d := by
  have appended (saved : List Checkpoint) : (ofThread (saved ++ [c]) thread).getLast? = some c := by
    rw [ofThread_append, if_pos (Checkpoint.isOf_iff.mpr own), List.getLast?_concat]
  have same := h.kind
  cases durable with
  | false =>
    refine ⟨c, ?_, rfl⟩
    cases s with
    | memory saved => exact congrArg Except.ok (appended saved)
    | limited saved n =>
      cases n with
      | zero => cases taken
      | succ n => exact congrArg Except.ok (appended saved)
    | table | files => cases same
  | true =>
    have order := h.order rfl
    have saved : (s.perform (.save c)).1 = (s.write c).1 ∧ (s.perform (.save c)).2 = .saved := by
      rw [Store.perform]
      split <;> rename_i written <;> rw [written] at taken ⊢
      · exact ⟨rfl, rfl⟩
      · cases taken
    rcases order.save_cases c with ⟨d, hd, takes, -⟩ | ⟨f, refused, -⟩
    · exact ⟨d, saved.1 ▸ order.load_saved (version rfl) own (few.of_write h) hd takes, hd⟩
    · rw [saved.2] at refused
      cases refused

end Store

theorem Surroundings.stable_ranked (graph thread : String) (durable : Bool) :
    Stock.Stable graph thread fun x => x.store.Ranked durable where
  save draws h := h.write (draws.own h.toOwned _ _)
  logged _ h := h
  deleted h deleted := h.delete deleted

theorem Store.Reached.ranked {s : Store} (h : s.Reached) : s.Ranked s.isDurable := by
  induction h with
  | unused h => exact ranked_of_isUnused h
  | evolved _ step ih =>
    obtain ⟨g, w, use, -, rfl, rfl⟩ := step
    have kept := Engine.stable_use (Surroundings.stable_ranked g.definition.name use.thread _) Ranked.toOwned ih
    exact kept.kind.symm ▸ kept
  | swept _ now hours perThread ih => exact ih.sweep now hours perThread

/-! ### Calls one after another -/

namespace Engine

open Surroundings

variable {g run : Engine} {w v : Surroundings} {request : Request} {e : Execution} {entry : Entry} {p : Position}
  {r : Pass} {x : Ended} {o : Outcome} {thread : String} {f : Failure} {P : Surroundings → Prop}

/-- What calls keep holds when a run is launched. -/
theorem Launches.stable (h : g.Launches w request run e entry v)
    (stable : StableCalls g.definition.name request.thread request.options.observers P) (hw : P w) : P v := by
  cases h with
  | start opening _ save =>
    have own := thread_of_begun opening
    exact stable.emit _ own (stable_save (own ▸ stable.toStable) (stable.joined hw) save rfl)
  | resume resumption =>
    obtain ⟨_, _, _, e, last, -, -, taken, -, -, -, execution⟩ := taken_of_resumption resumption
    refine stable.emit _ ?_ (stable.activate hw)
    rw [execution]
    exact thread_of_last stable hw last taken

/-- A save that is answered with a checkpoint has written it. -/
theorem written_of_save {snapshot : (id timestamp : Value) → Checkpoint} {c : Checkpoint}
    (saved : (w.save snapshot).2 = .ok c) : c = w.drawUp snapshot ∧ (w.store.write (w.drawUp snapshot)).2 = .ok () := by
  change (w.store.write (w.drawUp snapshot)).2.map (fun _ => w.drawUp snapshot) = _ at saved
  cases taken : (w.store.write (w.drawUp snapshot)).2 with
  | error f =>
    rw [taken] at saved
    cases saved
  | ok =>
    rw [taken] at saved
    cases saved
    exact ⟨rfl, rfl⟩

/-- A save that the store takes. -/
theorem save_of_taken {s : Store} (taken : w.store.write (g.snapshot e w) = (s, .ok ())) :
    g.save e w = ({ w with store := s, drawn := w.drawn + 1 }, .ok (g.snapshot e w)) := by
  rw [Engine.save, Surroundings.save]
  rw [snapshot, Surroundings.drawUp] at taken
  dsimp only
  rw [taken]
  rfl

theorem pause_of_taken {s : Store} {node : String} {kind : InterruptKind} {prompt : Value}
    (taken : w.store.write (g.snapshot (e.paused node kind prompt) w) = (s, .ok ())) :
    (g.pause e node kind prompt w).1 = Surroundings.emit { w with store := s, drawn := w.drawn + 1 }
      { kind := .interrupted, thread := e.thread, node, step := e.step
        data := [("interrupt", Interrupt.toValue { node := .str node, prompt, kind })] } := by
  unfold pause
  dsimp only
  rw [show g.save { e with status := .paused, interrupt := _ } w = _ from save_of_taken taken]

/-- A run that is answered to wait has just been written down. -/
theorem written_of_pause {node : String} {kind : InterruptKind} {prompt : Value}
    (answered : (g.pause e node kind prompt w).2 = .ok o) :
    (w.store.write (g.snapshot (e.paused node kind prompt) w)).2 = .ok () ∧
      (g.pause e node kind prompt w).1.store = (w.store.write (g.snapshot (e.paused node kind prompt) w)).1 := by
  refine ⟨?_, g.store_pause e node kind prompt w⟩
  rw [pause] at answered
  dsimp only at answered
  split at answered
  · cases answered
  · rename_i saved
    exact (written_of_save (congrArg Prod.snd saved)).2

theorem written_of_complete (answered : (g.complete e w).2 = .ok o) :
    (w.store.write (g.snapshot e.completed w)).2 = .ok () ∧
      (g.complete e w).1.store = (w.store.write (g.snapshot e.completed w)).1 := by
  refine ⟨?_, g.store_complete e w⟩
  rw [complete] at answered
  dsimp only at answered
  split at answered
  · cases answered
  · rename_i saved
    exact (written_of_save (congrArg Prod.snd saved)).2

/-- A failure is written down over what was last told of the thread, or of the run as it stands if nothing was. -/
inductive Overwrites (g : Engine) (e : Execution) (f : Failure) (w : Surroundings) :
    ((id timestamp : Value) → Checkpoint) → Prop
  | last {b : Checkpoint} (load : w.store.load e.thread = .ok (some b)) : Overwrites g e f w (b.failed f.toValue)
  | none (load : w.store.load e.thread = .ok none) : Overwrites g e f w ((e.failed f).checkpoint g.definition.name)

section Overwriting

variable {snapshot : (id timestamp : Value) → Checkpoint} (h : g.Overwrites e f w snapshot)
include h

theorem Overwrites.draws : w.Draws g.definition.name e.thread snapshot := by
  cases h with
  | last load => exact .failure load f
  | none => exact .run rfl

theorem Overwrites.status_eq : (w.drawUp snapshot).status = .failed := by
  cases h <;> rfl

end Overwriting

/-- A run that is answered to have failed has just been written down so. -/
theorem written_of_fail (answered : (g.fail e f w).2 = .ok o) : ∃ snapshot, g.Overwrites e f w snapshot ∧
    (w.store.write (w.drawUp snapshot)).2 = .ok () ∧
      (g.fail e f w).1.store = (w.store.write (w.drawUp snapshot)).1 ∧ o.state = (w.drawUp snapshot).state := by
  have store := g.store_fail e f w
  rw [fail] at answered
  dsimp only at answered
  split at answered
  · cases answered
  · rename_i recorded
    cases answered
    replace recorded := congrArg Prod.snd recorded
    change (g.record (e.failed f) f w).2 = _ at recorded
    unfold record at recorded store
    split at recorded <;> rename_i load <;> simp only [load] at store
    · cases recorded
    · obtain ⟨rfl, taken⟩ := written_of_save recorded
      exact ⟨_, .last load, taken, store, rfl⟩
    · obtain ⟨rfl, taken⟩ := written_of_save recorded
      exact ⟨_, .none load, taken, store, rfl⟩

/-- Where a run waits that pauses at a pass: before its node or in it, or after the step from there. -/
def WaitsAt (g : Engine) (r : Pass) (kind : InterruptKind) (p : Position) : Prop :=
  match kind with
  | .after => (g.turnAt r).2 = .reached p
  | .dynamic | .before => p = r.execution.position

/-- A call that is answered that the run waits ends with a pause. -/
theorem Ends.pauses (ends : g.Ends (g.passAt thread p entry w) x) (answered : x.2 = .ok o) (paused : o.status = .paused)
    (stable : Stable g.definition.name thread P) (hw : P w) :
    ∃ q node kind prompt v, x = g.pause (q.running thread g.config.metadata) node kind prompt v ∧
      g.WaitsAt (g.passAt thread p entry w) kind q ∧ (kind ≠ .after → node = q.node) ∧ P v := by
  have failed {e f v} (answered : (g.fail e f v).2 = .ok o) : False := by
    rw [(outcome_of_fail answered).1] at paused
    cases paused
  cases ends with
  | cancelled | exhausted | withdrawn | failed | revoked => exact (failed answered).elim
  | completed =>
    rw [(outcome_of_complete answered).1] at paused
    cases paused
  | held => exact ⟨p, _, .before, _, _, rfl, rfl, fun _ => rfl, hw⟩
  | suspended => exact ⟨p, _, .dynamic, _, _, rfl, rfl, fun _ => rfl, stable_after stable hw⟩
  | @paused q _ reached =>
    exact ⟨q, _, .after, _, _, rfl, reached, fun other => absurd rfl other, stable_told stable hw _⟩
  | lost | unsaved => cases answered

end Engine

/-- A call of an engine that launches a run, on a store in use. -/
structure Launch where
  engine : Engine
  around : Surroundings
  request : Request
  run : Engine
  execution : Execution
  entry : Entry
  launched : Surroundings
  reached : around.store.Reached
  launches : engine.Launches around request run execution entry launched

namespace Launch

open Engine Surroundings

variable {k k' : Launch} {r : Pass}

def thread (k : Launch) : String := k.request.thread

/-- The surroundings that the call leaves. -/
def left (k : Launch) : Surroundings := (k.engine.serve k.around k.request).1

def answer (k : Launch) : Except Fault (Option Outcome) := (k.engine.serve k.around k.request).2

/-- The pass that the run begins with. -/
def first (k : Launch) : Pass := k.run.firstPass k.execution k.entry k.launched

/-- The first call was answered that the run waits, and what it left to be told of its thread is told when the other
    one is made. Names of files have eight digits to count with, and tell of what was written last up to there. -/
structure Follows (k' k : Launch) : Prop where
  waits : ∃ o, k.answer = .ok (some o) ∧ o.status = .paused
  few : ∀ f, k.left.store = .files f → (f.ofThread k.thread).length < 10 ^ 8
  last : k'.around.store.load k.thread = k.left.store.load k.thread

/-- A run stands at a position when it is launched. -/
theorem stands (k : Launch) : ∃ p : Position, k.execution = p.running k.thread k.run.config.metadata := by
  obtain ⟨p, -, stands⟩ := k.launches.stands (k.reached.depicts k.thread) fun _ _ _ _ _ _ => Definition.counts_of_origin
  exact ⟨p, stands⟩

/-- What a call begins with that resumes its thread. -/
theorem resume_eq {thread : String} {value : Value} {options : CallOptions}
    (h : k.request = .resume thread value options) :
    ∃ r providers, k.engine.resumption thread options.overrides k.around.store = .ok r ∧
      k.run = { k.engine with config := r.config, providers } ∧ k.execution = r.execution ∧
      k.entry = entryAfter r.interrupt.kind value ∧ k.launched = reopened r thread k.around := by
  have launches := k.launches
  rw [h] at launches
  generalize k.run = run, k.execution = e, k.entry = entry, k.launched = v at launches ⊢
  cases launches with
  | @resume _ _ _ r providers resumption => exact ⟨r, providers, resumption, rfl, rfl, rfl, rfl⟩

/-- The call ends as the last pass of its run does. -/
theorem left_eq (k : Launch) (goes : Relation.ReflTransGen k.run.Goes k.first r) :
    k.left.store = (k.run.run r).1.store ∧ ∀ o, k.answer = .ok (some o) → (k.run.run r).2 = .ok o := by
  rw [← run_eq_of_goes goes]
  exact ⟨congrArg (·.1.store) k.launches.serve_eq, fun _ => k.launches.run_answered⟩

/-- What a call leaves to be told that is answered that its run waits: where the run has come to, as the store keeps
    it, and the settings of the run. -/
theorem Follows.told (h : k'.Follows k) (goes : Relation.ReflTransGen k.run.Goes k.first r)
    (ends : k.run.Ends r (k.run.run r)) :
    ∃ d p q, k'.around.store.load k.thread = .ok (some d) ∧ d.thread = .str k.thread ∧
      d.metadata = k.run.config.metadata ∧ p.KeptAs k.around.store.isDurable q ∧ d.Depicts q ∧
      ∀ i, d.interrupt = some i → k.run.WaitsAt r i.kind p := by
  obtain ⟨o, answered, paused⟩ := h.waits
  obtain ⟨store, ended⟩ := k.left_eq goes
  obtain ⟨p, stands⟩ := k.stands
  have begins : k.first = k.run.passAt k.thread p k.entry k.launched :=
    congrArg (k.run.firstPass · k.entry k.launched) stands
  rw [begins] at goes
  have ranked (graph : String) : Stock.Stable graph k.thread fun x => x.store.Ranked k.around.store.isDurable :=
    stable_ranked _ _ _
  have launched : k.launched.store.Ranked k.around.store.isDurable :=
    k.launches.stable (stableCalls_of_stock (ranked _) (fun hx last => hx.own (Store.reads_of_load last)) _)
      k.reached.ranked
  have kept : r.around.store.Ranked k.around.store.isDurable :=
    passes_stable (P := fun w => w.store.Ranked _) (stable_of_stock (ranked _)) launched goes
  obtain ⟨p', entry, v, rfl⟩ := passes_at_position goes
  -- The pause is written down last, and so it is told.
  obtain ⟨q, node, kind, prompt, u, pause, waits, here, hu⟩ :=
    ends.pauses (ended o answered) paused (stable_of_stock (ranked _)) kept
  obtain ⟨taken, left⟩ := written_of_pause (pause ▸ ended o answered)
  rw [pause, left] at store
  obtain ⟨d, load, as⟩ := Store.load_written hu (fun _ => rfl) rfl (store ▸ h.few) taken
  obtain ⟨q', same, depicts⟩ := (depicts_checkpoint (.paused here prompt)).keptAs as
  refine ⟨d, q, q', h.last.trans (store ▸ load), ?_, as.mirrors.metadata k.run.config.exact_metadata, same, depicts, ?_⟩
  · exact (hu.write rfl).own (Store.reads_of_load load)
  · intro i hi
    obtain ⟨j, hj, sameKind, -⟩ := as.mirrors.pending hi
    cases hj
    exact sameKind ▸ waits

/-- A resumption that follows a call goes on with its run where that has come to. -/
theorem Follows.goes_on (h : k'.Follows k) {value : Value} {options : CallOptions}
    (request : k'.request = .resume k.thread value options) (goes : Relation.ReflTransGen k.run.Goes k.first r)
    (ends : k.run.Ends r (k.run.run r)) :
    ∃ d p q i, k'.engine.lastCheckpoint k.thread k'.around.store = .ok d ∧ d.status = .paused ∧
      d.metadata = k.run.config.metadata ∧ d.interrupt = some i ∧ k.run.WaitsAt r i.kind p ∧
      p.KeptAs k.around.store.isDurable q ∧ d.Depicts q ∧
      k'.execution = q.running k.thread k'.run.config.metadata ∧ k'.entry = entryAfter i.kind value := by
  obtain ⟨d, p, q, load, own, settings, kept, depicts, waits⟩ := h.told goes ends
  obtain ⟨r, providers, taken, run, execution, entry, -⟩ := k'.resume_eq request
  obtain ⟨last, paused, interrupt, stands⟩ := execution_of_resumption load own depicts taken
  refine ⟨d, p, q, r.interrupt, last, paused, settings, interrupt, waits _ interrupt, kept, depicts, ?_, entry⟩
  rw [execution, run]
  exact stands

/-- In memory, calls that are answered one after another, the first one that its run waits. -/
theorem exists_follows {g g' : Engine} {w : Surroundings} {request request' : Request} {o o' : Outcome}
    (memory : w.InMemory) (reached : w.store.Reached)
    (runs : request ≠ .cancel request.thread ∧ request ≠ .delete request.thread)
    (runs' : request' ≠ .cancel request'.thread ∧ request' ≠ .delete request'.thread)
    (answer : (g.serve w request).2 = .ok (some o)) (paused : o.status = .paused)
    (answer' : (g'.serve (g.serve w request).1 request').2 = .ok (some o')) :
    ∃ k k' : Launch, k.engine = g ∧ k.around = w ∧ k.request = request ∧ k'.engine = g' ∧
      k'.around = (g.serve w request).1 ∧ k'.request = request' ∧ k'.Follows k := by
  obtain ⟨run, e, entry, v, first⟩ := exists_launch runs answer
  obtain ⟨run', e', entry', v', second⟩ := exists_launch runs' answer'
  have evolved : (g.serve w request).1.store.Reached := reached.serve request
  obtain ⟨saved, kept⟩ := (serve_frame g memory request).1
  refine ⟨⟨g, w, request, run, e, entry, v, reached, first⟩, ⟨g', _, request', run', e', entry', v', evolved, second⟩,
    rfl, rfl, rfl, rfl, rfl, rfl, ⟨o, answer, paused⟩, fun f hf => ?_, rfl⟩
  cases kept.symm.trans hf

end Launch

end Workflow
