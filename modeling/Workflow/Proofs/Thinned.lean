import Workflow.Proofs.Abreast
import Workflow.Proofs.Lifecycle
import Workflow.Proofs.Ordering
import Workflow.Proofs.Safety

/-! # Thinned histories

A run is written down at every step, or only when it starts, pauses and ends. The same calls are answered
alike in both modes, and their histories differ in what is left out (`thinned_histories`): the records
between two steps. A failure is written over the last record there is, so in the second mode it is written
over the last one that is left. -/

namespace Workflow

/-! ### What is left out -/

namespace Checkpoint

/-- The run is written down between two steps. -/
def isPassing (c : Checkpoint) : Bool := c.status == .running && decide (0 < c.step)

/-- Puts a record after those that are left: nothing for one between two steps, and what `write` makes of the last
    one for a failure. -/
def thin (write : Checkpoint → Checkpoint → Checkpoint) (left : List Checkpoint) (c : Checkpoint) : List Checkpoint :=
  if c.isPassing then left
  else if c.status = .failed then left ++ [(left.getLast?.map fun last => write last c).getD c]
  else left ++ [c]

def thinnedBy (write : Checkpoint → Checkpoint → Checkpoint) (cs : List Checkpoint) : List Checkpoint :=
  cs.foldl (thin write) []

/-- The records but for those between two steps; failures are written over the last one that is left. -/
def thinned (cs : List Checkpoint) : List Checkpoint :=
  thinnedBy (fun last c => last.failed c.error c.id c.timestamp) cs

end Checkpoint

/-- The settings of one configuration, with the mode in which every step is written down, and without. -/
def Config.InModes (m m' : Value) : Prop :=
  ∃ c : Config, m = { c with mode := .everyStep }.metadata ∧ m' = { c with mode := .interruptsOnly }.metadata

/-- The checkpoints are the same but for their marks and the mode in their settings. -/
structure Checkpoint.InModes (c c' : Checkpoint) : Prop where
  same : c' = { c with metadata := c'.metadata, id := c'.id, timestamp := c'.timestamp }
  kept : Config.InModes c.metadata c'.metadata

/-- The outcomes are the same but for the state of a run that has failed. -/
structure Outcome.InModes (o o' : Outcome) : Prop where
  same : o' = { o with state := o'.state }
  state : o.status ≠ .failed → o'.state = o.state

/-- The options are the same but for the mode. -/
def CallOptions.InModes (o o' : CallOptions) : Prop :=
  o' = { o with overrides := { o.overrides with mode := o'.overrides.mode } }

/-- The same call of two engines. Runs of the one are written down at every step, and those of the other are not: a
    start chooses the mode if the engine does not have it, and a resumption chooses no other one. -/
inductive Request.InModes (g g' : Engine) : Request → Request → Prop
  | start (thread : String) (input : Value) {o o' : CallOptions} (same : o.InModes o')
      (mode : Config.choose g.config.mode CheckpointMode.ofValue o.overrides.mode = .ok .everyStep)
      (mode' : Config.choose g'.config.mode CheckpointMode.ofValue o'.overrides.mode = .ok .interruptsOnly) :
      InModes g g' (.start thread input o) (.start thread input o')
  | resume (thread : String) (value : Value) {o o' : CallOptions} (same : o.InModes o')
      (mode : Config.choose .everyStep CheckpointMode.ofValue o.overrides.mode = .ok .everyStep)
      (mode' : Config.choose .interruptsOnly CheckpointMode.ofValue o'.overrides.mode = .ok .interruptsOnly) :
      InModes g g' (.resume thread value o) (.resume thread value o')
  | cancel (thread : String) : InModes g g' (.cancel thread) (.cancel thread)
  | delete (thread : String) : InModes g g' (.delete thread) (.delete thread)

/-- The answers to requests that are served one after another. -/
def Engine.outcomes (g : Engine) : Surroundings → List Request → List (Except Fault (Option Outcome))
  | _, [] => []
  | w, r :: rs => (g.serve w r).2 :: g.outcomes (g.serve w r).1 rs

namespace Checkpoint

variable {cs : List Checkpoint} {c c' : Checkpoint}

/-! ### Thinning record by record -/

theorem isPassing_iff : c.isPassing = true ↔ c.status = .running ∧ 0 < c.step := by
  rw [isPassing, Bool.and_eq_true, beq_iff_eq, decide_eq_true_iff]

theorem thinned_concat (cs : List Checkpoint) (c : Checkpoint) :
    thinned (cs ++ [c]) = thin (fun last c => last.failed c.error c.id c.timestamp) (thinned cs) c := by
  rw [thinned, thinnedBy, List.foldl_append]
  rfl

theorem thinned_passing (h : c.isPassing = true) : thinned (cs ++ [c]) = thinned cs := by
  rw [thinned_concat, thin, if_pos h]

theorem thinned_kept (passing : c.isPassing = false) (status : c.status ≠ .failed) :
    thinned (cs ++ [c]) = thinned cs ++ [c] := by
  rw [thinned_concat, thin, if_neg (ne_true_of_eq_false passing), if_neg status]

theorem isPassing_of_status (h : c.status ≠ .running) : c.isPassing = false := by
  rw [isPassing, beq_false_of_ne h, Bool.false_and]

theorem isPassing_of_step (h : c.step = 0) : c.isPassing = false := by
  rw [isPassing, h, decide_eq_false (Int.lt_irrefl 0), Bool.and_false]

theorem thinned_failed (cs : List Checkpoint) (status : c.status = .failed) : thinned (cs ++ [c]) =
    thinned cs ++ [((thinned cs).getLast?.map fun last => last.failed c.error c.id c.timestamp).getD c] := by
  have passing : c.isPassing = false := isPassing_of_status (by rw [status]; exact RunStatus.noConfusion)
  rw [thinned_concat, thin, if_neg (ne_true_of_eq_false passing), if_pos status]

/-- What is left tells of graphs that the records tell of. -/
theorem graph_of_mem_thinned {graph : Value} (h : ∀ c ∈ cs, c.graph = graph) : ∀ c ∈ thinned cs, c.graph = graph := by
  induction cs using List.reverseRecOn with
  | nil => exact h
  | append_singleton cs c ih =>
    have left := ih fun c hc => h c (List.mem_append_left _ hc)
    have last := h c (List.mem_append_right _ (List.mem_singleton_self c))
    intro b hb
    rw [thinned_concat, thin] at hb
    split at hb
    · exact left b hb
    · split at hb
      · rcases List.mem_append.mp hb with hb | hb
        · exact left b hb
        · rw [List.mem_singleton.mp hb]
          cases hl : (thinned cs).getLast? with
          | none => exact last
          | some l => exact left l (List.mem_of_getLast? hl)
      · rcases List.mem_append.mp hb with hb | hb
        · exact left b hb
        · rw [List.mem_singleton.mp hb]
          exact last

/-- The last one that is left stands for the last record, if that is not one between two steps. -/
theorem getLast?_thinned {graph : Value} (h : ∀ c ∈ cs, c.graph = graph) (last : cs.getLast? = some c)
    (passing : c.isPassing = false) :
    ∃ k, (thinned cs).getLast? = some k ∧ k.graph = graph ∧ k.status = c.status ∧ (c.status ≠ .failed → k = c) := by
  obtain ⟨before, rfl⟩ := List.getLast?_eq_some_iff.mp last
  by_cases status : c.status = .failed
  · have failed := thinned_failed before status
    refine ⟨_, by rw [failed, List.getLast?_concat], ?_, ?_, fun h => absurd status h⟩
    · refine graph_of_mem_thinned h _ ?_
      rw [failed]
      exact List.mem_append_right _ (List.mem_singleton_self _)
    · cases (thinned before).getLast? with
      | none => rfl
      | some last => exact status.symm
  · refine ⟨c, by rw [thinned_kept passing status, List.getLast?_concat], ?_, rfl, fun _ => rfl⟩
    exact h c (List.mem_append_right _ (List.mem_singleton_self c))

theorem InModes.failed (h : c.InModes c') (error id id' timestamp timestamp' : Value) :
    (c.failed error id timestamp).InModes (c'.failed error id' timestamp') := by
  obtain ⟨same, kept⟩ := h
  rw [same] at kept ⊢
  exact ⟨rfl, kept⟩

end Checkpoint

namespace Surroundings

/-! ### Surroundings of thinned histories -/

/-- The surroundings with another store, for which so many checkpoints were drawn up. -/
def storing (w : Surroundings) (store : Store) (drawn : Nat) : Surroundings := { w with store, drawn }

/-- The surroundings are the same but for the store, where the one keeps what is left of the records of the other. -/
structure Thins (w v : Surroundings) : Prop where
  memory : w.InMemory
  memory' : v.InMemory
  same : ∃ store drawn, v = w.storing store drawn
  records : ∀ t, List.Forall₂ Checkpoint.InModes (Checkpoint.thinned (w.records t)) (v.records t)
  begun : ∀ t, v.records t = [] → w.records t = []

section Storing
variable (w : Surroundings) (store : Store) (drawn : Nat) (thread : String)

theorem requestCancel_storing :
    (w.storing store drawn).requestCancel thread = (w.requestCancel thread).storing store drawn := by
  unfold requestCancel storing
  dsimp only
  split <;> rfl

theorem activate_storing : (w.storing store drawn).activate thread = (w.activate thread).storing store drawn := by
  unfold activate storing
  dsimp only
  split <;> rfl

theorem emit_storing (e : Event) : (w.storing store drawn).emit e = (w.emit e).storing store drawn := by
  have asked := requestCancel_storing
    { w with bus := w.bus.emitted e, deliveries := w.deliveries ++ w.bus.deliveries e } store drawn e.thread
  unfold emit
  unfold storing at asked ⊢
  dsimp only
  split
  · exact asked
  · rfl

variable {effects : Action.Effects} (lasting : effects.forgotten = false)
include lasting

theorem absorb_of_lasting : w.absorb thread effects =
    let told := { w with calls := effects.calls, trace := w.trace ++ effects.trace }
    if effects.cancelled then told.requestCancel thread else told := by
  rw [absorb, lasting]
  rfl

theorem absorb_storing :
    (w.storing store drawn).absorb thread effects = (w.absorb thread effects).storing store drawn := by
  rw [absorb_of_lasting _ _ lasting, absorb_of_lasting _ _ lasting]
  dsimp only
  split
  · exact requestCancel_storing { w with calls := effects.calls, trace := w.trace ++ effects.trace } store drawn thread
  · rfl

theorem store_absorb : (w.absorb thread effects).store = w.store := by
  rw [absorb_of_lasting _ _ lasting]
  dsimp only
  split
  · rw [store_requestCancel]
  · rfl

end Storing

namespace Thins

variable {w v w' v' : Surroundings} {thread : String} {c c' : Checkpoint} (h : Thins w v)
include h

theorem of_store (left : w'.store = w.store) (right : v'.store = v.store)
    (same : ∃ store drawn, v' = w'.storing store drawn) : Thins w' v' where
  memory := h.memory.congr left
  memory' := h.memory'.congr right
  same := same
  records t := by
    rw [records_congr left, records_congr right]
    exact h.records t
  begun t := by
    rw [records_congr left, records_congr right]
    exact h.begun t

theorem emit (e : Event) : Thins (w.emit e) (v.emit e) := by
  refine h.of_store (store_emit w e) (store_emit v e) ?_
  obtain ⟨store, drawn, rfl⟩ := h.same
  exact ⟨store, drawn, emit_storing w store drawn e⟩

theorem emitLast (e : Event) : Thins (w.emitLast e) (v.emitLast e) := by
  refine h.of_store (store_emitLast w e) (store_emitLast v e) ?_
  obtain ⟨store, drawn, rfl⟩ := h.same
  refine ⟨store, drawn, ?_⟩
  rw [Surroundings.emitLast, emit_storing]
  rfl

theorem requestCancel (thread : String) : Thins (w.requestCancel thread) (v.requestCancel thread) := by
  refine h.of_store (store_requestCancel w thread) (store_requestCancel v thread) ?_
  obtain ⟨store, drawn, rfl⟩ := h.same
  exact ⟨store, drawn, requestCancel_storing w store drawn thread⟩

theorem activate (thread : String) : Thins (w.activate thread) (v.activate thread) := by
  refine h.of_store (store_activate w thread) (store_activate v thread) ?_
  obtain ⟨store, drawn, rfl⟩ := h.same
  exact ⟨store, drawn, activate_storing w store drawn thread⟩

theorem release (thread : String) : Thins (w.release thread) (v.release thread) := by
  refine h.of_store rfl rfl ?_
  obtain ⟨store, drawn, rfl⟩ := h.same
  exact ⟨store, drawn, rfl⟩

theorem attended (thread : String) (observers : List Observer) :
    Thins (w.attended thread observers) (v.attended thread observers) := by
  refine h.of_store rfl rfl ?_
  obtain ⟨store, drawn, rfl⟩ := h.same
  exact ⟨store, drawn, rfl⟩

theorem joined (thread : String) (observers : List Observer) :
    Thins (w.joined thread observers) (v.joined thread observers) := by
  refine h.of_store (store_joined w thread observers) (store_joined v thread observers) ?_
  obtain ⟨store, drawn, rfl⟩ := h.same
  exact ⟨store, drawn, activate_storing (w.attended thread observers) store drawn thread⟩

theorem absorb (thread : String) {effects : Action.Effects} (lasting : effects.forgotten = false) :
    Thins (w.absorb thread effects) (v.absorb thread effects) := by
  refine h.of_store (store_absorb w thread lasting) (store_absorb v thread lasting) ?_
  obtain ⟨store, drawn, rfl⟩ := h.same
  exact ⟨store, drawn, absorb_storing w store drawn thread lasting⟩

theorem isCancelled (thread : String) : w.isCancelled thread = v.isCancelled thread := by
  obtain ⟨store, drawn, rfl⟩ := h.same
  rfl

theorem clear (thread : String) : Thins { w with bus := w.bus.clear thread } { v with bus := v.bus.clear thread } := by
  refine h.of_store rfl rfl ?_
  obtain ⟨store, drawn, rfl⟩ := h.same
  exact ⟨store, drawn, rfl⟩

theorem forget (thread : String) : Thins (w.forget thread) (v.forget thread) where
  memory := h.memory.forget thread
  memory' := h.memory'.forget thread
  same := by
    obtain ⟨store, drawn, rfl⟩ := h.same
    obtain ⟨saved, hs⟩ := h.memory
    obtain ⟨saved', hs'⟩ := h.memory'
    refine ⟨.memory (Store.without saved' thread), drawn, ?_⟩
    have hs' : store = .memory saved' := hs'
    simp only [Surroundings.forget, storing, hs, hs', Store.delete]
  records t := by
    by_cases hne : thread = t
    · subst hne
      rw [records_forget_self h.memory, records_forget_self h.memory']
      exact .nil
    · rw [records_forget_of_ne h.memory hne, records_forget_of_ne h.memory' hne]
      exact h.records t
  begun t none := by
    by_cases hne : thread = t
    · subst hne
      exact records_forget_self h.memory
    · rw [records_forget_of_ne h.memory' hne] at none
      rw [records_forget_of_ne h.memory hne]
      exact h.begun t none

/-- Both stores take a checkpoint. -/
theorem keep (own : c.thread = .str thread) (own' : c'.thread = .str thread)
    (records : List.Forall₂ Checkpoint.InModes (Checkpoint.thinned (w.records thread ++ [c]))
      (v.records thread ++ [c'])) : Thins (w.keep c) (v.keep c') where
  memory := h.memory.keep c
  memory' := h.memory'.keep c'
  same := by
    obtain ⟨store, drawn, rfl⟩ := h.same
    exact ⟨_, _, rfl⟩
  records t := by
    by_cases hne : thread = t
    · subst hne
      rw [records_keep_self h.memory own, records_keep_self h.memory' own']
      exact records
    · rw [records_keep_of_ne h.memory own hne, records_keep_of_ne h.memory' own' hne]
      exact h.records t
  begun t none := by
    by_cases hne : thread = t
    · subst hne
      rw [records_keep_self h.memory' own'] at none
      simp at none
    · rw [records_keep_of_ne h.memory' own' hne] at none
      rw [records_keep_of_ne h.memory own hne]
      exact h.begun t none

/-- A checkpoint between two steps is put into the one store only, where another one is before it. -/
theorem note (own : c.thread = .str thread) (passing : c.isPassing = true) (begun : v.records thread ≠ []) :
    Thins (w.keep c) v where
  memory := h.memory.keep c
  memory' := h.memory'
  same := by
    obtain ⟨store, drawn, rfl⟩ := h.same
    exact ⟨store, drawn, rfl⟩
  records t := by
    by_cases hne : thread = t
    · subst hne
      rw [records_keep_self h.memory own, Checkpoint.thinned_passing passing]
      exact h.records thread
    · rw [records_keep_of_ne h.memory own hne]
      exact h.records t
  begun t none := by
    by_cases hne : thread = t
    · subst hne
      exact absurd none begun
    · rw [records_keep_of_ne h.memory own hne]
      exact h.begun t none

end Thins

end Surroundings

theorem Execution.Alike.failed {b : Bond} {e e' : Execution} (h : e.Alike b e') (f : Failure) :
    (e.failed f).Alike b (e'.failed f) := by
  obtain ⟨same, kept, own⟩ := h
  rw [same] at kept ⊢
  exact ⟨rfl, kept, own⟩

namespace Config

/-! ### Configurations of the modes -/

/-- The same overrides but for the mode leave the same configuration but for the mode. -/
theorem both_override (c c' : Config) (o o' : Overrides) (same : c' = { c with mode := c'.mode })
    (sameOverrides : o' = { o with mode := o'.mode })
    (mode : choose c.mode CheckpointMode.ofValue o.mode = .ok .everyStep)
    (mode' : choose c'.mode CheckpointMode.ofValue o'.mode = .ok .interruptsOnly) :
    Both (fun k k' => k.mode = .everyStep ∧ k' = { k with mode := .interruptsOnly })
      (c.override o) (c'.override o') := by
  have limits : choose c'.recursionLimit limitOf o'.recursionLimit =
      choose c.recursionLimit limitOf o.recursionLimit := by
    rw [same, sameOverrides]
  have befores : choose c'.before namesOf o'.before = choose c.before namesOf o.before := by rw [same, sameOverrides]
  have afters : choose c'.after namesOf o'.after = choose c.after namesOf o.after := by rw [same, sameOverrides]
  unfold override
  rw [limits, befores, afters, mode, mode']
  refine (Both.refl (S := Eq) (fun _ => rfl) _).bind fun {limit _} h => ?_
  subst h
  refine (Both.refl (S := Eq) (fun _ => rfl) _).bind fun {before _} h => ?_
  subst h
  refine (Both.refl (S := Eq) (fun _ => rfl) _).bind fun {after _} h => ?_
  subst h
  rw [same]
  exact .ok ⟨rfl, rfl⟩

theorem inModes_metadata {c c' : Config} (h : c.mode = .everyStep ∧ c' = { c with mode := .interruptsOnly }) :
    InModes c.metadata c'.metadata := by
  obtain ⟨mode, rfl⟩ := h
  refine ⟨c, ?_, rfl⟩
  rw [← mode]

end Config

namespace Engine

open Surroundings (Thins Paired Stable)

variable {g g' : Engine} {w v : Surroundings} {thread : String} {o o' : CallOptions}

/-! ### The bond of the modes -/

/-- A run that is written down at every step, and the same one that is not. -/
def modes (thread : String) : Bond where
  thread
  around := Thins
  inside w v := Thins w v ∧ v.records thread ≠ []
  settings := Config.InModes
  configs c c' := c.mode = .everyStep ∧ c' = { c with mode := .interruptsOnly }
  states _ _ := True
  going e := e.status = .running ∧ 0 ≤ e.step

theorem inModes_checkpoint {e e' : Execution} (h : e.Alike (modes thread) e') (graph : String)
    (id id' timestamp timestamp' : Value) :
    (e.checkpoint graph id timestamp).InModes (e'.checkpoint graph id' timestamp') := by
  obtain ⟨same, kept, own⟩ := h
  rw [same] at kept ⊢
  exact ⟨rfl, kept⟩

theorem inModes_snapshot {e e' : Execution} (h : e.Alike (modes thread) e') (hd : g'.definition = g.definition)
    (w v : Surroundings) : (g.snapshot e w).InModes (g'.snapshot e' v) := by
  unfold snapshot Surroundings.drawUp
  rw [hd]
  exact inModes_checkpoint h _ _ _ _ _

/-- Both stores take a checkpoint of a run that does not go on. -/
theorem thins_save {e e' : Execution} (h : e.Alike (modes thread) e') (hd : g'.definition = g.definition)
    (hw : Thins w v) (passing : (g.snapshot e w).isPassing = false) (status : e.status ≠ .failed) :
    Thins (w.keep (g.snapshot e w)) (v.keep (g'.snapshot e' v)) := by
  have own : (g.snapshot e w).thread = .str thread := congrArg Value.str h.own
  have own' : (g'.snapshot e' v).thread = .str thread := by rw [h.same]; exact congrArg Value.str h.own
  refine hw.keep own own' ?_
  rw [Checkpoint.thinned_kept passing status]
  exact List.rel_append (hw.records thread) (.cons (inModes_snapshot h hd w v) .nil)

/-- A failure is written over the last record, or the last one that is left of them. -/
theorem thins_verdict {e e' : Execution} (h : e.Alike (modes thread) e') (hd : g'.definition = g.definition)
    (f : Failure) (hw : Thins w v) :
    Thins (w.keep (g.verdict e f w)) (v.keep (g'.verdict e' f v)) := by
  have own : e.thread = thread := h.own
  have own' : e'.thread = thread := by rw [h.same]; exact own
  refine hw.keep (own ▸ thread_verdict) (own' ▸ thread_verdict) ?_
  rw [Checkpoint.thinned_failed _ status_verdict]
  refine List.rel_append (hw.records thread) (.cons ?_ .nil)
  have left := hw.records thread
  unfold verdict
  rw [own, own']
  cases hr : (w.records thread).getLast? with
  | none =>
    -- Where there is no record none is left, so both runs are written down as they stand.
    have none := List.getLast?_eq_none_iff.mp hr
    rw [none] at left
    rw [none, List.forall₂_nil_left_iff.mp left]
    exact inModes_snapshot (h.failed f) hd w v
  | some last =>
    have begun : v.records thread ≠ [] := fun none => by
      rw [hw.begun thread none] at hr
      cases hr
    have related := getLast?_of_forall₂ left
    rw [List.getLast?_eq_some_getLast begun] at related ⊢
    generalize (Checkpoint.thinned (w.records thread)).getLast? = kept at related ⊢
    cases related with
    | some related => exact related.failed _ _ _ _ _

theorem passing_snapshot {e : Execution} (status : e.status ≠ .running) (w : Surroundings) :
    (g.snapshot e w).isPassing = false :=
  Checkpoint.isPassing_of_status status

theorem level_modes (thread : String) (hd : g'.definition = g.definition) : Level (modes thread) Thins g g' where
  definition := hd
  full := Surroundings.stable_of_never (fun _ full => full trivial) _
  emit _ hw := hw.emit _
  emitLast _ hw := hw.emitLast _
  save {w v e e'} he running failed hw _ := by
    rw [save_snapshot hw.memory, save_snapshot hw.memory']
    exact ⟨thins_save he hd hw (passing_snapshot running w) failed, .ok trivial⟩
  record {w v e e' f} he hw _ := by
    rw [record_eq hw.memory, record_eq hw.memory']
    exact ⟨thins_verdict he hd f hw, .ok trivial⟩

/-- A run that was written down stays so. -/
theorem level_inside (thread : String) (hd : g'.definition = g.definition) :
    Level (modes thread) (modes thread).inside g g' := by
  have kept {v : Surroundings} {c : Checkpoint} (hm : v.InMemory) (begun : v.records thread ≠ []) :
      (v.keep c).records thread ≠ [] := by
    rw [Surroundings.records_keep hm]
    exact fun none => begun (List.append_eq_nil_iff.mp none).1
  refine { level_modes thread hd with emit := ?_, emitLast := ?_, save := ?_, record := ?_ }
  · intro w v e _ hw
    exact ⟨hw.1.emit e, by rw [Surroundings.records_emit]; exact hw.2⟩
  · intro w v e _ hw
    exact ⟨hw.1.emitLast e, by rw [Surroundings.records_emitLast]; exact hw.2⟩
  · intro w v e e' he running failed hw room
    have saved := (level_modes thread hd).save he running failed hw.1 room
    refine ⟨⟨saved.around, ?_⟩, saved.answer⟩
    rw [save_snapshot hw.1.memory']
    exact kept hw.1.memory' hw.2
  · intro w v e e' f he hw room
    have recorded := (level_modes thread hd).record he hw.1 room
    refine ⟨⟨recorded.around, ?_⟩, recorded.answer⟩
    rw [record_eq hw.1.memory']
    exact kept hw.1.memory' hw.2

variable {mode : CheckpointMode} {c c' : Config}

theorem abreast_modes (lasting : g.definition.Lasting) (hd : g'.definition = g.definition)
    (hp : g'.providers = g.providers) (everyStep : g.config.mode = .everyStep)
    (same : g'.config = { g.config with mode := .interruptsOnly }) : Abreast (modes thread) g g' where
  toLevel := level_inside thread hd
  limit := by rw [same]
  before := by rw [same]
  after := by rw [same]
  cancelled hw := hw.1.isCancelled thread
  turn {w v} entry p hw := by
    have calls : v.calls = w.calls := by
      obtain ⟨store, drawn, rfl⟩ := hw.1.same
      rfl
    have forgotten := lasting.turn ⟨g.providers, entry⟩ thread p w.calls
    unfold turnIn
    rw [hd, hp, calls]
    refine ⟨⟨hw.1.absorb _ forgotten, ?_⟩, rfl⟩
    have kept := Surroundings.records_congr (Surroundings.store_absorb v thread forgotten) thread
    exact fun none => hw.2 (kept.symm.trans none)
  going {e p} going step := by
    refine ⟨going.1, ?_⟩
    show 0 ≤ p.step
    rw [step]
    exact Int.le_add_one going.2
  note {w v e e' p} he going step hw _ := by
    have passing : (g.snapshot (e.arrived p) w).isPassing = true := by
      refine Checkpoint.isPassing_iff.mpr ⟨going.1, ?_⟩
      show 0 < p.step
      rw [step]
      exact Int.lt_add_one_of_le going.2
    unfold note
    rw [everyStep, same]
    dsimp only
    rw [save_snapshot hw.1.memory]
    exact ⟨⟨hw.1.note (by rw [thread_snapshot]; exact congrArg _ he.own) passing hw.2, hw.2⟩, .ok trivial⟩

theorem names_of_inModes (same : o.InModes o') : o'.overrides.checkNames = o.overrides.checkNames := by
  rw [same]
  rfl

/-- Calls with the same options but for the mode are abreast. -/
theorem partners_modes (mode : CheckpointMode) (lasting : g.definition.Lasting) (same : o.InModes o')
    (thread : String) :
    Partners (modes thread) g { g with config := { g.config with mode } } o o' where
  toLevel := level_modes thread rfl
  begun := level_inside thread rfl
  settings h := Config.inModes_metadata h
  names := names_of_inModes same
  runs := by
    rw [same]
    refine Both.refl (fun ps c c' hc => ?_) _
    obtain ⟨everyStep, rfl⟩ := hc
    exact abreast_modes lasting rfl rfl everyStep rfl
  begins running step := ⟨running, Int.le_of_eq step.symm⟩
  first {w v e e'} he running step hw _ := by
    rw [save_snapshot hw.memory, save_snapshot hw.memory']
    refine ⟨⟨thins_save he rfl hw (Checkpoint.isPassing_of_step step) ?_, ?_⟩, .ok trivial⟩
    · rw [running]
      exact RunStatus.noConfusion
    · have own : e'.thread = thread := by rw [he.same]; exact he.own
      rw [Surroundings.records_keep_self hw.memory' (by rw [thread_snapshot, own])]
      exact List.append_ne_nil_of_right_ne_nil _ (List.cons_ne_nil _ _)
  enter {w v r} resumed hw := by
    obtain ⟨c, -, -, -, last, -⟩ := resumption_eq_ok hw.memory resumed
    have last : (w.records thread).getLast? = some c := last
    refine ⟨hw.activate thread, fun none => ?_⟩
    rw [hw.begun thread (Surroundings.records_activate.symm.trans none)] at last
    cases last
  release hw := hw.1.release thread
  released _ := trivial

theorem settled_modes (g : Engine) (mode : CheckpointMode) (thread : String) (same : o.InModes o')
    (chosen : Config.choose .everyStep CheckpointMode.ofValue o.overrides.mode = .ok .everyStep)
    (chosen' : Config.choose .interruptsOnly CheckpointMode.ofValue o'.overrides.mode = .ok .interruptsOnly) :
    Partners.Settled (modes thread) g { g with config := { g.config with mode } } o o' := by
  rintro m m' ⟨c, rfl, rfl⟩
  unfold settled
  rw [Config.ofMetadata_metadata, Config.ofMetadata_metadata]
  let every : Config := { c with mode := .everyStep }
  let pauses : Config := { c with mode := .interruptsOnly }
  have kept := Config.both_override g.config { g.config with mode } every.kept pauses.kept rfl rfl
    CheckpointMode.everyStep.ofValue_name CheckpointMode.interruptsOnly.ofValue_name
  refine kept.bind fun {k k'} h => ?_
  obtain ⟨everyStep, rfl⟩ := h
  have settled := Config.both_override k { k with mode := .interruptsOnly } o.overrides o'.overrides rfl
    (by rw [same]) (by rw [everyStep]; exact chosen) chosen'
  refine settled.bind fun h => ?_
  rw [Config.checkNames_onto_kept, Config.checkNames_onto_kept, names_of_inModes same]
  exact (Both.refl (fun _ => rfl) _).bind fun _ => .ok h

/-! ### Threads between calls -/

/-- The last record of a thread is not one between two steps. -/
def Rested (thread : String) (w : Surroundings) : Prop :=
  ∀ c, (w.records thread).getLast? = some c → c.isPassing = false

theorem rested_keep {c : Checkpoint} (hm : w.InMemory) (own : c.thread = .str thread) (h : c.isPassing = false) :
    Rested thread (w.keep c) := by
  intro last hlast
  rw [Surroundings.records_keep_self hm own, List.getLast?_concat] at hlast
  cases hlast
  exact h

/-- An ending that tells an outcome writes a record that is not between two steps. -/
theorem Writes.rested {e : Execution} {x : Ended} {o : Outcome} (h : g.Writes e w x) (hm : w.InMemory)
    (ok : x.2 = .ok o) : Rested e.thread x.1 := by
  cases h with
  | paused =>
    rw [pause_eq hm]
    intro c hc
    rw [Surroundings.records_emit] at hc
    exact rested_keep hm thread_snapshot (passing_snapshot (by exact RunStatus.noConfusion) w) c hc
  | completed =>
    rw [complete_eq hm]
    intro c hc
    rw [Surroundings.records_emitLast] at hc
    exact rested_keep hm thread_snapshot (passing_snapshot (by exact RunStatus.noConfusion) w) c hc
  | failed f =>
    rw [fail_eq hm]
    intro c hc
    rw [Surroundings.records_emitLast] at hc
    refine rested_keep hm thread_verdict (Checkpoint.isPassing_of_status ?_) c hc
    rw [status_verdict]
    exact RunStatus.noConfusion
  | lost => cases ok

/-- Runs of sound graphs do not end between two steps. -/
theorem Safe.run_rested {p : Position} (h : g.Safe thread p w) (sound : g.definition.Sound) (entry : Entry) :
    Rested thread (g.run (g.passAt thread p entry w)).1 := by
  obtain ⟨r, hgoes, hends⟩ := g.run_passes (g.passAt thread p entry w)
  obtain ⟨q, entry, v, rfl, hq⟩ := h.passes sound hgoes
  obtain ⟨-, o, ok, -⟩ := hq.ends sound hends
  obtain ⟨e, u, writes, hm, own, -⟩ := hends.writes hq.memory
  have rested := writes.rested hm ok
  rwa [own] at rested

theorem rested_serve {request : Request} (sound : g.definition.Sound) (hm : w.InMemory)
    (proper : ∀ c ∈ w.records request.thread, c.Proper g.definition) (rested : Rested request.thread w) :
    Rested request.thread (g.serve w request).1 := by
  cases g.serve_cases hm request with
  | idle kept records _ =>
    intro c hc
    rw [records] at hc
    exact rested c hc
  | @begun thread input options config e f opening served =>
    obtain ⟨-, -, p, -, he, -⟩ := (opening_eq_ok hm).mp opening
    have own : e.thread = thread := thread_of_opening hm opening
    have step : e.step = 0 := by rw [he]
    rw [served]
    intro c hc
    have opened : ((g.opened e options.observers w).release thread).records thread = _ := own ▸ records_opened hm _
    rw [show (Request.start thread input options).thread = thread from rfl, opened, List.getLast?_concat] at hc
    cases hc
    exact Checkpoint.isPassing_of_step step
  | entered enters =>
    obtain ⟨hd, p, entry, v, rfl, safe⟩ := enters.safe sound hm proper
    rw [enters.serve_eq hm]
    exact safe.run_rested (hd ▸ sound) entry
  | @ended thread c e last paused taken own served =>
    have writes : g.Writes e w (g.fail e (.cancelled thread) w) := .failed _
    rw [served]
    subst own
    exact writes.rested hm (by rw [fail_eq hm])
  | @deleted thread none _ =>
    have none : (g.serve w (.delete thread)).1.records (Request.delete thread).thread = [] := none
    intro c hc
    rw [none] at hc
    cases hc

/-- How the surroundings of both engines stand between two calls. -/
structure Between (d : Definition) (w v : Surroundings) : Prop where
  thins : Thins w v
  proper : ∀ t, ∀ c ∈ w.records t, c.Proper d
  rested : ∀ t, Rested t w

theorem Between.tell {d : Definition} (h : Between d w v) (thread : String) : Partners.Tell (modes thread) w v := by
  have related := getLast?_of_forall₂ (h.thins.records thread)
  unfold Partners.Tell
  rw [Surroundings.load_eq h.thins.memory, Surroundings.load_eq h.thins.memory']
  refine .ok ?_
  show Option.Rel _ (w.records thread).getLast? (v.records thread).getLast?
  cases hc : (w.records thread).getLast? with
  | none =>
    rw [List.getLast?_eq_none_iff.mp hc] at related
    generalize (v.records thread).getLast? = last at related
    cases related
    exact .none
  | some c =>
    have graphs : ∀ c ∈ w.records thread, c.graph = .str d.name := fun c hc => (h.proper thread c hc).graph
    obtain ⟨k, hk, graph, status, same⟩ := Checkpoint.getLast?_thinned graphs hc (h.rested thread c hc)
    rw [hk] at related
    cases hl : (v.records thread).getLast? with
    | none =>
      rw [hl] at related
      cases related
    | some c' =>
      rw [hl] at related
      cases related with
      | some related =>
        refine .some ⟨?_, ?_, fun hs => ?_⟩
        · rw [related.same, graphs c (List.mem_of_getLast? hc)]
          exact graph
        · rw [related.same]
          exact status
        · obtain rfl := same hs
          have own := Surroundings.thread_of_mem_records (List.mem_of_getLast? hc)
          exact ⟨related.same, related.kept, by rw [own]; rfl⟩

theorem Outcome.Alike.inModes {x y : Outcome} (h : x.Alike (modes thread) y) : x.InModes y := by
  cases h with
  | same => exact ⟨rfl, fun _ => rfl⟩
  | failed status _ => exact ⟨rfl, fun h => absurd status h⟩

theorem delete_eq (hm : w.InMemory) (thread : String) : ∃ n, delete thread w =
    ({ w.forget thread with bus := (w.forget thread).bus.clear thread }, .ok n) := by
  obtain ⟨saved, hs⟩ := hm
  refine ⟨(Store.ofThread saved thread).length, ?_⟩
  simp only [delete, Surroundings.forget, hs, Store.delete]

/-- A call in both modes is answered alike, and what is left is again how surroundings stand between calls. -/
theorem Between.serve (sound : g.definition.Sound) (lasting : g.definition.Lasting) (h : Between g.definition w v)
    {request request' : Request} (hr : request.InModes g { g with config := { g.config with mode } } request') :
    Between g.definition (g.serve w request).1 ({ g with config := { g.config with mode } }.serve v request').1 ∧
      Both (Option.Rel Outcome.InModes) (g.serve w request).2
        ({ g with config := { g.config with mode } }.serve v request').2 := by
  have hm := h.thins.memory
  suffices served : Paired Thins (Option.Rel Outcome.InModes) (g.serve w request)
      ({ g with config := { g.config with mode } }.serve v request') by
    obtain ⟨-, others⟩ := serve_frame g hm request
    refine ⟨⟨served.around, fun t => ?_, fun t => ?_⟩, served.answer⟩
    · by_cases own : request.thread = t
      · exact own ▸ (serve_safe sound hm (h.proper _)).1
      · rw [others t own]
        exact h.proper t
    · by_cases own : request.thread = t
      · exact own ▸ rested_serve sound hm (h.proper _) (h.rested _)
      · unfold Rested
        rw [others t own]
        exact h.rested t
  cases hr with
  | @start thread input o o' same chosen chosen' =>
    have partners := partners_modes mode lasting same thread
    have observers : o'.observers = o.observers := by rw [same]
    have settled := Config.both_override g.config { g.config with mode } _ _ rfl (by rw [same]) chosen chosen'
    have attended : Thins (w.attended thread o.observers) (v.attended thread o'.observers) := by
      rw [observers]
      exact h.thins.attended thread _
    have joined : Thins (w.joined thread o.observers) (v.joined thread o'.observers) := by
      rw [observers]
      exact h.thins.joined thread _
    exact (partners.start settled (h.tell thread) h.thins attended joined trivial).map fun alike =>
      .some (Outcome.Alike.inModes alike)
  | @resume thread value o o' same chosen chosen' =>
    have partners := partners_modes mode lasting same thread
    have settled := settled_modes g mode thread same chosen chosen'
    refine (partners.resume settled (h.tell thread) h.thins (fun r hr => ?_) trivial).map fun alike =>
      .some (Outcome.Alike.inModes alike)
    obtain ⟨c, kept, stored, e, hc, -, -, he, -, -, -, hr⟩ := resumption_eq_ok hm hr
    have nonneg := (h.proper thread c (List.mem_of_getLast? hc)).nonneg
    rw [hr]
    refine ⟨rfl, ?_⟩
    show 0 ≤ e.position.step
    rw [position_ofCheckpoint he]
    exact nonneg
  | cancel thread =>
    have same : CallOptions.InModes {} {} := rfl
    have partners := partners_modes mode lasting same thread
    have active : v.active = w.active := by
      obtain ⟨store, drawn, rfl⟩ := h.thins.same
      rfl
    have cancelled := partners.cancel (h.tell thread) h.thins (by rw [active]) (h.thins.requestCancel thread) trivial
    refine ⟨cancelled.around, cancelled.answer.imp fun alike => ?_⟩
    cases alike with
    | none => exact .none
    | some alike => exact .some (Outcome.Alike.inModes alike)
  | delete thread =>
    obtain ⟨n, hw⟩ := delete_eq hm thread
    obtain ⟨n', hv⟩ := delete_eq h.thins.memory' thread
    simp only [Engine.serve, hw, hv]
    exact ⟨(h.thins.forget thread).clear thread, .ok .none⟩

/-! ### Main statement -/

theorem outcomes_modes (sound : g.definition.Sound) (lasting : g.definition.Lasting) (h : Between g.definition w v)
    {requests requests' : List Request}
    (hr : List.Forall₂ (Request.InModes g { g with config := { g.config with mode } }) requests requests') :
    Between g.definition (g.serveAll w requests) ({ g with config := { g.config with mode } }.serveAll v requests') ∧
      List.Forall₂ (Both (Option.Rel Outcome.InModes)) (g.outcomes w requests)
        ({ g with config := { g.config with mode } }.outcomes v requests') := by
  induction hr generalizing w v with
  | nil => exact ⟨h, .nil⟩
  | cons first _ ih =>
    obtain ⟨between, answer⟩ := h.serve sound lasting first
    obtain ⟨ended, answers⟩ := ih between
    exact ⟨ended, .cons answer answers⟩

/-- Two calls of a thread: it is started in a mode, and resumed for no more than one step. -/
def curtailed (mode : CheckpointMode) : List Request :=
  [.start "t" .null { overrides := { mode := .str mode.name } },
    .resume "t" (.str "tick") { overrides := { recursionLimit := .int 1 } }]

theorem curtailed_inModes (g : Engine) :
    List.Forall₂ (Request.InModes g g) (curtailed .everyStep) (curtailed .interruptsOnly) := by
  refine .cons (.start "t" .null rfl ?_ ?_) (.cons (.resume "t" (.str "tick") rfl rfl rfl) .nil)
  · exact CheckpointMode.everyStep.ofValue_name
  · exact CheckpointMode.interruptsOnly.ofValue_name

/-- The bound on the steps that is kept with a checkpoint. -/
def keptLimit? (c : Checkpoint) : Option Int :=
  match c.metadata.getD "recursion_limit" with
  | .int n => some n
  | _ => none

theorem keptLimit?_inModes {c c' : Checkpoint} (h : c.InModes c') : keptLimit? c = keptLimit? c' := by
  obtain ⟨config, hm, hm'⟩ := h.kept
  unfold keptLimit?
  rw [hm, hm', Config.metadata, Config.metadata, Value.getD_ofFields, Value.getD_ofFields]
  rfl

/-- The record of a failure at the position and with the state of the last record that is left. -/
def relocated (last c : Checkpoint) : Checkpoint :=
  { c with node := last.node, state := last.state, step := last.step, history := last.history }

end Engine

end Workflow
