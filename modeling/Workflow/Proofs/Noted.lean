import Workflow.Proofs.Durable
import Workflow.Proofs.Evolution

/-! # What is written down of a thread

A store keeps a checkpoint as it is, or in its normal form (`Checkpoint.KeptAs`). A run is written down at the positions
that it comes to, as it goes on, pauses or is completed (`Execution.NotedAt`), and otherwise as failed. So what can be
read of a thread and is not of a failure is known from the positions of its runs, whatever the store is
(`Engine.Notes.run`). -/

namespace Workflow

/-! ### What stores keep of checkpoints -/

namespace Checkpoint

variable {c d : Checkpoint} {durable : Bool} {p : Position}

/-- What a store keeps of a checkpoint: its normal form, if the store outlives the process. -/
def KeptAs (durable : Bool) (c d : Checkpoint) : Prop := if durable then c.normal = .ok d else d = c

/-- The parts of a checkpoint that every store keeps as they are, and those that are kept by themselves. -/
structure Mirrors (c d : Checkpoint) : Prop where
  status : d.status = c.status
  step : d.step = c.step
  node : ∀ {id}, c.node = .str id → d.node = .str id
  history : ∀ {ids : List String}, c.history = ids.map .str → d.history = ids.map .str
  error : c.error = .null → d.error = .null
  metadata : c.metadata.Exact → d.metadata = c.metadata
  pending : ∀ {i}, d.interrupt = some i → ∃ j, c.interrupt = some j ∧ i.kind = j.kind ∧
    ∀ {id}, j.node = .str id → i.node = .str id

theorem Mirrors.refl (c : Checkpoint) : Mirrors c c where
  status := rfl
  step := rfl
  node h := h
  history h := h
  error h := h
  metadata _ := rfl
  pending {i} hi := ⟨i, hi, rfl, fun h => h⟩

theorem mirrors_of_normal (h : c.normal = .ok d) : Mirrors c d := by
  simp only [normal, bind_eq_ok] at h
  obtain ⟨_, -, _, -, _, -, _, -, _, node, _, -, interrupt, pending, _, history, _, error, _, -, _, metadata, h⟩ := h
  cases h
  refine ⟨rfl, rfl, eq_str_of_normal node, fun {ids} hids => ?_, fun hnull => ?_, fun exact => ?_, fun {i} hi => ?_⟩
  · have texts : Json.normalAll (ids.map Value.str) = .ok (ids.map Value.str) :=
      Json.normalAll_eq fun v hv => by
        obtain ⟨s, -, rfl⟩ := List.mem_map.mp hv
        rfl
    rw [hids, texts] at history
    exact (Except.ok.inj history).symm
  · rw [hnull] at error
    exact (Except.ok.inj error).symm
  · rw [Json.normal_of_exact exact] at metadata
    exact (Except.ok.inj metadata).symm
  · cases hc : c.interrupt with
    | none =>
      rw [hc] at pending
      cases pending
      cases hi
    | some j =>
      rw [hc, Option.mapM_some] at pending
      obtain ⟨k, hk, same⟩ := bind_eq_ok.mp pending
      cases same
      cases hi
      obtain ⟨node, hnode, hk⟩ := bind_eq_ok.mp hk
      obtain ⟨_, -, hk⟩ := bind_eq_ok.mp hk
      cases hk
      exact ⟨j, rfl, rfl, eq_str_of_normal hnode⟩

theorem KeptAs.mirrors (h : c.KeptAs durable d) : Mirrors c d := by
  cases durable with
  | false =>
    obtain rfl : d = c := h
    exact .refl d
  | true => exact mirrors_of_normal h

end Checkpoint

namespace Store

variable {s u : Store} {c d : Checkpoint} {thread other : String} {n : Nat} {durable : Bool} {R : Checkpoint → Prop}

theorem isDurable_write (s : Store) (c : Checkpoint) : (s.write c).1.isDurable = s.isDurable := by
  cases s with
  | memory => rfl
  | limited saved n => cases n <;> rfl
  | table t =>
    simp only [Store.write, Store.save]
    cases t.save c <;> rfl
  | files => rfl

theorem isDurable_delete (h : s.delete thread = .ok (u, n)) : u.isDurable = s.isDurable := by
  cases s with
  | memory | table | limited =>
    cases h
    rfl
  | files =>
    obtain rfl := delete_files h
    rfl

theorem normal_of_read {p : Payload} (h : Payload.ofCheckpoint c = .ok p) {unreadable : Payload.Unreadable}
    (read : p.read unreadable = .ok d) : c.normal = .ok d := by
  obtain ⟨k, hk, rfl⟩ := Payload.ofCheckpoint_eq_ok.mp h
  obtain rfl := Checkpoint.eq_of_ofValue_toValue (c := k) read
  exact hk

/-- What a save adds is what the store keeps of the checkpoint. -/
theorem reads_written (own : c.thread = .str thread) (h : (s.write c).1.Reads other d) :
    s.Reads other d ∨ other = thread ∧ c.KeptAs s.isDurable d := by
  have text : c.thread.text = thread := by rw [own]; rfl
  have appended {saved : List Checkpoint} (h : d ∈ saved ++ [c] ∧ d.thread = .str other) :
      (d ∈ saved ∧ d.thread = .str other) ∨ other = thread ∧ d = c := by
    rcases List.mem_append.mp h.1 with hd | hd
    · exact .inl ⟨hd, h.2⟩
    · obtain rfl := List.mem_singleton.mp hd
      exact .inr ⟨Value.str.inj (h.2.symm.trans own), rfl⟩
  cases s with
  | memory saved => exact appended h
  | limited saved n =>
    cases n with
    | zero => exact .inl h
    | succ n => exact appended h
  | table t =>
    simp only [Store.write, Store.save] at h
    cases ht : t.save c with
    | error f =>
      rw [ht] at h
      exact .inl h
    | ok v =>
      rw [ht] at h
      obtain ⟨r, hr, rfl, unreadable, read⟩ := h
      rcases Table.mem_save ht hr with hr | ⟨same, written⟩
      · exact .inl ⟨r, hr, rfl, unreadable, read⟩
      · exact .inr ⟨same.trans text, normal_of_read written read⟩
  | files f =>
    obtain ⟨x, hx, rfl, unreadable, read⟩ := h
    rcases Files.mem_write hx with hx | ⟨same, written⟩
    · exact .inl ⟨x, hx, rfl, unreadable, read⟩
    · exact .inr ⟨same.trans text, normal_of_read written read⟩

/-- What can be read of the thread, and is not of a failure, has the property. -/
structure Tracks (thread : String) (durable : Bool) (R : Checkpoint → Prop) (s : Store) : Prop extends Owned s where
  durable : s.isDurable = durable
  shown : ∀ {c}, s.Reads thread c → c.status ≠ .failed → R c

theorem Tracks.write (h : s.Tracks thread durable R) (own : c.thread = .str other)
    (noted : other = thread → c.status ≠ .failed → ∀ d, c.KeptAs durable d → R d) :
    (s.write c).1.Tracks thread durable R where
  toOwned := h.toOwned.write own
  durable := (isDurable_write s c).trans h.durable
  shown hd unfailed := by
    rcases reads_written own hd with hd | ⟨rfl, kept⟩
    · exact h.shown hd unfailed
    · rw [h.durable] at kept
      exact noted rfl (kept.mirrors.status ▸ unfailed) _ kept

theorem Tracks.delete (h : s.Tracks thread durable R) (deleted : s.delete other = .ok (u, n)) :
    u.Tracks thread durable R where
  toOwned := h.toOwned.delete deleted
  durable := (isDurable_delete deleted).trans h.durable
  shown hc := h.shown (reads_delete deleted hc).1

end Store

/-! ### How runs are written down -/

/-- The run that has come to a position is written down as it goes on, pauses or is completed. A pause that is not after
    the last node is told of the next one. -/
inductive Execution.NotedAt (p : Position) (thread : String) (metadata : Value) : Execution → Prop
  | running : NotedAt p thread metadata (p.running thread metadata)
  | paused {node : String} {kind : InterruptKind} (here : kind ≠ .after → node = p.node) (prompt : Value) :
    NotedAt p thread metadata ((p.running thread metadata).paused node kind prompt)
  | completed : NotedAt p thread metadata (p.running thread metadata).completed

theorem Execution.NotedAt.metadata_eq {e : Execution} {p : Position} {thread : String} {metadata : Value}
    (h : e.NotedAt p thread metadata) : e.metadata = metadata := by
  cases h <;> rfl

namespace Surroundings

variable {w : Surroundings} {thread other graph : String} {durable : Bool} {R : Checkpoint → Prop}

/-- Whatever is written of other threads. -/
theorem stable_tracks (graph : String) (differs : other ≠ thread) :
    Stock.Stable graph other fun x => x.store.Tracks thread durable R where
  save draws h := h.write (draws.own h.toOwned _ _) fun same => absurd same differs
  logged _ h := h
  deleted h deleted := h.delete deleted

theorem tracks_forget (h : w.store.Tracks thread durable R) (other : String) :
    (w.forget other).store.Tracks thread durable R := by
  unfold forget
  split
  · rename_i deleted
    exact h.delete deleted
  · exact h

theorem tracks_absorb (h : w.store.Tracks thread durable R) (other : String) (effects : Action.Effects) :
    (w.absorb other effects).store.Tracks thread durable R :=
  absorb_induction (P := fun v => v.store.Tracks thread durable R) h (fun h => tracks_forget h other) fun _ h => by
    rwa [store_requestCancel]

end Surroundings

namespace Engine

variable {g : Engine} {thread : String} {durable : Bool} {J : Position → Prop} {R : Checkpoint → Prop}
  {p q : Position} {e : Execution} {entry : Entry} {w v : Surroundings} {r : Pass} {x : Ended} {f : Failure}

/-! ### What endings leave in the store -/

theorem store_pause (g : Engine) (e : Execution) (node : String) (kind : InterruptKind) (prompt : Value)
    (w : Surroundings) : (g.pause e node kind prompt w).1.store = (g.save (e.paused node kind prompt) w).1.store := by
  rw [Execution.paused, pause]
  dsimp only
  split <;> rename_i saved <;> rw [saved]
  rw [Surroundings.store_emit]

theorem store_complete (g : Engine) (e : Execution) (w : Surroundings) :
    (g.complete e w).1.store = (g.save e.completed w).1.store := by
  rw [Execution.completed, complete]
  dsimp only
  split <;> rename_i saved <;> rw [saved]
  rw [Surroundings.store_emitLast]

theorem store_fail (g : Engine) (e : Execution) (f : Failure) (w : Surroundings) :
    (g.fail e f w).1.store = (g.record (e.failed f) f w).1.store := by
  rw [Execution.failed, fail]
  dsimp only
  split <;> rename_i recorded <;> rw [recorded]
  rw [Surroundings.store_emitLast]

/-! ### Runs -/

/-- From positions of a kind the runs of the engine only come to others of it, and what is kept of them there has the
    property. -/
structure Notes (g : Engine) (thread : String) (durable : Bool) (J : Position → Prop) (R : Checkpoint → Prop) :
    Prop where
  closed : ∀ {p q entry calls}, J p → (g.definition.turn ⟨g.providers, entry⟩ thread p calls).2 = .reached q → J q
  noted : ∀ {p} {e : Execution} {id time d}, J p → e.NotedAt p thread g.config.metadata →
    (e.checkpoint g.definition.name id time).KeptAs durable d → R d

/-- A pass goes on to one at the position that its step reaches, where the run may have been written down. -/
theorem Goes.at_position (h : g.Goes (g.passAt thread p entry w) r) :
    ∃ q v, (g.turnAt (g.passAt thread p entry w)).2 = .reached q ∧ r = g.passAt thread q {} v ∧
      (g.config.mode = .interruptsOnly ∧ v = g.told (g.passAt thread p entry w) q ∨
        ∃ c, g.save (q.running thread g.config.metadata) (g.told (g.passAt thread p entry w) q) = (v, .ok c)) := by
  have left : ∀ {q : Position}, (g.turnAt (g.passAt thread p entry w)).2 = .reached q →
      (g.config.recursionLimit - p.step).toNat - 1 = (g.config.recursionLimit - q.step).toNat := by
    intro q reached
    have step : q.step = p.step + 1 := (Definition.step_of_turn_reached reached).1
    omega
  cases h with
  | @unsaved q _ reached _ mode =>
    refine ⟨q, _, reached, ?_, .inl ⟨mode, rfl⟩⟩
    exact congrArg (fun n => Pass.mk n (q.running thread g.config.metadata) {} _) (left reached)
  | @saved q v c _ reached _ _ save =>
    refine ⟨q, v, reached, ?_, .inr ⟨c, save⟩⟩
    exact congrArg (fun n => Pass.mk n (q.running thread g.config.metadata) {} _) (left reached)

/-- The passes of a run are at positions. -/
theorem passes_at_position (goes : Relation.ReflTransGen g.Goes (g.passAt thread p entry w) r) :
    ∃ q entry v, r = g.passAt thread q entry v := by
  induction goes with
  | refl => exact ⟨p, entry, w, rfl⟩
  | tail _ step ih =>
    obtain ⟨q, entry, v, rfl⟩ := ih
    obtain ⟨q', v', -, rfl, -⟩ := step.at_position
    exact ⟨q', {}, v', rfl⟩

section Tracking

variable (h : g.Notes thread durable J R)
include h

theorem Notes.save (hp : J p) (noted : e.NotedAt p thread g.config.metadata)
    (hw : w.store.Tracks thread durable R) : (g.save e w).1.store.Tracks thread durable R := by
  have own : e.thread = thread := by cases noted <;> rfl
  exact hw.write (congrArg Value.str own) fun _ _ d kept => h.noted hp noted kept

theorem Notes.pause (hp : J p) {node : String} {kind : InterruptKind} (here : kind ≠ .after → node = p.node)
    (prompt : Value) (hw : w.store.Tracks thread durable R) :
    (g.pause (p.running thread g.config.metadata) node kind prompt w).1.store.Tracks thread durable R := by
  rw [store_pause]
  exact h.save hp (.paused here prompt) hw

theorem Notes.complete (hp : J p) (hw : w.store.Tracks thread durable R) :
    (g.complete (p.running thread g.config.metadata) w).1.store.Tracks thread durable R := by
  rw [store_complete]
  exact h.save hp .completed hw

end Tracking

/-- A failure is written down as one, over the last checkpoint or as the run stands. -/
theorem tracks_fail (own : e.thread = thread) (hw : w.store.Tracks thread durable R) :
    (g.fail e f w).1.store.Tracks thread durable R := by
  rw [store_fail, record]
  split
  · exact hw
  · rename_i last load
    have kept : last.thread = .str thread := hw.own (own ▸ Store.reads_of_load load)
    exact hw.write kept fun _ unfailed => absurd rfl unfailed
  · exact hw.write (congrArg Value.str own) fun _ unfailed => absurd rfl unfailed

theorem tracks_after (hw : w.store.Tracks thread durable R) :
    (g.after (g.passAt thread p entry w)).store.Tracks thread durable R :=
  Surroundings.tracks_absorb hw _ _

theorem tracks_told (hw : w.store.Tracks thread durable R) (q : Position) :
    (g.told (g.passAt thread p entry w) q).store.Tracks thread durable R :=
  (Surroundings.store_emit _ _).symm ▸ tracks_after hw

section Tracking

variable (h : g.Notes thread durable J R)
include h

theorem Notes.goes (hp : J p) (hw : w.store.Tracks thread durable R) (goes : g.Goes (g.passAt thread p entry w) r) :
    ∃ q v, (g.turnAt (g.passAt thread p entry w)).2 = .reached q ∧ r = g.passAt thread q {} v ∧ J q ∧
      v.store.Tracks thread durable R := by
  obtain ⟨q, v, reached, rfl, left⟩ := goes.at_position
  have hq : J q := h.closed hp reached
  have told : (g.told (g.passAt thread p entry w) q).store.Tracks thread durable R := tracks_told hw q
  refine ⟨q, v, reached, rfl, hq, ?_⟩
  rcases left with ⟨-, rfl⟩ | ⟨c, save⟩
  · exact told
  · have saved := h.save hq .running told
    rwa [save] at saved

theorem Notes.passes (hp : J p) (hw : w.store.Tracks thread durable R)
    (goes : Relation.ReflTransGen g.Goes (g.passAt thread p entry w) r) :
    ∃ q entry v, r = g.passAt thread q entry v ∧ J q ∧ v.store.Tracks thread durable R := by
  induction goes with
  | refl => exact ⟨p, entry, w, rfl, hp, hw⟩
  | tail _ step ih =>
    obtain ⟨q, entry, v, rfl, hq, hv⟩ := ih
    obtain ⟨q', v', -, rfl, hq', hv'⟩ := h.goes hq hv step
    exact ⟨q', {}, v', rfl, hq', hv'⟩

theorem Notes.ends (hp : J p) (hw : w.store.Tracks thread durable R) (ends : g.Ends (g.passAt thread p entry w) x) :
    x.1.store.Tracks thread durable R := by
  have after : (g.after (g.passAt thread p entry w)).store.Tracks thread durable R := tracks_after hw
  have told : ∀ q, (g.told (g.passAt thread p entry w) q).store.Tracks thread durable R := tracks_told hw
  cases ends with
  | cancelled | exhausted => exact tracks_fail rfl hw
  | completed => exact h.complete hp hw
  | held => exact h.pause hp (fun _ => rfl) _ hw
  | suspended => exact h.pause hp (fun _ => rfl) _ after
  | withdrawn | failed => exact tracks_fail rfl after
  | lost => exact after
  | @paused q _ reached => exact h.pause (h.closed hp reached) (fun other => absurd rfl other) _ (told q)
  | @revoked q => exact tracks_fail rfl (told q)
  | @unsaved q v f _ reached _ _ save =>
    have saved := h.save (h.closed hp reached) .running (told q)
    rwa [show g.save (q.running thread g.config.metadata) _ = (v, .error f) from save] at saved

/-- Whatever a run comes to, what can be read of its thread has the property. -/
theorem Notes.run (hp : J p) (hw : w.store.Tracks thread durable R) (entry : Entry) :
    (g.run (g.passAt thread p entry w)).1.store.Tracks thread durable R := by
  obtain ⟨r, goes, ends⟩ := g.run_passes (g.passAt thread p entry w)
  obtain ⟨q, entry, v, rfl, hq, hv⟩ := h.passes hp hw goes
  exact h.ends hq hv ends

end Tracking

end Engine

end Workflow
