import Workflow.Proofs.Sweeping
import Workflow.Proofs.Views

/-! # Engines on swept tables

A run goes on with the last checkpoint of its thread and reads no other one. So an engine whose table has shed rows is
abreast of one whose table has not (`abreast_shedding`), whatever the rows hold, and its calls end alike
(`sheds_start`, `sheds_resume`, `sheds_cancel`). A row that is gone has left its id free, so this holds as long as no
such id is drawn again. Main statement: after a sweep, an engine does what it would have done without it
(`Table.cleanup_retains`). -/

namespace Workflow

open Store (Table)

variable {lost : String → Prop} {n : Nat}

namespace Surroundings

/-- The same surroundings but for a table that has shed rows. No checkpoint that is drawn up before the `n`th one has an
    id that was lost. -/
inductive Sheds (lost : String → Prop) (n : Nat) (w : Surroundings) : Surroundings → Prop
  | intro {t t' : Table} (store : w.store = .table t) (rows : t.Sheds lost t')
    (fresh : ∀ k, w.drawn ≤ k → k < n → ¬ lost (drawnId k).text) : Sheds lost n w { w with store := .table t' }

variable {w v : Surroundings} {thread : String}

namespace Sheds

section
variable (h : w.Sheds lost n v)
include h

theorem load (thread : String) : v.store.load thread = w.store.load thread := by
  obtain ⟨store, rows⟩ := h
  rw [store]
  exact rows.load thread

theorem same : v = { w with store := v.store } := by
  cases h
  rfl

theorem isCancelled : w.isCancelled thread = v.isCancelled thread := by
  cases h
  rfl

theorem calls : v.calls = w.calls := by
  cases h
  rfl

theorem active : v.active = w.active := by
  cases h
  rfl

theorem requestCancel (thread : String) : (w.requestCancel thread).Sheds lost n (v.requestCancel thread) := by
  obtain ⟨store, rows, fresh⟩ := h
  unfold Surroundings.requestCancel
  dsimp only
  split <;> exact .intro store rows fresh

theorem activate (thread : String) : (w.activate thread).Sheds lost n (v.activate thread) := by
  obtain ⟨store, rows, fresh⟩ := h
  unfold Surroundings.activate
  dsimp only
  split <;> exact .intro store rows fresh

theorem release (thread : String) : (w.release thread).Sheds lost n (v.release thread) := by
  obtain ⟨store, rows, fresh⟩ := h
  exact .intro store rows fresh

/-- Those who follow a thread do not read the store. -/
theorem withBus (f : Bus → Bus) : Sheds lost n { w with bus := f w.bus } { v with bus := f v.bus } := by
  obtain ⟨store, rows, fresh⟩ := h
  exact .intro store rows fresh

theorem joined (thread : String) (observers : List Observer) :
    (w.joined thread observers).Sheds lost n (v.joined thread observers) :=
  (h.withBus fun b => b.subscribeAll thread observers).activate thread

theorem emit (e : Event) : (w.emit e).Sheds lost n (v.emit e) := by
  have told : Sheds lost n { w with bus := w.bus.emitted e, deliveries := w.deliveries ++ w.bus.deliveries e }
      { v with bus := v.bus.emitted e, deliveries := v.deliveries ++ v.bus.deliveries e } := by
    obtain ⟨store, rows, fresh⟩ := h
    exact .intro store rows fresh
  have asks : v.bus.asksCancel e = w.bus.asksCancel e := by
    cases h
    rfl
  unfold Surroundings.emit
  dsimp only
  rw [asks]
  split
  · exact told.requestCancel e.thread
  · exact told

theorem emitLast (e : Event) : (w.emitLast e).Sheds lost n (v.emitLast e) :=
  (h.emit e).withBus fun b => b.clear e.thread

theorem forget (thread : String) : (w.forget thread).Sheds lost n (v.forget thread) := by
  obtain ⟨store, rows, fresh⟩ := h
  unfold Surroundings.forget
  rw [store]
  exact .intro rfl (rows.delete thread) fresh

theorem absorb (thread : String) (effects : Action.Effects) :
    (w.absorb thread effects).Sheds lost n (v.absorb thread effects) := by
  have logged : Sheds lost n { w with calls := effects.calls, trace := w.trace ++ effects.trace }
      { v with calls := effects.calls, trace := v.trace ++ effects.trace } := by
    obtain ⟨store, rows, fresh⟩ := h
    exact .intro store rows fresh
  unfold Surroundings.absorb
  dsimp only
  cases effects.forgotten <;> cases effects.cancelled
  · exact logged
  · exact logged.requestCancel thread
  · exact logged.forget thread
  · exact (logged.forget thread).requestCancel thread

theorem save {snapshot : (id timestamp : Value) → Checkpoint} (marked : ∀ id timestamp, (snapshot id timestamp).id = id)
    (room : (w.save snapshot).1.drawn ≤ n) :
    Paired (Sheds lost n) Eq (w.save snapshot) (v.save snapshot) := by
  obtain @⟨t, t', store, rows, fresh⟩ := h
  have new : ¬ lost (snapshot (drawnId w.drawn) (.int w.drawn)).id.text := by
    rw [marked]
    exact fresh w.drawn (Nat.le_refl _) room
  have later : ∀ k, w.drawn + 1 ≤ k → k < n → ¬ lost (drawnId k).text := fun k le => fresh k (Nat.le_of_succ_le le)
  have saved := rows.save new
  unfold Surroundings.save
  simp only [store, Store.write, Store.save]
  generalize t.save _ = x at saved ⊢
  generalize t'.save _ = y at saved ⊢
  cases saved with
  | error f => exact ⟨.intro rfl rows later, .error f⟩
  | ok rows => exact ⟨.intro rfl rows later, .ok rfl⟩

end

end Sheds

/-- A property of how many checkpoints were drawn up is kept if one more does not end it. -/
theorem stable_drawn {P : Nat → Prop} (succ : ∀ k, P k → P (k + 1)) (graph thread : String) :
    Stable graph thread fun w => P w.drawn :=
  stable_of_stock (Q := fun x => P x.drawn) ⟨fun _ => succ _, fun _ h => h, fun h _ => h⟩

/-- Ids that are drawn have 32 digits. -/
theorem length_drawnId (k : Nat) : (drawnId k).text.length = 32 := by
  have digits : ∀ width k, (Text.hexDigits width k).length = width := by
    intro width
    induction width with
    | zero => exact fun _ => rfl
    | succ width ih => exact fun k => by rw [Text.hexDigits, List.length_append, ih, List.length_singleton]
  show (String.ofList (Text.hexDigits 32 k)).length = 32
  rw [String.length_ofList, digits]

end Surroundings

namespace Engine

open Surroundings (Paired Sheds Stable chain)

variable {g : Engine} {w v : Surroundings} {e e' : Execution} {thread : String}

/-- An engine beside one whose table has shed rows. -/
def shedding (lost : String → Prop) (n : Nat) (thread : String) : Bond where
  thread
  around := Sheds lost n
  room w := w.drawn ≤ n

/-! ### Runs -/

theorem sheds_record {f : Failure} (hw : Sheds lost n w v) (room : (g.record e f w).1.drawn ≤ n) :
    Paired (Sheds lost n) Eq (g.record e f w) (g.record e f v) := by
  unfold record at room ⊢
  rw [hw.load]
  generalize w.store.load e.thread = x at room ⊢
  rcases x with f | last | last
  · exact ⟨hw, .error f⟩
  · exact hw.save (fun _ _ => rfl) room
  · exact hw.save (fun _ _ => rfl) room

theorem level_shedding (g : Engine) (thread : String) : Level (shedding lost n thread) (Sheds lost n) g g where
  definition := rfl
  full := Surroundings.stable_drawn (P := fun k => ¬ k ≤ n) (fun _ full room => full (Nat.le_of_succ_le room)) _
  emit _ hw := hw.emit _
  emitLast _ hw := hw.emitLast _
  save he _ _ hw room := by
    obtain rfl := he.eq id
    have saved := hw.save (fun _ _ => rfl) room
    exact ⟨saved.around, saved.answer.imp fun _ => trivial⟩
  record he hw room := by
    obtain rfl := he.eq id
    have recorded := sheds_record hw room
    exact ⟨recorded.around, recorded.answer.imp (congrArg Checkpoint.state)⟩

theorem abreast_shedding (g : Engine) (thread : String) : Abreast (shedding lost n thread) g g where
  toLevel := level_shedding g thread
  limit := rfl
  before := rfl
  after := rfl
  cancelled hw := hw.isCancelled
  turn {w v} entry p hw := by
    unfold turnIn
    rw [hw.calls]
    exact ⟨hw.absorb _ _, rfl⟩
  going _ _ := trivial
  note he _ _ hw room := by
    obtain rfl := he.eq id
    unfold note at room ⊢
    generalize g.config.mode = mode at room ⊢
    cases mode with
    | interruptsOnly => exact ⟨hw, .ok trivial⟩
    | everyStep =>
      refine Paired.chain (fun room => hw.save (fun _ _ => rfl) room) ?_ id room
      exact fun hw _ _ => ⟨hw, .ok trivial⟩

theorem sheds_proceed {config : Config} {providers : List (String × Provider)} {entry : Entry} (hw : Sheds lost n w v)
    (room : (g.proceed config providers e entry w).1.drawn ≤ n) :
    Paired (Sheds lost n) Eq (g.proceed config providers e entry w) (g.proceed config providers e entry v) := by
  unfold proceed at room ⊢
  generalize g.forCall config providers = x at room ⊢
  cases x with
  | error f => exact ⟨hw, .error f⟩
  | ok run =>
    have driven := (abreast_shedding run e.thread).drive ⟨rfl, rfl, rfl⟩ trivial hw room
    exact ⟨driven.around, driven.answer.imp fun h => h.eq id⟩

theorem sheds_begin {config : Config} {providers : List (String × Provider)} (hw : Sheds lost n w v)
    (room : (g.begin config providers e w).1.drawn ≤ n) :
    Paired (Sheds lost n) Eq (g.begin config providers e w) (g.begin config providers e v) := by
  change (shedding lost n e.thread).room _ at room
  rw [begin_chain] at room
  rw [begin_chain, begin_chain]
  refine Paired.chain (fun room => hw.save (fun _ _ => rfl) room) ?_ ?_ room
  · exact fun hw _ room => sheds_proceed (hw.emit _) room
  · intro w _ room
    have level : Level (shedding lost n e.thread) (Sheds lost n) g g := level_shedding g e.thread
    exact Classical.byContradiction fun spent =>
      stable_proceed (level.full _) ((level.full _).emit _ rfl spent) _ _ _ room

/-! ### Calls -/

theorem sheds_start {input : Value} {options : CallOptions} (hw : Sheds lost n w v)
    (room : (g.start thread input options w).1.drawn ≤ n) :
    Paired (Sheds lost n) Eq (g.start thread input options w) (g.start thread input options v) := by
  have opening : g.opening thread input options.overrides v.store =
      g.opening thread input options.overrides w.store := by
    unfold Engine.opening
    rw [hw.load]
  unfold start at room ⊢
  rw [opening]
  generalize g.opening thread input options.overrides w.store = x at room ⊢
  cases x with
  | error f => exact ⟨hw, .error f⟩
  | ok x =>
    dsimp only at room ⊢
    generalize options.overrides.checkNames = names at room ⊢
    cases names with
    | error f => exact ⟨hw.withBus fun b => b.subscribeAll thread options.observers, .error f⟩
    | ok =>
      have begun := sheds_begin (hw.joined thread options.observers) room
      exact ⟨begun.around.release thread, begun.answer⟩

theorem lastCheckpoint_sheds (hw : Sheds lost n w v) :
    g.lastCheckpoint thread v.store = g.lastCheckpoint thread w.store := by
  unfold lastCheckpoint
  rw [hw.load]

theorem sheds_resume {value : Value} {options : CallOptions} (hw : Sheds lost n w v)
    (room : (g.resume thread value options w).1.drawn ≤ n) :
    Paired (Sheds lost n) Eq (g.resume thread value options w) (g.resume thread value options v) := by
  have resumption : g.resumption thread options.overrides v.store = g.resumption thread options.overrides w.store := by
    unfold Engine.resumption
    rw [lastCheckpoint_sheds hw]
  unfold resume at room ⊢
  rw [resumption]
  generalize g.resumption thread options.overrides w.store = x at room ⊢
  cases x with
  | error f => exact ⟨hw, .error f⟩
  | ok r =>
    have ended := sheds_proceed ((hw.activate thread).emit _) room
    exact ⟨ended.around.release thread, ended.answer⟩

theorem sheds_cancel (hw : Sheds lost n w v) (room : (g.cancel thread w).1.drawn ≤ n) :
    Paired (Sheds lost n) Eq (g.cancel thread w) (g.cancel thread v) := by
  unfold cancel at room ⊢
  rw [hw.active, lastCheckpoint_sheds hw]
  split
  · exact ⟨hw.requestCancel thread, .ok rfl⟩
  · rename_i idle
    rw [if_neg idle] at room
    dsimp only at room ⊢
    generalize (g.lastCheckpoint thread w.store >>= _ : Except Fault (Option Execution)) = x at room ⊢
    rcases x with f | _ | e
    · exact ⟨hw, .error f⟩
    · exact ⟨hw, .ok rfl⟩
    · have failed := (level_shedding g e.thread).fail ⟨rfl, rfl, rfl⟩ hw room
      exact failed.map fun h => congrArg some (h.eq id)

theorem sheds_delete (hw : Sheds lost n w v) (thread : String) :
    Paired (Sheds lost n) (fun a b => b ≤ a) (delete thread w) (delete thread v) := by
  obtain ⟨store, rows, fresh⟩ := hw
  unfold delete
  rw [store]
  exact ⟨.intro rfl (rows.delete thread) fresh, .ok (rows.deleted_le thread)⟩

end Engine

/-! ### Uses -/

/-- The same answers, but that histories may lack checkpoints, and fewer of them may have been there to delete. -/
inductive Answer.Fewer : Answer → Answer → Prop
  | same (a : Answer) : Fewer a a
  | deleted {r r' : Except Fault Nat} (h : Both (fun k m => m ≤ k) r r') : Fewer (.deleted r) (.deleted r')
  | history {r r' : Except Fault (List Checkpoint)} (h : ∀ cs, r = .ok cs → ∃ ds, r' = .ok ds ∧ ds.Sublist cs) :
    Fewer (.history r) (.history r')

namespace Engine

open Surroundings (Paired Sheds Stable)

variable {g : Engine} {w v : Surroundings} {thread : String}

theorem answer_sheds {a : Ask} (hw : Sheds lost n w v) (room : (g.answer w a).1.drawn ≤ n) :
    Sheds lost n (g.answer w a).1 (g.answer v a).1 ∧ (g.answer w a).2.Fewer (g.answer v a).2 := by
  have served : ∀ {x y : Surroundings × Except Fault (Option Outcome)}, Paired (Sheds lost n) Eq x y →
      Sheds lost n x.1 y.1 ∧ Answer.Fewer (.outcome x.2) (.outcome y.2) := by
    intro x y paired
    exact ⟨paired.around, paired.answer.eq ▸ .same _⟩
  cases a with
  | request r =>
    cases r with
    | start => exact served ((sheds_start hw room).map (congrArg some))
    | resume => exact served ((sheds_resume hw room).map (congrArg some))
    | cancel => exact served (sheds_cancel hw room)
    | delete t =>
      have deleted := sheds_delete hw t
      exact ⟨deleted.around, .deleted deleted.answer⟩
  | state t =>
    refine ⟨hw, ?_⟩
    simp only [answer, state, lastCheckpoint_sheds hw]
    exact .same _
  | outcome t =>
    refine ⟨hw, ?_⟩
    simp only [answer, outcome, lastCheckpoint_sheds hw]
    exact .same _
  | history t =>
    refine ⟨hw, .history ?_⟩
    obtain ⟨store, rows, -⟩ := hw
    rw [history, store]
    exact fun cs => rows.list

theorem use_sheds {u : Use} (hw : Sheds lost n w v) (room : (g.use w u).1.drawn ≤ n) :
    Sheds lost n (g.use w u).1 (g.use v u).1 ∧ Option.Rel Answer.Fewer (g.use w u).2 (g.use v u).2 := by
  cases u with
  | ask a =>
    obtain ⟨sheds, fewer⟩ := answer_sheds hw room
    exact ⟨sheds, .some fewer⟩
  | subscribe handle t o => exact ⟨hw.withBus fun b => b.subscribeAs handle t o, .none⟩

/-- Checkpoints that were drawn up stay so. -/
theorem drawn_le_use (g : Engine) (w : Surroundings) (u : Use) : w.drawn ≤ (g.use w u).1.drawn := by
  have more : ∀ other, Stable g.definition.name other fun v => w.drawn ≤ v.drawn :=
    Surroundings.stable_drawn (P := fun k => w.drawn ≤ k) (fun _ => Nat.le_succ_of_le) _
  have same : w.drawn ≤ w.drawn := Nat.le_refl _
  cases u with
  | subscribe => exact same
  | ask a =>
    cases a with
    | state | outcome | history => exact same
    | request r =>
      cases r with
      | start t input o =>
        simp only [use, answer, serve, start]
        split
        · exact same
        · rename_i config e _
          have joined : w.drawn ≤ (w.joined t o.observers).drawn :=
            Nat.le_of_eq (congrArg Stock.drawn (Surroundings.stock_joined w t o.observers)).symm
          split
          · exact same
          · exact stable_begin (more e.thread) joined config o.providers
      | resume t value o =>
        simp only [use, answer, serve, resume]
        split
        · exact same
        · rename_i r _
          have active : w.drawn ≤ (w.activate t).drawn :=
            Nat.le_of_eq (congrArg Stock.drawn (Surroundings.stock_activate w t)).symm
          exact stable_proceed (more _) ((more _).emit _ rfl active) _ _ _
      | cancel t =>
        simp only [use, answer, serve, cancel]
        split
        · exact Nat.le_of_eq (congrArg Stock.drawn (Surroundings.stock_requestCancel w t)).symm
        · split
          · exact same
          · exact same
          · exact stable_fail (more _) same _
      | delete t =>
        simp only [use, answer, delete]
        split <;> exact same

theorem drawn_le_useAll (g : Engine) (w : Surroundings) (uses : List Use) : w.drawn ≤ (g.useAll w uses).1.drawn := by
  induction uses generalizing w with
  | nil => exact Nat.le_refl _
  | cons u uses ih => exact Nat.le_trans (drawn_le_use g w u) (ih _)

/-- However an engine is used, it does the same and answers the same with a table that has shed rows, but for
    histories, as long as no id that was lost is drawn again. -/
theorem useAll_sheds (hw : Sheds lost n w v) (uses : List Use) (room : (g.useAll w uses).1.drawn ≤ n) :
    Sheds lost n (g.useAll w uses).1 (g.useAll v uses).1 ∧
      List.Forall₂ (fun a b => a.1 = b.1 ∧ a.2.Fewer b.2) (g.useAll w uses).2 (g.useAll v uses).2 := by
  induction uses generalizing w v with
  | nil => exact ⟨hw, .nil⟩
  | cons u uses ih =>
    obtain ⟨sheds, fewer⟩ := use_sheds (g := g) hw (Nat.le_trans (drawn_le_useAll g _ uses) room)
    obtain ⟨sheds, others⟩ := ih sheds room
    refine ⟨sheds, List.rel_append ?_ others⟩
    generalize (g.use w u).2 = a at fewer ⊢
    generalize (g.use v u).2 = b at fewer ⊢
    cases fewer with
    | none => exact .nil
    | some fewer => exact .cons ⟨rfl, fewer⟩ .nil

end Engine

namespace Store.Table

open Surroundings (drawnId)

variable {t : Table}

/-- A sweep leaves each thread its last row and, of those of the last few, the ones that are not too old, in their
    order, and answers how many rows it dropped. So the last checkpoint of each thread is told as before, no thread
    disappears, and a second sweep drops nothing. Whatever is done with an engine afterwards, it does the same and
    answers the same as without the sweep, but for histories; as long as none of the ids that were dropped is drawn
    once more. -/
theorem cleanup_retains (order : t.Ordered) (now : Float) {hours perThread : Int} {seconds : Float}
    (age : Value.toFloat (hours * 3600) = .ok seconds)
    (fits : t.rows = [] ∨ fitsColumn (max 1 perThread) = true) :
    ∃ t' dropped, t.cleanup now hours perThread = .ok (t', dropped) ∧
      (∀ thread, t'.ofThread thread =
        retained (now - seconds) (max 1 perThread).toNat (t.ofThread thread)) ∧
      t' = { t with rows := t'.rows } ∧ t'.rows.Sublist t.rows ∧ t'.rows.length + dropped = t.rows.length ∧
      (∀ thread, t'.load thread = t.load thread) ∧
      (∀ r ∈ t.rows, ∃ r' ∈ t'.rows, r'.thread = r.thread) ∧
      t'.cleanup now hours perThread = .ok (t', 0) ∧
      ∀ (g : Engine) (w : Surroundings) (uses : List Use), w.store = .table t →
        let x := g.useAll w uses
        let y := g.useAll { w with store := .table t' } uses
        (∀ r ∈ t.rows, r ∉ t'.rows → ∀ k, w.drawn ≤ k → k < x.1.drawn → r.id ≠ (drawnId k).text) →
          List.Forall₂ (fun a b => a.1 = b.1 ∧ a.2.Fewer b.2) x.2 y.2 ∧
            y.1 = { x.1 with store := y.1.store } ∧ ∀ thread, y.1.store.load thread = x.1.store.load thread := by
  obtain ⟨t', dropped, swept, same, fewer, count, parts⟩ := order.sweepUntil (now - seconds) perThread
  have order' : t'.Ordered := ⟨order.rows.sublist fewer, fun r hr => same ▸ order.next r (fewer.mem hr)⟩
  have fits' : t'.rows = [] ∨ fitsColumn (max 1 perThread) = true :=
    fits.imp_left fun (empty : t.rows = []) => List.sublist_nil.mp (empty ▸ fewer)
  have again := cleanup_eq now age fits' (order.sweepUntil_again swept)
  have bare : t.Sheds (fun _ => True) t' := order.sheds same fewer parts fun _ _ _ => trivial
  refine ⟨t', dropped, cleanup_eq now age fits swept, fun thread => ?_, same, fewer, count, bare.load,
    fun r hr => bare.exists_row hr, again, ?_⟩
  · rw [order'.ofThread_eq, order.ofThread_eq, parts]
  intro g w uses store x y fresh
  have sheds : t.Sheds (fun id => ∃ r ∈ t.rows, r ∉ t'.rows ∧ r.id = id) t' :=
    order.sheds same fewer parts fun r hr missing => ⟨r, hr, missing, rfl⟩
  have begun := Surroundings.Sheds.intro (n := x.1.drawn) store sheds
    fun k le lt ⟨r, hr, missing, same⟩ => fresh r hr missing k le lt same
  obtain ⟨ended, answers⟩ := Engine.useAll_sheds (g := g) begun uses (Nat.le_refl _)
  exact ⟨answers, ended.same, ended.load⟩

/-- A run that waits after two steps, beside a thread that cannot be read, is swept of all but four rows that are not
    older than a day, one of them with a time that is no number; then it goes on. -/
theorem cleanup_retains_waiting :
    let g : Engine := { definition := .inquiry }
    let e : Execution := { thread := "t", node := "ask", state := [("words", .list [.str "yes"])], step := 1 }
    let waiting := (e.paused "ask" .dynamic (.str "Which word?")).checkpoint g.definition.name (.str "f") (.int 8000)
    let t : Table :=
      { rows := [⟨1, "a", "t", .float 50000, .text ""⟩, ⟨2, "b", "t", .float 20000, .text ""⟩,
          ⟨3, "c", "u", .float 4000, .text ""⟩, ⟨4, "d", "t", .float 9000, .text ""⟩,
          ⟨5, "e", "t", .str "lately", .text ""⟩, ⟨6, "f", "t", .float 8000, .document waiting.toValue⟩]
        next := 7 }
    let later : List Use := [.ask (.request (.resume "t" (.str "no") {})), .ask (.history "t"), .ask (.outcome "u"),
      .ask (.request (.delete "t"))]
    t.Ordered ∧ Value.toFloat (24 * 3600) = .ok 86400 ∧ fitsColumn (max 1 4) = true ∧
    ∃ t' dropped, t.cleanup 100000 24 4 = .ok (t', dropped) ∧ t'.rows.length + dropped = 6 ∧
      (t'.ofThread "t").map Row.number = [2, 5, 6] ∧ (t'.ofThread "u").map Row.number = [3] ∧
      t'.load "t" = .ok (some waiting) ∧ t'.cleanup 100000 24 4 = .ok (t', 0) ∧
      let x := g.useAll { store := .table t } later
      let y := g.useAll { store := .table t' } later
      (∀ r ∈ t.rows, r ∉ t'.rows → ∀ k, 0 ≤ k → k < x.1.drawn → r.id ≠ (drawnId k).text) ∧
        List.Forall₂ (fun a b => a.1 = b.1 ∧ a.2.Fewer b.2) x.2 y.2 ∧
        y.1 = { x.1 with store := y.1.store } ∧ ∀ thread, y.1.store.load thread = x.1.store.load thread := by
  intro g e waiting t later
  have order : t.Ordered := ⟨by decide, by decide⟩
  have age : Value.toFloat (24 * 3600) = .ok 86400 := by rfl
  have fits : fitsColumn (max 1 4) = true := by decide
  have short : ∀ r ∈ t.rows, r.id.length = 1 := by decide
  have fresh : ∀ r ∈ t.rows, ∀ k, r.id ≠ (drawnId k).text := by
    intro r hr k same
    have length := short r hr
    rw [same, Surroundings.length_drawnId] at length
    cases length
  obtain ⟨t', dropped, swept, told, -, -, count, load, -, again, alike⟩ := cleanup_retains order 100000 age (.inr fits)
  have last : t.load "t" = .ok (some waiting) := by
    rw [Table.load, order.ofThread_eq]
    rfl
  have new : ∀ r ∈ t.rows, r ∉ t'.rows → ∀ k, 0 ≤ k → k < (g.useAll { store := .table t } later).1.drawn →
      r.id ≠ (drawnId k).text := fun r hr _ k _ _ => fresh r hr k
  refine ⟨order, age, fits, t', dropped, swept, count, ?_, ?_, (load "t").trans last, again, new,
    alike g { store := .table t } later rfl new⟩
  · rw [told, order.ofThread_eq]
    decide +kernel
  · rw [told, order.ofThread_eq]
    decide +kernel

/-- How many rows of each thread may stay has to fit a column, even if there is one row. -/
theorem cleanup_refuses :
    let t : Table := { rows := [⟨1, "a", "t", .float 0, .text ""⟩], next := 2 }
    t.Ordered ∧ ¬ ∃ t' dropped, t.cleanup 0 24 9223372036854775808 = .ok (t', dropped) := by
  intro t
  have refused : t.cleanup 0 24 9223372036854775808 = .error tooLarge := by rfl
  refine ⟨⟨List.pairwise_singleton _ _, by decide⟩, ?_⟩
  rintro ⟨t', dropped, swept⟩
  cases refused.symm.trans swept

end Store.Table

end Workflow
