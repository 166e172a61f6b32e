import Workflow.Proofs.Copies
import Workflow.Proofs.Life

/-! # Threads apart

Threads share a store, a table of observers and what providers have served, and yet do not interfere. What calls of one
thread leave in the store goes on to be copied (`Share.keeps_apart`), and calls of other threads leave it and those who
follow it alone (`stableCalls_shows`). So what a thread is answered and what is told of it are the same with all uses of
other threads taken away (`threads_apart`). -/

namespace Workflow

variable {thread other : String}

/-- A view of one thread and of all who follow it, under handles of their own. -/
def View.only (thread : String) (theirs : String → Bool) : View where
  sees t := t == thread
  shows t _ := t == thread
  holds := theirs
  unseen h _ := h

def Store.isTable : Store → Bool
  | .table _ => true
  | _ => false

/-- As far as a table has to hold them, times fit its column. -/
def Stock.Timely (x : Stock) : Prop := x.store.isTable → x.drawn ≤ 2 ^ 63

/-- What calls share is tidy on both sides, and the thread has the same in both stores. -/
structure Stock.Apart (thread : String) (x y : Stock) : Prop where
  tidy : x.store.Tidy x.drawn
  tidy' : y.store.Tidy y.drawn
  fewer : y.drawn ≤ x.drawn
  copies : x.store.Copies thread y.store

def Share.apart (thread : String) : Share where
  stocks := Stock.Apart thread
  records := Checkpoint.Marked
  room w := w.stock.Timely

theorem Store.isTable_write (s : Store) (c : Checkpoint) : (s.write c).1.isTable = s.isTable := by
  cases s with
  | memory | files => rfl
  | table t =>
    simp only [Store.write, Store.save]
    cases t.save c <;> rfl
  | limited saved n =>
    cases n <;> rfl

theorem Store.isTable_delete {s u : Store} {n : Nat} (h : s.delete thread = .ok (u, n)) : u.isTable = s.isTable := by
  cases s with
  | memory | table | limited =>
    cases h
    rfl
  | files f =>
    simp only [Store.delete] at h
    cases hf : f.delete thread <;> rw [hf] at h <;> cases h
    rfl

/-- The second stock has come from the first: its store is of the same kind, and no fewer checkpoints were drawn up. -/
structure Stock.Later (x y : Stock) : Prop where
  kind : y.store.isTable = x.store.isTable
  drawn : x.drawn ≤ y.drawn

theorem Stock.Later.timely {x y : Stock} (h : x.Later y) (timely : y.Timely) : x.Timely :=
  fun table => Nat.le_trans h.drawn (timely (h.kind.trans table))

theorem Stock.Apart.delete {x y : Stock} (h : x.Apart thread y) :
    Both (fun a b => Stock.Apart thread { x with store := a.1 } { y with store := b.1 } ∧ a.2 = b.2)
      (x.store.delete thread) (y.store.delete thread) := by
  have deleted := h.copies.delete h.tidy h.tidy'
  generalize left : x.store.delete thread = a at deleted ⊢
  generalize right : y.store.delete thread = b at deleted ⊢
  cases deleted with
  | error f => exact .error f
  | ok copies => exact .ok ⟨⟨h.tidy.delete left, h.tidy'.delete right, h.fewer, copies.1⟩, copies.2⟩

namespace Surroundings

variable {w v : Surroundings} {snapshot snapshot' : (id timestamp : Value) → Checkpoint}

/-! ### What calls leave of what they share -/

theorem stable_later (x : Stock) (graph thread : String) : Stock.Stable graph thread x.Later where
  save _ h := ⟨(Store.isTable_write _ _).trans h.kind, Nat.le_succ_of_le h.drawn⟩
  logged _ h := ⟨h.kind, h.drawn⟩
  deleted h deleted := ⟨(Store.isTable_delete deleted).trans h.kind, h.drawn⟩

/-- What a run of the thread writes down is a checkpoint of it. -/
theorem Draws.drawn {graph : String} (draws : w.Draws graph thread snapshot) {n : Nat} (tidy : w.store.Tidy n) (m : Nat) :
    (snapshot (drawnId m) (.int m)).Drawn m thread := by
  cases draws with
  | run own => exact ⟨congrArg Value.str own, rfl, rfl, rfl⟩
  | failure load f =>
    obtain ⟨own, version⟩ := tidy.loaded load
    exact ⟨own, version, rfl, rfl⟩

/-- Calls leave the store tidy, however many checkpoints they draw up. -/
theorem stable_tidy (graph thread : String) : Stock.Stable graph thread fun x => x.store.Tidy x.drawn where
  save draws h := h.write (draws.drawn h _)
  logged _ h := h
  deleted h deleted := h.delete deleted

/-- Calls of other threads leave what is copied of a thread. -/
theorem stable_apart (graph : String) (y : Stock) (differs : thread ≠ other) :
    Stock.Stable graph other fun x => x.Apart thread y where
  save {w snapshot} draws h :=
    have drawn : (w.drawUp snapshot).Drawn w.drawn other := draws.drawn h.tidy w.drawn
    ⟨h.tidy.write drawn, h.tidy', Nat.le_succ_of_le h.fewer, h.copies.of_samePart (Store.samePart_write drawn.own differs)⟩
  logged _ h := ⟨h.tidy, h.tidy', h.fewer, h.copies⟩
  deleted h deleted := ⟨h.tidy.delete deleted, h.tidy', h.fewer, h.copies.of_samePart (Store.samePart_delete differs deleted)⟩

/-! ### The thread itself -/

/-- Checkpoints of the thread are taken on both sides or refused for one reason, as far as times fit a table. -/
theorem save_apart (h : Stock.Apart thread w.stock v.stock) (drawn : (w.drawUp snapshot).Drawn w.drawn thread)
    (drawn' : (v.drawUp snapshot').Drawn v.drawn thread) (marked : (w.drawUp snapshot).Marked (v.drawUp snapshot'))
    (timely : (w.save snapshot).1.stock.Timely) :
    Paired (fun w v => Stock.Apart thread w.stock v.stock) (fun c c' => c.state = c'.state)
      (w.save snapshot) (v.save snapshot') := by
  have room : ∀ t, w.store = .table t → w.drawn < 2 ^ 63 := by
    intro t ht
    refine timely ((Store.isTable_write w.store _).trans ?_)
    rw [ht]
    rfl
  obtain ⟨copies, answers⟩ := h.copies.write h.tidy h.tidy' marked drawn drawn' h.fewer room
  refine ⟨⟨h.tidy.write drawn, h.tidy'.write drawn', Nat.succ_le_succ h.fewer, copies⟩, ?_⟩
  exact answers.map fun _ => (congrArg Checkpoint.state marked).symm

theorem forget_apart (h : Stock.Apart thread w.stock v.stock) :
    Stock.Apart thread (w.forget thread).stock (v.forget thread).stock := by
  have deleted := h.delete
  unfold forget
  change Both _ (w.store.delete thread) (v.store.delete thread) at deleted
  generalize w.store.delete thread = x at deleted ⊢
  generalize v.store.delete thread = y at deleted ⊢
  cases deleted with
  | error f => exact h
  | ok h => exact h.1

theorem absorb_apart (h : Stock.Apart thread w.stock v.stock) {x y : Action.Effects}
    (forgotten : x.forgotten = y.forgotten) :
    Stock.Apart thread (w.absorb thread x).stock (v.absorb thread y).stock := by
  have logged : Stock.Apart thread (stock { w with calls := x.calls, trace := w.trace ++ x.trace })
      (stock { v with calls := y.calls, trace := v.trace ++ y.trace }) := ⟨h.tidy, h.tidy', h.fewer, h.copies⟩
  have stocks : ∀ (u : Surroundings) (asked : Bool), (if asked then u.requestCancel thread else u).stock = u.stock := by
    intro u asked
    cases asked
    · rfl
    · exact stock_requestCancel u thread
  unfold absorb
  dsimp only
  rw [stocks, stocks, forgotten]
  cases y.forgotten
  · exact logged
  · exact forget_apart logged

/-- Whatever calls do, a tidy store stays so and of its kind. -/
theorem stableCalls_tidy (x : Stock) (graph thread : String) (observers : List Observer) :
    StableCalls graph thread observers fun w => w.stock.store.Tidy w.stock.drawn ∧ x.Later w.stock :=
  stableCalls_of_stock ((stable_tidy graph thread).and (stable_later x graph thread)) (fun h last => (h.1.loaded last).1) observers

end Surroundings

theorem Share.keeps_apart (thread : String) : (Share.apart thread).Keeps thread where
  full graph other := by
    have later := fun w : Surroundings => Surroundings.stable_of_stock (Surroundings.stable_later w.stock graph other)
    have same : ∀ w : Surroundings, w.stock.Later w.stock := fun w => ⟨rfl, Nat.le_refl _⟩
    exact ⟨fun {w} e own full room => full (((later w).emit e own (same w)).timely room),
      fun {w} e own full room => full (((later w).emitLast e own (same w)).timely room),
      fun {w _} draws full room => full (((later w).save draws (same w)).timely room),
      fun {w} effects full room => full (((later w).absorb effects (same w)).timely room)⟩
  released room := room
  records h := h
  own h last := (h.tidy.loaded last).1
  load h := h.copies.load h.tidy h.tidy'
  list h := h.copies.list h.tidy h.tidy'
  delete h := h.delete
  draw own h timely := by
    obtain rfl := own
    exact Surroundings.save_apart h ⟨rfl, rfl, rfl, rfl⟩ ⟨rfl, rfl, rfl, rfl⟩ rfl timely
  redraw {w v c c' error} last marked h timely := by
    obtain ⟨own, version⟩ := h.tidy.loaded last
    have marked : _ = _ := marked
    refine Surroundings.save_apart h ⟨own, version, rfl, rfl⟩ ⟨?_, ?_, rfl, rfl⟩ ?_ timely
    · exact (congrArg Checkpoint.thread marked).trans own
    · exact (congrArg Checkpoint.version marked).trans version
    · have failed := congrArg (fun b => Checkpoint.failed b error (Surroundings.drawnId v.drawn) (.int v.drawn)) marked
      exact failed

/-- Nodes whose providers are functions of their arguments come to the same, whatever was served to other threads. -/
theorem Share.runs_apart (d : Definition) {ps : Providers} (steady : ∀ e ∈ ps, e.2.Steady) (thread : String) :
    (Share.apart thread).Runs d ps thread := by
  intro w v entry p h
  obtain ⟨cancelled, forgotten⟩ := d.turn_asked (i := ⟨ps, entry⟩) steady thread p w.calls v.calls
  have repeats : ∀ calls, (d.turn ⟨ps, entry⟩ thread p calls).2 = (d.turn ⟨ps, entry⟩ thread p).2 :=
    Definition.Repeats.turn_eq (i := ⟨ps, entry⟩) (d.repeats_of_steady steady) thread p
  exact ⟨(repeats w.calls).trans (repeats v.calls).symm, forgotten, cancelled, Surroundings.absorb_apart h forgotten⟩

/-! ### Other threads -/

namespace Engine

open Surroundings (Shows StableCalls)

variable {g : Engine} {theirs : String → Bool} {w v : Surroundings} {uses : List Use} {u : Use}

/-- Calls of other threads leave what is shown of a thread. -/
theorem stableCalls_shows {graph : String} (differs : thread ≠ other) {observers : List Observer}
    (aside : ∀ o ∈ observers, o.Aside (.only thread theirs) other) :
    StableCalls graph other observers fun w => Shows (.only thread theirs) (.apart thread) w v := by
  have unseen : (View.only thread theirs).sees other = false := beq_false_of_ne differs.symm
  have stocks := Surroundings.stableCalls_of_stock (Surroundings.stable_apart graph v.stock differs)
    (fun h last => (h.tidy.loaded last).1) observers
  exact {
    emit := fun e own h => ⟨h.seen.emit_unseen (own ▸ unseen), stocks.emit e own h.stocks⟩
    emitLast := fun e own h => ⟨h.seen.emitLast_unseen (own ▸ unseen), stocks.emitLast e own h.stocks⟩
    save := fun draws h =>
      ⟨⟨h.seen.divided, h.seen.bus, h.seen.deliveries, h.seen.active, h.seen.cancels⟩, stocks.save draws h.stocks⟩
    absorb := fun effects h => ⟨h.seen.absorb_unseen unseen effects, stocks.absorb effects h.stocks⟩
    owned := fun h => stocks.owned h.stocks
    attended := fun h => ⟨h.seen.attended_unseen aside unseen, stocks.attended h.stocks⟩
    activate := fun h => ⟨h.seen.activate_unseen unseen, stocks.activate h.stocks⟩
    release := fun h => ⟨h.seen.release_unseen unseen, stocks.release h.stocks⟩
    asked := fun h => ⟨h.seen.requestCancel_unseen unseen, stocks.asked h.stocks⟩
    deleted := fun h deleted => by
      have cleared := h.seen.clear_unseen unseen
      exact ⟨⟨cleared.divided, cleared.bus, cleared.deliveries, cleared.active, cleared.cancels⟩,
        stocks.deleted h.stocks deleted⟩ }

/-! ### All uses -/

theorem tidy_useAll (h : w.store.Tidy w.drawn) (uses : List Use) :
    (g.useAll w uses).1.store.Tidy (g.useAll w uses).1.drawn ∧ w.stock.Later (g.useAll w uses).1.stock := by
  have each : ∀ v, v.stock.store.Tidy v.stock.drawn ∧ w.stock.Later v.stock →
      (g.useAll v uses).1.stock.store.Tidy (g.useAll v uses).1.stock.drawn ∧
        w.stock.Later (g.useAll v uses).1.stock := by
    induction uses with
    | nil => exact fun v hv => hv
    | cons u uses ih =>
      intro v hv
      refine ih _ ?_
      cases u with
      | ask a => exact stable_answer (Surroundings.stableCalls_tidy w.stock _ a.thread a.observers) hv
      | subscribe => exact hv
  exact each w ⟨h, rfl, Nat.le_refl _⟩

theorem use?_only (thread : String) (theirs : String → Bool) (u : Use) :
    (View.only thread theirs).use? u = if u.thread == thread then some u else none := by
  have options : ∀ o, (View.only thread theirs).options thread o = o := by
    intro o
    simp [View.options, View.observers, View.only]
  cases u with
  | subscribe => rfl
  | ask a =>
    cases own : a.thread == thread with
    | false => simp [View.use?, View.only, Use.thread, own]
    | true =>
      have same : (View.only thread theirs).ask a = a := by
        obtain rfl := eq_of_beq own
        rcases a with (⟨t, input, o⟩ | ⟨t, value, o⟩ | _ | _) | _ | _ | _ <;> try rfl
        · exact congrArg (fun o => Ask.request (.start t input o)) (options o)
        · exact congrArg (fun o => Ask.request (.resume t value o)) (options o)
      simp [View.use?, View.only, Use.thread, own] at same ⊢
      exact same

/-- A use of the thread comes to the same beside uses of other threads, and those come to nothing for it. -/
theorem use_apart (steady : ∀ e ∈ g.providers, e.2.Steady)
    (steady' : u.thread = thread → ∀ p ∈ u.options.providers, p.2.Steady) (aside : u.Aside (.only thread theirs))
    (hw : Shows (.only thread theirs) (.apart thread) w v) (timely : (g.use w u).1.stock.Timely) :
    let x := g.use w u
    let y := g.useAll v ((View.only thread theirs).use? u).toList
    Shows (.only thread theirs) (.apart thread) x.1 y.1 ∧
      List.Forall₂ (fun a b => a.1 = b.1 ∧ Answer.Alike Checkpoint.Marked a.2 b.2)
        ((x.2.toList.map fun a => (u.thread, a)).filter fun a => a.1 == thread) y.2 := by
  intro x y
  by_cases own : u.thread = thread
  · obtain rfl := own
    have runs : ∀ ps, g.providers.layer u.options.providers = .ok ps →
        (Share.apart u.thread).Runs g.definition ps u.thread := fun ps layer =>
      Share.runs_apart g.definition (Providers.steady_layer steady (steady' rfl) layer) u.thread
    obtain ⟨shows, answers⟩ := use_viewed (Share.keeps_apart u.thread) (beq_self_eq_true _) runs aside hw timely
    have all : ((x.2.toList.map fun a => (u.thread, a)).filter fun a => a.1 == u.thread) =
        x.2.toList.map fun a => (u.thread, a) := by simp
    refine ⟨shows, ?_⟩
    rw [all]
    exact answers
  · have hidden : (View.only thread theirs).use? u = none := by
      rw [use?_only, beq_false_of_ne own, if_neg Bool.false_ne_true]
    have none : ((x.2.toList.map fun a => (u.thread, a)).filter fun a => a.1 == thread) = [] := by simp [own]
    simp only [y, hidden, none]
    refine ⟨?_, .nil⟩
    show Shows _ _ x.1 v
    cases u with
    | ask a => exact stable_answer (stableCalls_shows (Ne.symm own) aside) hw
    | subscribe handle t o =>
      obtain ⟨divided, same⟩ := hw.seen.divided.subscribeAs aside.1 aside.2
      have unseen : (View.only thread theirs).shows t o.name = false := beq_false_of_ne own
      rw [unseen, if_neg Bool.false_ne_true] at same
      exact ⟨⟨divided, hw.seen.bus.trans same.symm, hw.seen.deliveries, hw.seen.active, hw.seen.cancels⟩, hw.stocks⟩

theorem useAll_apart (steady : ∀ e ∈ g.providers, e.2.Steady)
    (steady' : ∀ u ∈ uses, u.thread = thread → ∀ p ∈ u.options.providers, p.2.Steady)
    (aside : ∀ u ∈ uses, u.Aside (.only thread theirs)) (hw : Shows (.only thread theirs) (.apart thread) w v)
    (timely : (g.useAll w uses).1.stock.Timely) :
    let x := g.useAll w uses
    let y := g.useAll v (uses.filter fun u => u.thread == thread)
    Shows (.only thread theirs) (.apart thread) x.1 y.1 ∧
      List.Forall₂ (fun a b => a.1 = b.1 ∧ Answer.Alike Checkpoint.Marked a.2 b.2) (x.2.filter fun a => a.1 == thread)
        y.2 := by
  induction uses generalizing w v with
  | nil => exact ⟨hw, .nil⟩
  | cons u uses ih =>
    obtain ⟨aside, rest⟩ := List.forall_mem_cons.mp aside
    obtain ⟨steady', later⟩ := List.forall_mem_cons.mp steady'
    have tidy : (g.use w u).1.store.Tidy (g.use w u).1.drawn := (tidy_useAll hw.stocks.tidy [u]).1
    obtain ⟨shows, answers⟩ := use_apart steady steady' aside hw ((tidy_useAll tidy uses).2.timely timely)
    obtain ⟨shows, others⟩ := ih later rest shows timely
    have split : (u :: uses).filter (fun u => u.thread == thread) =
        ((View.only thread theirs).use? u).toList ++ uses.filter fun u => u.thread == thread := by
      rw [List.filter_cons, use?_only]
      split <;> rfl
    intro x y
    simp only [y, split, useAll_append]
    refine ⟨shows, ?_⟩
    show List.Forall₂ _ (List.filter _ (_ ++ _)) _
    rw [List.filter_append]
    exact List.rel_append answers others

/-- Threads do not interfere. Whatever is asked of an engine and whoever is to follow its threads, each thread is
    answered, those who follow it are told, and its history is, but for ids and times, as if nothing had been done with
    other threads; if its providers are functions of their arguments, and those who follow other threads do not end
    registrations for it. Times are numbers of checkpoints here, which a table can hold up to `2 ^ 63`. -/
theorem threads_apart (g : Engine) (new : w.store.IsNew) (unfollowed : w.bus.registrations = [] ∧ w.bus.handles = [])
    (untold : w.deliveries = []) (thread : String) (theirs : String → Bool) (steady : ∀ e ∈ g.providers, e.2.Steady)
    (steady' : ∀ u ∈ uses, u.thread = thread → ∀ p ∈ u.options.providers, p.2.Steady)
    (aside : ∀ u ∈ uses, u.Aside (.only thread theirs))
    (timely : w.store.isTable → (g.useAll w uses).1.drawn ≤ 2 ^ 63) :
    let x := g.useAll w uses
    let y := g.useAll w (uses.filter fun u => u.thread == thread)
    List.Forall₂ (fun a b => a.1 = b.1 ∧ Answer.Alike Checkpoint.Marked a.2 b.2)
        (x.2.filter fun a => a.1 == thread) y.2 ∧
      (x.1.deliveries.filter fun d => d.event.thread == thread) = y.1.deliveries ∧
      Both (List.Forall₂ Checkpoint.Marked) (history thread x.1) (history thread y.1) := by
  intro x y
  have tidy := Store.tidy_of_isNew new w.drawn
  have begun : Shows (.only thread theirs) (.apart thread) w w := by
    refine ⟨⟨⟨?_, ?_⟩, ?_, ?_, fun _ _ => Iff.rfl, fun _ _ => Iff.rfl⟩, tidy, tidy, Nat.le_refl _,
      Store.copies_of_isNew new thread⟩
    · simp [unfollowed]
    · simp [unfollowed]
    · rcases bus : w.bus with ⟨enabled, registrations, handles⟩
      rw [bus] at unfollowed
      obtain ⟨rfl, rfl⟩ := unfollowed
      rfl
    · simp [untold]
  have timely : x.1.stock.Timely := fun table => timely ((tidy_useAll tidy uses).2.kind ▸ table)
  obtain ⟨shows, answers⟩ := useAll_apart steady steady' aside begun timely
  exact ⟨answers, shows.seen.deliveries.symm, (Share.keeps_apart thread).list shows.stocks⟩

/-- One thread is followed and taken to its end, while another one is begun, ended by an observer that also ends a
    registration, and deleted. -/
theorem threads_apart_inquiry :
    let g : Engine := { definition := .inquiry }
    let rash : Observer := { name := "rash", react := fun _ => [.unsubscribe "k", .cancel] }
    let first : List Use := [.subscribe "h" "t" { name := "x" }, .subscribe "k" "u" { name := "x" },
      .ask (.request (.start "u" .null { observers := [rash] })), .ask (.request (.start "t" .null {}))]
    let uses := first ++ [.ask (.request (.resume "t" (.str "yes") {})), .ask (.request (.delete "u")),
      .ask (.request (.resume "t" (.str "no") {})), .ask (.outcome "u"), .ask (.history "t")]
    let runs : List (Store × List Use) := [(.memory [], uses), (.files { directory := "d" }, uses), (.table {}, first)]
    (uses.filter fun u => u.thread == "t").length = 5 ∧
    ((g.useAll {} uses).1.deliveries.map fun d => (d.observer, d.event.thread, d.event.kind)) =
      [("x", "u", .runStarted), ("rash", "u", .runStarted), ("rash", "u", .failed), ("x", "t", .runStarted),
        ("x", "t", .interrupted), ("x", "t", .resumed), ("x", "t", .stepCompleted), ("x", "t", .interrupted),
        ("x", "t", .resumed), ("x", "t", .stepCompleted), ("x", "t", .completed)] ∧
    (∀ u ∈ uses, u.Aside (.only "t" (· == "h"))) ∧
    ∀ run ∈ runs, run.1.IsNew ∧ (run.1.isTable → (g.useAll { store := run.1 } run.2).1.drawn ≤ 2 ^ 63) ∧
      let x := g.useAll { store := run.1 } run.2
      let y := g.useAll { store := run.1 } (run.2.filter fun u => u.thread == "t")
      List.Forall₂ (fun a b => a.1 = b.1 ∧ Answer.Alike Checkpoint.Marked a.2 b.2)
          (x.2.filter fun a => a.1 == "t") y.2 ∧
        (x.1.deliveries.filter fun d => d.event.thread == "t") = y.1.deliveries ∧
        Both (List.Forall₂ Checkpoint.Marked) (history "t" x.1) (history "t" y.1) := by
  intro g rash first uses runs
  have quiet : ∀ (t : String), Observer.Aside (.only "t" (· == "h")) t { name := "x" } :=
    fun t => ⟨fun _ _ _ => rfl, fun _ _ _ h => absurd h List.not_mem_nil⟩
  have harsh : rash.Aside (.only "t" (· == "h")) "u" := by
    refine ⟨fun sees => absurd sees (by decide), fun _ e h mem => ?_⟩
    obtain rfl : h = "k" := by simpa [rash] using mem
    decide
  have aside : ∀ u ∈ uses, u.Aside (.only "t" (· == "h")) := by
    simp only [uses, first, List.cons_append, List.nil_append, List.forall_mem_cons]
    refine ⟨⟨quiet "t", by decide⟩, ⟨quiet "u", by decide⟩, ?_, ?_, ?_, ?_, ?_, ?_, ?_, List.forall_mem_nil _⟩ <;>
      simp [Use.Aside, Ask.observers, Request.options, harsh, Ask.thread, Request.thread]
  have bare : ∀ u ∈ uses, u.options.providers = [] := by
    simp [uses, first, Use.options, Ask.options, Request.options]
  have new : ∀ run ∈ runs, run.1.IsNew ∧ run.2 ⊆ uses := by
    simp [runs, uses, Store.IsNew]
  have timely : ∀ run ∈ runs, run.1.isTable → (g.useAll { store := run.1 } run.2).1.drawn ≤ 2 ^ 63 := by
    simp only [runs, List.forall_mem_cons]
    exact ⟨Bool.noConfusion, Bool.noConfusion, fun _ => by decide +kernel, List.forall_mem_nil _⟩
  refine ⟨by decide, by decide +kernel, aside, fun run mem => ⟨(new run mem).1, timely run mem, ?_⟩⟩
  obtain ⟨new, part⟩ := new run mem
  exact threads_apart (w := { store := run.1 }) g new ⟨rfl, rfl⟩ rfl "t" (· == "h") (List.forall_mem_nil _)
    (fun u hu _ p hp => absurd (bare u (part hu) ▸ hp) List.not_mem_nil) (fun u hu => aside u (part hu))
    (timely run mem)

end Engine

end Workflow
