import Workflow.Proofs.Registers
import Workflow.Proofs.Safety
import Workflow.Proofs.Sweeping
import Workflow.Proofs.Treks
import Workflow.Proofs.Unwritten

/-! # The lives of threads

The life of a thread goes from a start to the deletion of its records. Main statement: in no call are more nodes run
than its bound leaves steps, and in the life of a thread no more executions are completed than the largest bound of its
calls allows (`recursion_guarded`), unless its store refuses what a call writes down (`exceeded_bytes`). -/

namespace Workflow

/-- What has come of a thread in its life: the bounds of the calls that ran it, and the executions of nodes that were
    completed in them. -/
structure Tally where
  limits : List Int := []
  done : List Attempt := []
  /-- Each call that ran nodes was answered with an outcome, and the files of the thread were few enough to be told in
      the order of saving. -/
  kept : Prop := True

namespace Tally

/-- The largest bound, if there is one above 0. -/
def most (t : Tally) : Int := t.limits.foldr max 0

/-- After a call under a bound in which nodes were run. -/
def ran (t : Tally) (limit : Int) (attempts : List Attempt) (answer : Except Fault Outcome) (few : Prop) : Tally where
  limits := limit :: t.limits
  done := t.done ++ attempts.filter Attempt.completed
  kept := t.kept ∧ (∃ o, answer = .ok o) ∧ few

/-- After a call in which none was run. -/
def idled (t : Tally) (few : Prop) : Tally := { t with kept := t.kept ∧ few }

theorem most_nonneg (t : Tally) : 0 ≤ t.most := by
  obtain ⟨limits, done⟩ := t
  induction limits with
  | nil => exact Int.le_refl 0
  | cons limit limits ih => exact Int.le_trans ih (Int.le_max_right _ _)

variable {t : Tally} {limit : Int} {attempts : List Attempt} {answer : Except Fault Outcome} {few : Prop}

theorem most_ran : (t.ran limit attempts answer few).most = max limit t.most := rfl

theorem most_update {tally : String → Tally} {thread : String} (same : t.most = (tally thread).most) (other : String) :
    (Function.update tally thread t other).most = (tally other).most := by
  by_cases own : other = thread
  · rw [own, Function.update_self, same]
  · exact congrArg most (Function.update_of_ne own _ _)

end Tally

/-- Calls of engines of a graph on a store that was not used before. Another process may go on with the store, which has
    observers and running threads of its own, and old rows of a table may be swept. -/
inductive Lives (d : Definition) (s : Store) : Surroundings → (String → Tally) → Prop
  | new {w : Surroundings} (hw : w.store = s) (hs : s.IsUnused) : Lives d s w fun _ => {}
  | ran {w v : Surroundings} {tally : String → Tally} {g run : Engine} {request : Request} {e : Execution}
      {entry : Entry} {t : List Attempt} {x : Ended} (h : Lives d s w tally) (hg : g.definition = d)
      (launch : g.Launches w request run e entry v) (unrolls : run.Unrolls e entry v t x) :
      Lives d s (g.serve w request).1
        (Function.update tally request.thread ((tally request.thread).ran run.config.recursionLimit t x.2
          ((g.serve w request).1.store.Few request.thread)))
  | idle {w : Surroundings} {tally : String → Tally} {g : Engine} {request : Request} (h : Lives d s w tally)
      (hg : g.definition = d) (idle : ∀ run e entry v, ¬g.Launches w request run e entry v)
      (kept : request ≠ .delete request.thread) :
      Lives d s (g.serve w request).1
        (Function.update tally request.thread
          ((tally request.thread).idled ((g.serve w request).1.store.Few request.thread)))
  | deleted {w : Surroundings} {tally : String → Tally} {thread : String} {n : Nat} (h : Lives d s w tally)
      (answer : (Engine.delete thread w).2 = .ok n) :
      Lives d s (Engine.delete thread w).1 (Function.update tally thread {})
  | handed {w v : Surroundings} {tally : String → Tally} (h : Lives d s w tally) (hv : v.store = w.store) :
      Lives d s v tally
  | swept {w v : Surroundings} {tally : String → Tally} {t : Store.Table} (h : Lives d s w tally)
      (hw : w.store = .table t) (now hours : Float) (perThread : Int)
      (hv : v.store = .table (t.sweep now hours perThread).1) : Lives d s v tally

namespace Store

variable {s u : Store} {c : Checkpoint} {thread : String} {durable : Bool} {t : Tally}

/-- A save that is refused leaves what is told. -/
theorem Ranked.load_of_refused (h : s.Ranked durable) {f : Fault} (refused : (s.write c).2 = .error f) :
    (s.write c).1.load thread = s.load thread := by
  cases s with
  | memory => cases refused
  | limited saved n =>
    cases n with
    | zero => rfl
    | succ n => cases refused
  | table t =>
    simp only [Store.write, Store.save] at refused ⊢
    cases saved : t.save c with
    | error f => rfl
    | ok u =>
      rw [saved] at refused
      cases refused
  | files f =>
    cases h.order h.kind.symm with
    | files numbered =>
      simp only [Store.write] at refused ⊢
      rcases f.write_cases c with ⟨p, -, -, taken⟩ | ⟨_, -, -, left | left, -⟩
      · rw [taken] at refused
        cases refused
      · rw [left]
      · -- The directory of a refused file is made all the same.
        have same : (f.withFolder c.thread.text).ofThread thread = f.ofThread thread := by
          rw [numbered.ofThread_eq_mergeSort, (numbered.withFolder _).ofThread_eq_mergeSort, Files.files_withFolder]
        rw [left]
        simp only [Store.load, Files.load, same, Files.readFile_eq_of_directory (Files.directory_withFolder f _)]

/-- What is told of a thread is where its life goes on: it waits after as many steps as were completed, or cannot be
    resumed. -/
structure Continues (s : Store) (thread : String) (t : Tally) : Prop where
  none : s.load thread = .ok none → t.done = []
  waits : ∀ c, s.load thread = .ok (some c) → c.status = .paused → c.step = t.done.length

theorem Continues.congr (h : s.Continues thread t) (same : u.load thread = s.load thread) : u.Continues thread t where
  none hu := h.none (same.symm.trans hu)
  waits c hc := h.waits c (same.symm.trans hc)

/-- What is written of a life does not wait, or waits where the life has come to. -/
theorem Continues.write (h : s.Continues thread t) (ranked : s.Ranked durable) (own : c.thread = .str thread)
    (version : durable = true → c.version = checkpointVersion) (few : (s.write c).1.Few thread)
    (waits : c.status = .paused → c.step = t.done.length) : (s.write c).1.Continues thread t := by
  cases taken : (s.write c).2 with
  | error f => exact h.congr (ranked.load_of_refused taken)
  | ok =>
    obtain ⟨d, load, kept⟩ := load_written ranked version own few taken
    constructor
    · intro none
      cases load.symm.trans none
    · intro d' hd paused
      cases load.symm.trans hd
      exact kept.mirrors.step.trans (waits (kept.mirrors.status.symm.trans paused))

theorem continues_of_isUnused (h : s.IsUnused) (thread : String) : s.Continues thread {} where
  none _ := rfl
  waits c hc := by
    have reads := reads_of_load hc
    rcases h with h | ⟨saves, hint, rfl⟩
    · exact absurd reads (not_reads_of_isNew h)
    · exact absurd reads.1 List.not_mem_nil

end Store

namespace Engine

open Surroundings

variable {g run : Engine} {e : Execution} {entry : Entry} {w v : Surroundings} {x : Ended} {t : List Attempt}
  {request : Request} {q : Pass} {o : Outcome} {f : Failure} {a : Tally} {durable : Bool}

/-! ### What calls leave to be told -/

/-- A call that is answered with an outcome has written down that its run is over, or waits after as many steps. -/
theorem Ends.written (h : g.Ends q x) (ho : x.2 = .ok o) (listed : q.around.store.Listed durable) :
    ∃ u c, Store.Listed durable u ∧ c.thread = .str q.execution.thread ∧
      (durable = true → c.version = checkpointVersion) ∧ (u.write c).2 = .ok () ∧ x.1.store = (u.write c).1 ∧
      (c.status = .paused → c.step = o.steps) := by
  have stable (graph : String) := stable_of_stock (stable_listed graph q.execution.thread durable)
  have after : (g.after q).store.Listed durable := stable_after (P := fun w => w.store.Listed _) (stable _) listed
  have told (p : Position) : (g.told q p).store.Listed durable :=
    stable_told (P := fun w => w.store.Listed _) (stable _) listed p
  have pause {e : Execution} {v : Surroundings} {node : String} {kind : InterruptKind} {prompt : Value}
      (listed : v.store.Listed durable) (own : e.thread = q.execution.thread)
      (ho : (g.pause e node kind prompt v).2 = .ok o) : ∃ u c, Store.Listed durable u ∧
        c.thread = .str q.execution.thread ∧ (durable = true → c.version = checkpointVersion) ∧
        (u.write c).2 = .ok () ∧ (g.pause e node kind prompt v).1.store = (u.write c).1 ∧
        (c.status = .paused → c.step = o.steps) := by
    obtain ⟨taken, left⟩ := written_of_pause ho
    exact ⟨_, _, listed, congrArg Value.str own, fun _ => rfl, taken, left, fun _ => (outcome_of_pause ho).2.symm⟩
  have fail {e : Execution} {v : Surroundings} {f : Failure} (listed : v.store.Listed durable)
      (own : e.thread = q.execution.thread) (ho : (g.fail e f v).2 = .ok o) : ∃ u c, Store.Listed durable u ∧
        c.thread = .str q.execution.thread ∧ (durable = true → c.version = checkpointVersion) ∧
        (u.write c).2 = .ok () ∧ (g.fail e f v).1.store = (u.write c).1 ∧
        (c.status = .paused → c.step = o.steps) := by
    obtain ⟨snapshot, onto, taken, left, -⟩ := written_of_fail ho
    have kept := onto.draws.own listed.toOwned (drawnId v.drawn) (.int v.drawn)
    refine ⟨_, _, listed, own ▸ kept, onto.draws.version listed, taken, left, fun paused => ?_⟩
    cases onto.status_eq.symm.trans paused
  cases h with
  | cancelled | exhausted => exact fail listed rfl ho
  | completed =>
    obtain ⟨taken, left⟩ := written_of_complete ho
    exact ⟨_, _, listed, rfl, fun _ => rfl, taken, left, fun paused => nomatch paused⟩
  | held => exact pause listed rfl ho
  | suspended => exact pause after rfl ho
  | withdrawn | failed => exact fail after rfl ho
  | paused => exact pause (told _) rfl ho
  | revoked => exact fail (told _) rfl ho
  | lost | unsaved => cases ho

/-- A call that is answered with an outcome leaves to be told that its run is over, or waits after as many steps. -/
theorem Launches.leaves (h : g.Launches w request run e entry v) (reached : w.store.Reached)
    (unrolls : run.Unrolls e entry v t x) (ho : x.2 = .ok o)
    (few : (g.serve w request).1.store.Few request.thread) :
    ∃ d, (g.serve w request).1.store.load request.thread = .ok (some d) ∧ (d.status = .paused → d.step = o.steps) := by
  have served : (g.serve w request).1.store = x.1.store := by
    rw [h.left_of_unrolls unrolls]
    rfl
  obtain ⟨p, -, rfl⟩ := h.stands (reached.depicts _) fun _ _ _ _ _ _ => Definition.counts_of_origin
  have stable (graph : String) := stable_listed graph request.thread w.store.isDurable
  have begun : v.store.Listed w.store.isDurable :=
    h.stable (stableCalls_of_stock (stable _) (fun hx last => hx.own (Store.reads_of_load last)) _) reached.listed
  obtain ⟨q, goes, ends⟩ := run.run_passes (run.passAt request.thread p entry v)
  have kept : q.around.store.Listed w.store.isDurable :=
    passes_stable (P := fun w => w.store.Listed _) (stable_of_stock (stable _)) begun goes
  have own : q.execution.thread = request.thread := passes_thread goes
  rw [unrolls.eq_run] at ho served
  obtain ⟨u, c, listed, thread, version, taken, left, waits⟩ := ends.written ho kept
  rw [served.trans left] at few ⊢
  obtain ⟨d, load, same⟩ := Store.load_written listed.toRanked version (own ▸ thread) few taken
  refine ⟨d, load, fun paused => ?_⟩
  exact same.mirrors.step.trans (waits (same.mirrors.status.symm.trans paused))

/-- A run goes on from the start of its thread, or from where it is told to wait. -/
theorem Launches.start_eq (h : g.Launches w request run e entry v)
    (continues : w.store.Continues request.thread a) : e.step = a.done.length := by
  have step := h.step_eq
  cases h with
  | start opening =>
    simp only [Engine.opening, bind_eq_ok] at opening
    obtain ⟨_, -, _, -, last, load, opening⟩ := opening
    split at opening
    · cases opening
    · rename_i unstarted
      rw [Option.not_isSome_iff_eq_none] at unstarted
      subst unstarted
      rw [stepsOf, Request.thread, load] at step
      rw [step, continues.none load]
      rfl
  | resume resumption =>
    obtain ⟨c, _, _, _, last, paused, -⟩ := taken_of_resumption resumption
    have load := (lastCheckpoint_eq_ok_iff.mp last).1
    rw [stepsOf, Request.thread, load] at step
    exact step.trans (continues.waits c load paused)

/-- The executions that are completed in a call are those of its first steps. -/
theorem Unrolls.completed_prefix (h : g.Unrolls e entry w t x) : t.filter Attempt.completed <+: t := by
  induction h with
  | @ends e entry w =>
    unfold attempts
    split
    · exact List.prefix_refl _
    · rw [List.filter_singleton]
      cases (g.turnAt (g.firstPass e entry w)).2.completes e.step
      · exact List.nil_prefix
      · exact List.prefix_refl _
  | goes h _ ih =>
    rw [(attempts_of_goes (goes_of_lap h)).2]
    exact List.cons_prefix_cons.mpr ⟨rfl, ih⟩

/-! ### Calls that run no node -/

section Idle

variable (h : w.store.Continues request.thread a) (listed : w.store.Listed durable)
include h listed

/-- What a start writes down does not wait. -/
theorem continues_begun {thread : String} {input : Value} {overrides : Overrides} {config : Config}
    {r : Except Fault Checkpoint} (opening : g.opening thread input overrides w.store = .ok (config, e))
    (own : thread = request.thread) (observers : List Observer)
    (save : g.save e (w.joined thread observers) = (v, r)) (few : v.store.Few request.thread) :
    v.store.Continues request.thread a := by
  obtain ⟨-, p, -, -, rfl⟩ := origin_of_opening opening
  have left : v.store =
      (w.store.write (g.snapshot (p.running thread config.metadata) (w.joined thread observers))).1 := by
    rw [← w.store_joined thread observers]
    exact congrArg (·.1.store) save.symm
  rw [left] at few ⊢
  exact h.write listed.toRanked (congrArg Value.str own) (fun _ => rfl) few fun paused => nomatch paused

theorem continues_unlaunched (ends : g.Unlaunched w request v) (few : v.store.Few request.thread) :
    v.store.Continues request.thread a := by
  cases ends with
  | unopened | unordered | unresumed => exact h
  | unwritten opening save =>
    have begun := continues_begun h listed opening rfl _ save few
    exact begun
  | unprovided ev opening save =>
    rw [show ∀ u : Surroundings, (u.release _).store = u.store from fun _ => rfl, store_emit] at few ⊢
    exact continues_begun h listed opening rfl _ save few
  | unserved =>
    rw [show ∀ u : Surroundings, (u.release _).store = u.store from fun _ => rfl, reopened, store_emit, store_activate]
    exact h

/-- What is written down of a failure does not wait. -/
theorem continues_fail (own : e.thread = request.thread) (few : (g.fail e f w).1.store.Few request.thread) :
    (g.fail e f w).1.store.Continues request.thread a := by
  rw [store_fail] at few ⊢
  unfold record at few ⊢
  cases load : w.store.load (e.failed f).thread with
  | error => exact h
  | ok last =>
    rw [load] at few
    cases last with
    | none => exact h.write listed.toRanked (congrArg Value.str own) (fun _ => rfl) few fun paused => nomatch paused
    | some last =>
      have draws : w.Draws g.definition.name e.thread (last.failed f.toValue) := .failure load f
      have kept : (w.drawUp (last.failed f.toValue)).thread = .str request.thread :=
        own ▸ draws.own listed.toOwned _ _
      exact h.write listed.toRanked kept (draws.version listed) few fun paused => nomatch paused

/-- A call that runs no node leaves its thread where its life has come to. -/
theorem continues_idle (idle : ∀ run e entry v, ¬g.Launches w request run e entry v)
    (kept : request ≠ .delete request.thread) (few : (g.serve w request).1.store.Few request.thread) :
    (g.serve w request).1.store.Continues request.thread a := by
  have unlaunched (runs : request ≠ .cancel request.thread ∧ request ≠ .delete request.thread) :
      (g.serve w request).1.store.Continues request.thread a := by
    rcases launches_or_unlaunched (g := g) (w := w) runs with ⟨_, _, _, _, launch⟩ | ⟨v, f, ends, served⟩
    · exact absurd launch (idle _ _ _ _)
    · rw [served] at few ⊢
      exact continues_unlaunched h listed ends few
  cases request with
  | start | resume => exact unlaunched ⟨Request.noConfusion, Request.noConfusion⟩
  | cancel thread =>
    rcases g.cancel_leaves_or_ends thread w with ⟨same, -⟩ | ⟨c, e, last, -, taken, cancelled⟩
    · rw [serve, same]
      exact h
    · have own : e.thread = thread := by
        rw [thread_ofCheckpoint taken, listed.own (Store.reads_of_load (lastCheckpoint_eq_ok_iff.mp last).1)]
        rfl
      rw [serve, cancelled] at few ⊢
      exact continues_fail h listed own few
  | delete => exact absurd rfl kept

end Idle

end Engine

namespace Lives

variable {d : Definition} {s : Store} {w : Surroundings} {tally : String → Tally}

/-! ### What is written down -/

/-- Whatever a store is made of, no checkpoint of a thread counts more steps than the largest bound of its calls. -/
theorem within (h : Lives d s w tally) : w.store.Below fun thread => (tally thread).most := by
  induction h with
  | new hw hs =>
    intro thread c hc
    rw [hw] at hc
    rcases hs with hs | ⟨saves, hint, rfl⟩
    · exact absurd hc (Store.not_reads_of_isNew hs)
    · exact absurd hc.1 List.not_mem_nil
  | @ran w v tally g run request e entry t x _ _ launch unrolls ih =>
    obtain ⟨kept, own, within⟩ := launch.keeps_below ih fun thread => (tally thread).most_nonneg
    generalize hran : (tally request.thread).ran run.config.recursionLimit t x.2 _ = a
    have largest : a.most = max run.config.recursionLimit (tally request.thread).most := hran ▸ Tally.most_ran
    have more : ∀ thread, (tally thread).most ≤ (Function.update tally request.thread a thread).most := by
      intro thread
      by_cases same : thread = request.thread
      · rw [same, Function.update_self, largest]
        exact Int.le_max_right _ _
      · exact Int.le_of_eq (congrArg Tally.most (Function.update_of_ne same _ _).symm)
    have limit : run.config.recursionLimit ≤ (Function.update tally request.thread a e.thread).most := by
      rw [own, Function.update_self, largest]
      exact Int.le_max_left _ _
    have ended := unrolls.keeps_below (kept.mono more) (Int.le_trans within (more _)) limit
    rw [launch.left_of_unrolls unrolls]
    exact ended
  | @idle w tally g request _ _ idle _ ih =>
    refine (Engine.below_serve_unlaunched ih (fun thread => (tally thread).most_nonneg) idle).mono fun thread => ?_
    have same : ((tally request.thread).idled ((g.serve w request).1.store.Few request.thread)).most =
      (tally request.thread).most := rfl
    exact Int.le_of_eq (Tally.most_update same thread).symm
  | @deleted w tally thread n _ answer ih =>
    unfold Engine.delete at answer ⊢
    split at answer
    · cases answer
    · rename_i u m hs
      intro other c hc
      obtain ⟨before, differs⟩ := Store.reads_delete hs hc
      show _ ∧ c.step ≤ (Function.update tally thread {} other).most
      rw [Function.update_of_ne differs]
      exact ih other c before
  | handed _ hv ih =>
    rw [hv]
    exact ih
  | swept _ hw now hours perThread hv ih =>
    intro thread c hc
    rw [hv] at hc
    exact ih thread c (hw ▸ Store.reads_sweep hc)

theorem reached (h : Lives d s w tally) : w.store.Reached := by
  induction h with
  | new hw hs => exact .unused (hw ▸ hs)
  | ran _ _ _ _ ih | idle _ _ _ _ ih => exact ih.serve _
  | @deleted w _ thread _ _ _ ih => exact ih.serve (g := { definition := d }) (.delete thread)
  | handed _ hv ih => exact hv ▸ ih
  | swept _ hw now hours perThread hv ih =>
    rw [hw] at ih
    exact hv ▸ ih.swept now hours perThread

/-! ### What is run -/

/-- The executions of a life are of consecutive steps, which its largest bound allows. -/
structure Counted (t : Tally) : Prop where
  steps : ∀ (i : Nat) a, t.done[i]? = some a → a.step = i
  most : (t.done.length : Int) ≤ t.most

theorem counted_new : Counted {} where
  steps _ _ h := by cases h
  most := Int.le_refl 0

/-- A call that goes on where the life has come to adds the executions that it completes. -/
theorem Counted.ran {run : Engine} {e : Execution} {entry : Entry} {v : Surroundings} {u : List Attempt} {x : Ended}
    {t : Tally} (h : Counted t) (unrolls : run.Unrolls e entry v u x) (start : e.step = t.done.length) (few : Prop) :
    Counted (t.ran run.config.recursionLimit u x.2 few) := by
  obtain ⟨length, steps⟩ := unrolls.consecutive
  constructor
  · intro i b hb
    change (t.done ++ u.filter Attempt.completed)[i]? = some b at hb
    by_cases before : i < t.done.length
    · rw [List.getElem?_append_left before] at hb
      exact h.steps i b hb
    · rw [List.getElem?_append_right (Nat.not_lt.mp before)] at hb
      obtain ⟨rest, first⟩ := unrolls.completed_prefix
      have inCall := steps (i - t.done.length) b (by
        rw [← first, List.getElem?_append_left (List.getElem?_eq_some_iff.mp hb).1, hb])
      omega
  · have total : (t.ran run.config.recursionLimit u x.2 few).done.length = t.done.length + completions u :=
      List.length_append
    have fits : completions u ≤ u.length := completions_le u
    have most := h.most
    rw [total, Tally.most_ran]
    push_cast
    omega

/-- Whatever a store is made of, the executions of a life are counted as long as no call was refused what it wrote
    down, and the next call goes on where the last one has come to. -/
theorem counted (h : Lives d s w tally) (thread : String) (kept : (tally thread).kept) :
    Counted (tally thread) ∧ w.store.Continues thread (tally thread) := by
  induction h with
  | new hw hs => exact ⟨counted_new, hw ▸ Store.continues_of_isUnused hs thread⟩
  | @ran w _ tally g _ request _ _ _ _ h _ launch unrolls ih =>
    by_cases same : thread = request.thread
    · subst same
      rw [Function.update_self] at kept ⊢
      obtain ⟨before, ⟨o, ho⟩, few⟩ := kept
      obtain ⟨counted, continues⟩ := ih before
      have start := launch.start_eq continues
      refine ⟨counted.ran unrolls start _, ?_⟩
      obtain ⟨d, load, waits⟩ := launch.leaves h.reached unrolls ho few
      constructor
      · intro none
        cases load.symm.trans none
      · intro d' hd paused
        cases load.symm.trans hd
        rw [waits paused, unrolls.steps_eq ho, start, Tally.ran, List.length_append]
        rfl
    · rw [Function.update_of_ne same] at kept ⊢
      obtain ⟨counted, continues⟩ := ih kept
      exact ⟨counted, continues.congr (Engine.tells_serve h.reached.owned same).load⟩
  | @idle w tally g request h _ idle uncalled ih =>
    by_cases same : thread = request.thread
    · subst same
      rw [Function.update_self] at kept ⊢
      obtain ⟨before, few⟩ := kept
      obtain ⟨counted, continues⟩ := ih before
      have left := Engine.continues_idle continues h.reached.listed idle uncalled few
      exact ⟨⟨counted.steps, counted.most⟩, left.none, left.waits⟩
    · rw [Function.update_of_ne same] at kept ⊢
      obtain ⟨counted, continues⟩ := ih kept
      exact ⟨counted, continues.congr (Engine.tells_serve h.reached.owned same).load⟩
  | @deleted w tally forgotten _ h answer ih =>
    by_cases same : thread = forgotten
    · subst same
      rw [Function.update_self]
      refine ⟨counted_new, fun _ => rfl, fun c load => ?_⟩
      have left := Store.reads_of_load load
      unfold Engine.delete at answer left
      split at answer
      · cases answer
      · rename_i u m hs
        rw [hs] at left
        exact absurd rfl (Store.reads_delete hs left).2
    · rw [Function.update_of_ne same] at kept ⊢
      obtain ⟨counted, continues⟩ := ih kept
      have told : Store.Tells thread w.store (Engine.serve { definition := d } w (.delete forgotten)).1.store :=
        Engine.tells_serve h.reached.owned same
      exact ⟨counted, continues.congr told.load⟩
  | handed _ hv ih => exact hv ▸ ih kept
  | @swept w v tally t h hw now hours perThread hv ih =>
    obtain ⟨counted, continues⟩ := ih kept
    refine ⟨counted, continues.congr ?_⟩
    have listed := h.reached.listed
    rw [hw] at listed
    cases listed.order rfl with
    | table order =>
      rw [hv, hw]
      exact order.load_sweep now hours perThread thread

/-! ### What is remembered -/

theorem few_of_inMemory (hm : w.InMemory) (thread : String) : w.store.Few thread := by
  intro f hf
  obtain ⟨saved, hs⟩ := hm
  cases hs.symm.trans hf

/-- In memory, every call that runs nodes is answered, as no save is refused. -/
theorem remembered (h : Lives d s w tally) (memory : ∃ saved, s = .memory saved) (sound : d.Sound) :
    w.InMemory ∧ ∀ thread, (∀ c ∈ w.records thread, c.Proper d) ∧ (tally thread).kept := by
  induction h with
  | @new w hw hs =>
    obtain ⟨saved, rfl⟩ := memory
    refine ⟨⟨saved, hw⟩, fun thread => ⟨fun c hc => ?_, trivial⟩⟩
    rcases hs with none | ⟨_, _, other⟩
    · have none : saved = [] := none
      rw [Surroundings.records_of_store hw, none] at hc
      cases hc
    · cases other
  | @ran w v tally g run request e entry t x _ hg launch unrolls ih =>
    obtain ⟨hm, remembered⟩ := ih
    obtain ⟨memory, others⟩ := Engine.serve_frame g hm request
    refine ⟨memory, fun thread => ?_⟩
    by_cases same : thread = request.thread
    · subst same hg
      obtain ⟨proper, kept⟩ := remembered request.thread
      obtain ⟨hd, p, entry', u, hq, safe⟩ := (launch.enters hm).safe sound hm proper
      obtain ⟨-, o, ho, -⟩ := safe.run (hd ▸ sound) entry'
      rw [← hq, ← unrolls.eq_run] at ho
      rw [Function.update_self]
      exact ⟨(Engine.serve_safe sound hm proper).1, kept, ⟨o, ho⟩, few_of_inMemory memory _⟩
    · rw [Function.update_of_ne same, others thread (Ne.symm same)]
      exact remembered thread
  | @idle w tally g request _ hg idle kept ih =>
    obtain ⟨hm, remembered⟩ := ih
    obtain ⟨memory, others⟩ := Engine.serve_frame g hm request
    refine ⟨memory, fun thread => ?_⟩
    by_cases same : thread = request.thread
    · subst same hg
      obtain ⟨proper, kept⟩ := remembered request.thread
      rw [Function.update_self]
      exact ⟨(Engine.serve_safe sound hm proper).1, kept, few_of_inMemory memory _⟩
    · rw [Function.update_of_ne same, others thread (Ne.symm same)]
      exact remembered thread
  | @deleted w tally thread n _ answer ih =>
    obtain ⟨hm, remembered⟩ := ih
    have forgotten : (Engine.delete thread w).1.store = (w.forget thread).store := Engine.store_delete hm
    refine ⟨(hm.forget thread).congr forgotten, fun other => ?_⟩
    rw [Surroundings.records_congr forgotten other]
    by_cases same : other = thread
    · rw [same, Function.update_self, Surroundings.records_forget_self hm]
      exact ⟨fun _ hc => absurd hc List.not_mem_nil, trivial⟩
    · rw [Function.update_of_ne same, Surroundings.records_forget_of_ne hm (Ne.symm same)]
      exact remembered other
  | handed _ hv ih =>
    obtain ⟨hm, remembered⟩ := ih
    exact ⟨hm.congr hv, fun thread => Surroundings.records_congr hv thread ▸ remembered thread⟩
  | swept _ hw _ _ _ _ ih =>
    obtain ⟨⟨saved, hm⟩, -⟩ := ih
    cases hm.symm.trans hw

end Lives

/-! ### Main statement -/

namespace Engine

/-- The bounds of calls hold for all runs of a graph. -/
structure Guarded (d : Definition) : Prop where
  /-- A start or a resumption is refused, or runs the laps of one run. They come to one end, and run one node at most
      at each step from the stored count up to the bound. -/
  calls : ∀ (g : Engine) (w : Surroundings) (request : Request), g.definition = d →
    request ≠ .cancel request.thread → request ≠ .delete request.thread →
    (∃ f, (g.serve w request).2 = .error f) ∧ (∀ run e entry v, ¬g.Launches w request run e entry v) ∨
    ∃ run e entry v t x, g.Launches w request run e entry v ∧ e.step = stepsOf request.thread w ∧
      run.Unrolls e entry v t x ∧ (∀ t' x', run.Unrolls e entry v t' x' → t = t' ∧ x = x') ∧
      t.length ≤ (run.config.recursionLimit - stepsOf request.thread w).toNat ∧
      (∀ (i : Nat) a, t[i]? = some a → a.step = stepsOf request.thread w + i) ∧
      g.serve w request = (x.1.release request.thread, (x.2.mapError (withHint e.thread)).map some) ∧
      ∀ o, x.2 = .ok o → o.steps = stepsOf request.thread w + completions t
  /-- Whatever its store is made of, no checkpoint of a thread counts more steps than the largest bound of the calls
      in its life. As long as the store takes what the calls write down, each step is completed once and there are
      no more of them than the largest bound. In memory nothing is refused. -/
  lives : ∀ s w tally, Lives d s w tally → ∀ thread,
    (∀ cs, history thread w = .ok cs → ∀ c ∈ cs, c.step ≤ (tally thread).most) ∧
    ((tally thread).kept → ((tally thread).done.length : Int) ≤ (tally thread).most ∧
      ∀ (i : Nat) a, (tally thread).done[i]? = some a → a.step = i) ∧
    ((∃ saved, s = .memory saved) → (tally thread).kept)
  /-- A start that nothing breaks and nothing pauses is completed where the walk comes to the end within the bound,
      and fails after as many steps as the bound allows otherwise. In memory there is an answer, and the state of a
      failure is the one in which the bound was reached. -/
  exact : ∀ (g : Engine) (w : Surroundings) (thread : String) (input : Value) (options : CallOptions)
    (config : Config) (providers : Providers) (limit : Nat), g.definition = d →
    (w.joined thread options.observers).Undisturbed thread →
    g.config.Accepts options.overrides config → g.providers.layer options.providers = .ok providers →
    config.before = [] → config.after = [] → config.recursionLimit = limit →
    Unbroken { g with config, providers } thread input w.calls limit →
    (∀ o, (g.start thread input options w).2 = .ok o → o.Measured d providers thread input w.calls limit) ∧
    (w.InMemory → w.records thread = [] → (∃ state, d.schema.initialState input = .ok state) →
      ∃ o, (g.start thread input options w).2 = .ok o ∧
        (config.mode = .everyStep → o.status = .failed → ∀ p calls,
          d.trek providers thread input w.calls limit = some (p, calls) → o.state = .ofFields p.state))

end Engine

/-- Logic that gathers a word each time. -/
def Logic.ticking : Logic := fun _ _ => .done (.update (.ofFields [("words", .str "tick")]))

namespace Engine

/-- A run that gathers words under a bound. -/
def gatherer (limit : Nat) : Engine := { definition := .gathering .ticking, config := { recursionLimit := limit } }

theorem gatherer_unbroken {limit : Nat} (within : limit ≤ 2) : (gatherer limit).Unbroken "t" .null [] limit := by
  let stop (n : Nat) : Position :=
    { node := if n < 2 then "ask" else endMarker, state := [("words", .list (.replicate n (.str "tick")))]
      step := n, history := .replicate n "ask" }
  have smooth {n : Nat}
      (turn : ((Definition.gathering .ticking).turn { providers := [] } "t" (stop n) []).2 = .reached (stop (n + 1)))
      (uncancelled : ((Definition.gathering .ticking).turn { providers := [] } "t" (stop n) []).1.cancelled = false) :
      (Definition.gathering .ticking).Smooth [] "t" (stop n) [] :=
    ⟨uncancelled, fun _ h => (by cases turn.symm.trans h), fun _ _ h => (by cases turn.symm.trans h)⟩
  have first : (Definition.gathering .ticking).trek [] "t" .null [] 0 = some (stop 0, []) := rfl
  have second : (Definition.gathering .ticking).trek [] "t" .null [] 1 = some (stop 1, []) := rfl
  intro n below p calls walk _
  obtain rfl | rfl : n = 0 ∨ n = 1 := by omega
  · cases first.symm.trans walk
    exact smooth rfl rfl
  · cases second.symm.trans walk
    exact smooth rfl rfl

end Engine

/-! ### Steps that are not written down -/

/-- Logic that gathers what no durable store keeps. -/
def Logic.binary : Logic := fun _ _ => .done (.update (.ofFields [("words", .bytes [0])]))

namespace Engine

variable {w : Surroundings}

/-- A run of one step, which waits before its node. -/
def binary : Engine := { definition := .gathering .binary, config := { recursionLimit := 1, before := ["ask"] } }

/-- Where it waits. -/
def unspoken : Position := { node := "ask", state := [("words", .list [])] }

/-- What is kept of it. -/
def awaiting (id timestamp : Value) : Checkpoint :=
  ((unspoken.running "t" binary.config.metadata).paused "ask" .before .null).checkpoint "gathering" id timestamp

/-- The thread waits in a table, and nobody asks for its end. -/
structure Awaits (w : Surroundings) : Prop where
  table : ∃ t, w.store = .table t
  load : ∃ id timestamp, w.store.load "t" = .ok (some (awaiting id timestamp))
  undisturbed : w.Undisturbed "t"

/-- A resumption completes the node, cannot write it down, and leaves the thread waiting where it was. -/
theorem Awaits.resume (h : Awaits w) : ∃ run e entry v x,
    binary.Launches w (.resume "t" .null {}) run e entry v ∧ run.config.recursionLimit = 1 ∧
      run.Unrolls e entry v [⟨0, "ask", true⟩] x ∧ Awaits (binary.serve w (.resume "t" .null {})).1 := by
  obtain ⟨⟨t, table⟩, ⟨id, timestamp, load⟩, undisturbed⟩ := h
  let config : Config := binary.config.keeping binary.config
  let r : Resumption := ⟨config, unspoken.running "t" config.metadata, ⟨.str "ask", .null, .before⟩⟩
  have resumption : binary.resumption "t" {} w.store = .ok r :=
    resumption_of_paused (p := unspoken) (c := binary.config) (by decide) load
  have layer : binary.providers.layer ({} : CallOptions).providers = .ok [] := rfl
  let run : Engine := { binary with config, providers := [] }
  let v : Surroundings := reopened r "t" w
  let q : Pass := run.firstPass r.execution { resumed := true } v
  have launch := @Launches.resume binary w "t" .null {} r [] resumption layer
  have opened : v.Undisturbed "t" := by
    refine Surroundings.Undisturbed.emit (undisturbed.congr ?_ ?_) _ <;> rw [Surroundings.activate] <;> split <;> rfl
  have store : v.store = .table t := by
    rw [← table]
    exact (Surroundings.store_emit _ _).trans (Surroundings.store_activate _ _)
  let p : Position := { node := "ask", state := [("words", .list [.bytes [0]])], step := 1, history := ["ask"] }
  have inside : ("ask" : String) ≠ endMarker := by decide
  have left : ((1 : Int) - 0).toNat ≠ 0 := by decide
  have runs : run.Runs q := ⟨opened.uncancelled, inside, left, rfl⟩
  have reached : (run.turnAt q).2 = .reached p := rfl
  have told : (run.told q p).Undisturbed "t" := (opened.absorb rfl).emit _
  have kept : (run.told q p).store = .table t :=
    (Surroundings.store_emit _ _).trans store
  have free : "ask" ∉ run.config.after := mt Config.mem_nameSet.mp List.not_mem_nil
  obtain ⟨f, refused⟩ : ∃ f, (run.save (r.execution.arrived p) (run.told q p)).2 = .error f := by
    generalize run.told q p = u at kept ⊢
    obtain ⟨_, _, _, _, _, _, _, _⟩ := u
    cases kept
    exact ⟨_, rfl⟩
  have unsaved := save_of_refused refused
  have unrolls := unrolls_unsaved runs reached free rfl unsaved
  refine ⟨run, _, _, _, _, launch, rfl, unrolls, ?_⟩
  rw [launch.left_of_unrolls unrolls]
  refine ⟨⟨t, kept⟩, ⟨id, timestamp, ?_⟩, ?_⟩
  · rw [← load, table]
    exact congrArg (Store.load · "t") kept
  · exact ⟨Surroundings.isCancelled_release _ _, told.quiet⟩

/-- A new table takes the start of the run and that it waits. -/
theorem written_unspoken : ∃ t u : Store.Table,
    ({} : Store.Table).save ((unspoken.running "t" binary.config.metadata).checkpoint "gathering"
      (Surroundings.drawnId 0) (.int 0)) = .ok t ∧
    t.save (awaiting (Surroundings.drawnId 1) (.int 1)) = .ok u ∧
    u.load "t" = .ok (some (awaiting (Surroundings.drawnId 1) (.int 1))) := by
  have empty : ({} : Store.Table).Holds Store.Log.empty [] := by
    cases Store.holds_of_isNew (s := .table {}) rfl with
    | table h => exact h
  have state : (Value.ofFields unspoken.state).IsJson := by
    refine Value.isJson_ofFields (by decide) fun f hf => ?_
    rw [List.mem_singleton.mp hf]
    exact .list fun _ h => absurd h List.not_mem_nil
  have metadata : binary.config.metadata.IsJson := Config.isJson_metadata _
  have started : ((unspoken.running "t" binary.config.metadata).checkpoint "gathering" (Surroundings.drawnId 0)
      (.int 0)).Storable :=
    Store.storable_checkpoint Store.isDirectoryName_t state (fun _ h => by cases h) rfl metadata rfl rfl
  have waits : (awaiting (Surroundings.drawnId 1) (.int 1)).Storable := by
    refine Store.storable_checkpoint Store.isDirectoryName_t state (fun i h => ?_) rfl metadata rfl rfl
    cases h
    exact ⟨.str _, .null⟩
  obtain ⟨t, saved, holds⟩ := empty.save started List.not_mem_nil
  obtain ⟨u, saved', holds'⟩ := holds.save waits (by decide)
  exact ⟨t, u, saved, saved', holds'.load "t"⟩

/-- A start leaves the thread waiting. -/
theorem awaits_begun : ∃ run e entry v x,
    binary.Launches { store := .table {} } (.start "t" .null {}) run e entry v ∧ run.config.recursionLimit = 1 ∧
      run.Unrolls e entry v [] x ∧ Awaits (binary.serve { store := .table {} } (.start "t" .null {})).1 := by
  let w : Surroundings := { store := .table {} }
  let e : Execution := unspoken.running "t" binary.config.metadata
  have opening : binary.opening "t" .null {} (.table {}) = .ok (binary.config, e) :=
    opening_gathering .binary binary.config unspoken.state rfl
  obtain ⟨t, u, saved, saved', load⟩ := written_unspoken
  let opened : Surroundings := { w.joined "t" [] with store := .table t, drawn := 1 }
  have save : binary.save e (w.joined "t" []) = (opened, .ok _) := save_of_taken (Store.Table.write_of_save saved)
  have layer : binary.providers.layer ({} : CallOptions).providers = .ok [] := rfl
  have launch := @Launches.start binary w "t" .null {} binary.config e [] _ _ opening rfl save layer
  have undisturbed : opened.Undisturbed "t" := ⟨rfl, fun _ h => absurd h List.not_mem_nil⟩
  generalize hv : opened.emit _ = v at launch
  have around : v.Undisturbed "t" := hv ▸ undisturbed.emit _
  have unrolls : binary.Unrolls e {} v [] _ := unrolls_held around.uncancelled (by decide) (by decide) rfl
  have taken : v.store.write (binary.snapshot (e.paused "ask" .before .null) v) = (.table u, .ok ()) := by
    subst hv
    exact Store.Table.write_of_save saved'
  refine ⟨binary, e, {}, v, _, launch, rfl, unrolls, ?_⟩
  rw [launch.left_of_unrolls unrolls]
  rw [show (binary.pause e e.node .before .null v).1 = _ from pause_of_taken taken]
  refine ⟨⟨u, Surroundings.store_emit _ _⟩, ⟨Surroundings.drawnId 1, .int 1, ?_⟩,
    Surroundings.isCancelled_release _ _, ?_⟩
  · rw [show Store.load _ "t" = (Store.table u).load "t" from congrArg (Store.load · "t") (Surroundings.store_emit _ _)]
    exact load
  · have ended := (around.congr (v := { v with store := .table u, drawn := v.drawn + 1 }) rfl rfl).emit
    exact (ended _).quiet

/-- As what the node gathers is not written down, it is completed as often as the thread is resumed. -/
theorem exceeded (n : Nat) : ∃ w tally, Lives (.gathering .binary) (.table {}) w tally ∧ Awaits w ∧
    (tally "t").most = 1 ∧ (tally "t").done.length = n := by
  induction n with
  | zero =>
    obtain ⟨_, _, _, _, _, launch, one, unrolls, begun⟩ := awaits_begun
    have new : Lives (.gathering .binary) (.table {}) { store := .table {} } _ := .new rfl (.inl rfl)
    refine ⟨_, _, new.ran rfl launch unrolls, begun, ?_, ?_⟩ <;> rw [Request.thread, Function.update_self]
    · rw [Tally.most_ran, one]
      rfl
    · rfl
  | succ n ih =>
    obtain ⟨w, tally, lives, awaits, most, done⟩ := ih
    obtain ⟨_, _, _, _, _, launch, one, unrolls, left⟩ := awaits.resume
    refine ⟨_, _, lives.ran rfl launch unrolls, left, ?_, ?_⟩ <;> rw [Request.thread, Function.update_self]
    · rw [Tally.most_ran, one, most]
      rfl
    · rw [Tally.ran, List.length_append, done]
      rfl

end Engine

end Workflow
