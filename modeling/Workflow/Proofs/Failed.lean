import Workflow.Proofs.Registers

/-! # Failed runs

A call that fails puts one record after those that its store has of the thread when it fails: the last of them, failed,
or the run as it stands if there is none (`Engine.Records`). Main statement: where no node deletes them, the records
stay, and if every step is written down the state that is kept is the one after the last step that was merged and
routed (`failed_keeps_last`), but for a step after which the run was to pause and was asked to end
(`failed_loses_step`). -/

namespace Workflow

theorem Position.KeptAs.fields {durable : Bool} {p q : Position} (h : p.KeptAs durable q) :
    (Value.ofFields p.state).KeptAs durable (.ofFields q.state) := by
  have state := h.state
  cases durable with
  | false => exact congrArg Value.ofFields state
  | true => exact state

namespace Engine

open Surroundings

variable {g run : Engine} {q r a : Pass} {p : Position} {e : Execution} {w v : Surroundings} {f : Failure}
  {x : Ended} {o : Outcome} {thread : String} {request : Request} {entry : Entry} {durable : Bool}
  {cs : List Checkpoint}

/-! ### What is written down of a failure -/

/-- The record that a store keeps of a failure, after others of the thread: of the last one it changes what tells of the
    failure, and where there is none it is the run as it stands. The call is answered with the state of what was
    written. -/
structure Records (graph : String) (durable : Bool) (e : Execution) (f : Failure) (v : Surroundings) (cs : List Checkpoint)
    (d : Checkpoint) (state : Value) : Prop where
  last : ∀ b, cs.getLast? = some b → state = d.state ∧
    ∃ error, f.toValue.KeptAs durable error ∧ d = v.drawUp (b.failed error)
  none : cs = [] → state = .ofFields e.state ∧
    (v.drawUp ((e.failed f).checkpoint graph)).KeptAs durable d

/-- What a store keeps of the last record, failed: nothing else of it is changed. -/
theorem keptAs_failed {s : Store} {b d : Checkpoint} (has : s.Has thread cs) (kind : s.isDurable = durable)
    (hb : b ∈ cs) (kept : (v.drawUp (b.failed f.toValue)).KeptAs durable d) :
    ∃ error, f.toValue.KeptAs durable error ∧ d = v.drawUp (b.failed error) := by
  cases durable with
  | false => exact ⟨_, rfl, kept⟩
  | true =>
    obtain ⟨version, exact⟩ := has.exact kind hb
    exact Checkpoint.normal_failed exact version rfl rfl kept

/-- A failure that is answered puts its record after those of the thread. -/
theorem fail_recorded (listed : v.store.Listed durable) (own : e.thread = thread)
    (few : (g.fail e f v).1.store.Few thread) (ho : (g.fail e f v).2 = .ok o) :
    o.error = some f ∧ ∃ cs d, v.store.Has thread cs ∧ history thread v = .ok cs ∧
      history thread (g.fail e f v).1 = .ok (cs ++ [d]) ∧ Records g.definition.name durable e f v cs d o.state := by
  subst own
  obtain ⟨cs, has⟩ := listed.lists e.thread
  obtain ⟨snapshot, onto, taken, left, state⟩ := written_of_fail ho
  have own : (v.drawUp snapshot).thread = .str e.thread := onto.draws.own listed.toOwned _ _
  have version := onto.draws.version listed
  obtain ⟨-, d, kept, more⟩ | ⟨⟨_, refused⟩, -⟩ := has.write listed.toRanked own version
  · rw [left] at few
    have before : v.store.Few e.thread := few.of_write listed.toRanked
    obtain ⟨_, told, -⟩ := Store.load_written listed.toRanked version own few taken
    obtain ⟨after, -⟩ := more.told (listed.write own version).toRanked few told
    have last {b} (load : v.store.load e.thread = .ok b) := has.told listed.toRanked before load
    refine ⟨(outcome_of_fail ho).2.1, cs, d, has, ?_, ?_, ?_⟩
    · cases onto with
      | last load | none load => exact (last load).1
    · rw [history, left]
      exact after
    · cases onto with
      | @last b load =>
        have hb : cs.getLast? = some b := (last load).2.symm
        obtain ⟨error, same, rfl⟩ := keptAs_failed has listed.kind (List.mem_of_getLast? hb) kept
        constructor
        · intro b' hb'
          cases hb.symm.trans hb'
          exact ⟨state, error, same, rfl⟩
        · rintro rfl
          cases hb
      | none load =>
        have none : cs = [] := List.getLast?_eq_none_iff.mp (last load).2.symm
        constructor
        · intro b hb
          rw [none] at hb
          cases hb
        · exact fun _ => ⟨state, kept⟩
  · cases taken.symm.trans refused

/-! ### Records that stay -/

theorem store_after_of_spared (h : (g.turnAt q).1.forgotten = false) : (g.after q).store = q.around.store := by
  rw [after, absorb, h]
  split
  · exact store_requestCancel _ _
  · rfl

theorem store_told_of_spared (h : (g.turnAt q).1.forgotten = false) : (g.told q p).store = q.around.store :=
  (store_emit _ _).trans (store_after_of_spared h)

section Failing

variable (h : g.Fails q e v f)
include h

/-- A run fails in the store of its last pass, unless the node that was run there has deleted its records. -/
theorem Fails.store_eq (spared : g.Runs q → (g.turnAt q).1.forgotten = false) : v.store = q.around.store := by
  cases h with
  | cancelled | exhausted => rfl
  | withdrawn runs | failed runs => exact store_after_of_spared (spared runs)
  | revoked runs => exact store_told_of_spared (spared runs)

theorem Fails.stable {P : Surroundings → Prop} (stable : Stable g.definition.name q.execution.thread P)
    (hq : P q.around) : P v := by
  cases h with
  | cancelled | exhausted => exact hq
  | withdrawn | failed => exact stable_after stable hq
  | revoked => exact stable_told stable hq _

end Failing

/-- The store has more of the thread than the first records, and if every step is written down, the last one shows
    where the run stands, as the store keeps it. -/
structure Grows (g : Engine) (thread : String) (durable : Bool) (cs : List Checkpoint) (p : Position)
    (w : Surroundings) : Prop where
  listed : w.store.Listed durable
  records : ∃ ds b, w.store.Has thread (cs ++ ds) ∧ (cs ++ ds).getLast? = some b ∧
    (g.config.mode = .everyStep → ∃ q, p.KeptAs durable q ∧ b.Shows q)

/-- What is written down of a run shows where it stands. -/
theorem grows_saved {ds : List Checkpoint} {c : Checkpoint} (listed : w.store.Listed durable)
    (has : w.store.Has thread (cs ++ ds)) (save : g.save (p.running thread run.config.metadata) w = (v, .ok c)) :
    run.Grows thread durable cs p v := by
  have taken := (written_of_save (congrArg Prod.snd save)).2
  have left : v.store = (w.store.write (g.snapshot (p.running thread run.config.metadata) w)).1 :=
    congrArg (·.1.store) save.symm
  have own : (g.snapshot (p.running thread run.config.metadata) w).thread = .str thread := rfl
  obtain ⟨-, d, kept, more⟩ | ⟨⟨_, refused⟩, -⟩ := has.write listed.toRanked own fun _ => rfl
  · obtain ⟨q, same, depicts⟩ := (depicts_checkpoint .running).keptAs kept
    refine ⟨?_, ds ++ [d], d, ?_, ?_, fun _ => ⟨q, same, depicts.toShows⟩⟩
    · rw [left]
      exact listed.write own fun _ => rfl
    · rw [left, ← List.append_assoc]
      exact more
    · rw [← List.append_assoc, List.getLast?_concat]
  · cases taken.symm.trans refused

section Growing

variable (h : g.Grows thread durable cs p w)
include h

theorem Grows.goes (goes : g.Goes (g.passAt thread p entry w) r)
    (spared : (g.turnAt (g.passAt thread p entry w)).1.forgotten = false) :
    ∃ q v, r = g.passAt thread q {} v ∧ g.Grows thread durable cs q v := by
  obtain ⟨q, v, -, rfl, left⟩ := goes.at_position
  have same : (g.told (g.passAt thread p entry w) q).store = w.store := store_told_of_spared spared
  obtain ⟨ds, b, has, last, -⟩ := h.records
  refine ⟨q, v, rfl, ?_⟩
  rcases left with ⟨mode, rfl⟩ | ⟨c, save⟩
  · refine ⟨same ▸ h.listed, ds, b, same ▸ has, last, fun every => ?_⟩
    rw [mode] at every
    cases every
  · exact grows_saved (same ▸ h.listed) (same ▸ has) save

theorem Grows.passes (goes : Relation.ReflTransGen g.Goes (g.passAt thread p entry w) r)
    (spares : g.Spares (g.passAt thread p entry w)) :
    ∃ q entry v, r = g.passAt thread q entry v ∧ g.Grows thread durable cs q v := by
  induction goes with
  | refl => exact ⟨p, entry, w, rfl, h⟩
  | tail before step ih =>
    obtain ⟨q, entry, v, rfl, hq⟩ := ih
    obtain ⟨_, runs, -⟩ := step.reached
    obtain ⟨q', v', rfl, hq'⟩ := hq.goes step (spares _ before runs)
    exact ⟨q', {}, v', rfl, hq'⟩

end Growing

/-- A run that is launched has been written down, or stands where its thread was told to wait. -/
theorem Launches.grows (h : g.Launches w request run e entry v) (reached : w.store.Reached)
    (has : w.store.Has request.thread cs) (few : w.store.Few request.thread) :
    ∃ p : Position, e = p.running request.thread run.config.metadata ∧
      run.Grows request.thread w.store.isDurable cs p v := by
  have listed := reached.listed
  cases h with
  | @start thread input options config e providers v c opening names save =>
    obtain ⟨-, p, -, -, rfl⟩ := origin_of_opening opening
    rw [← List.append_nil cs] at has
    rw [← w.store_joined thread options.observers] at listed has ⊢
    obtain ⟨listed, records⟩ : Grows { g with config, providers } thread _ cs p v := grows_saved listed has save
    exact ⟨p, rfl, (store_emit _ _).symm ▸ listed, (store_emit _ _).symm ▸ records⟩
  | @resume thread value options r providers resumption =>
    obtain ⟨b, p, last, -, -, -, depicts, execution⟩ := resumption_of_depicts (reached.depicts thread) resumption
    have load := (lastCheckpoint_eq_ok_iff.mp last).1
    have told : some b = cs.getLast? := (has.told listed.toRanked few load).2
    have same : (reopened r thread w).store = w.store :=
      (store_emit _ _).trans (store_activate w thread)
    refine ⟨p, execution, same ▸ listed, [], b, ?_, ?_, fun _ => ⟨p, ⟨rfl, rfl, rfl, ?_⟩, depicts.toShows⟩⟩
    · rw [same, List.append_nil]
      exact has
    · rw [List.append_nil, told]
    · cases durable : w.store.isDurable with
      | false => rfl
      | true =>
        obtain ⟨version, exact⟩ := has.exact durable (List.mem_of_getLast? told.symm)
        have state := (Checkpoint.normal_eq_ok (Checkpoint.normal_of_exact exact version)).2.2.1
        rwa [depicts.state] at state

/-! ### Main statement -/

/-- The last step of a run that was both merged and routed has led to the position. -/
def Settled (g : Engine) (q : Pass) (p : Position) : Prop :=
  g.Runs q ∧ (g.turnAt q).2 = .reached p ∨
    p = q.execution.position ∧ ∀ t, ¬(g.Runs q ∧ (g.turnAt q).2 = .reached t)

/-- At a pass at which a run fails no step has been merged and routed since the last pass, unless the run was to
    pause after it. -/
theorem Fails.settled (h : g.Fails q e v f) (hp : g.Settled q p) :
    p = q.execution.position ∨ q.execution.node ∈ g.config.after ∧ f = .cancelled e.thread := by
  rcases hp with ⟨runs, hp⟩ | ⟨rfl, -⟩
  · cases h with
    | cancelled h =>
      cases h.symm.trans runs.uncancelled
    | exhausted _ h => exact absurd h runs.left
    | withdrawn _ h =>
      cases h.symm.trans hp
    | failed _ h =>
      cases h.symm.trans hp
    | revoked _ _ held => exact .inr ⟨held, rfl⟩
  · exact .inl rfl

/-- A request fails a run: a run that it launches comes to a pass at which it fails, or it is to end a run that waits,
    which is taken up from its last record. -/
inductive Fell (g : Engine) (w : Surroundings) : Request → Execution → Surroundings → Failure → Prop
  | run {request : Request} {run : Engine} {e e' : Execution} {entry : Entry} {u v : Surroundings} {q : Pass}
      {f : Failure} (launch : g.Launches w request run e entry u)
      (goes : Relation.ReflTransGen run.Goes (run.firstPass e entry u) q) (fails : run.Fails q e' v f) :
      Fell g w request e' v f
  | ended {thread : String} {c : Checkpoint} {e : Execution} (last : g.lastCheckpoint thread w.store = .ok c)
      (paused : c.status = .paused) (taken : Execution.ofCheckpoint c = .ok e) :
      Fell g w (.cancel thread) e w (.cancelled thread)

/-- No node that is run in the call deletes the records of its thread. -/
def SparesIn (g : Engine) (w : Surroundings) (request : Request) : Prop :=
  ∀ run e entry u, g.Launches w request run e entry u → run.Spares (run.firstPass e entry u)

/-- A request that is answered with a failure has failed a run, which is written down then. -/
theorem serve_fell (reached : w.store.Reached) (ho : (g.serve w request).2 = .ok (some o))
    (failed : o.status = .failed) : ∃ (run : Engine) (e : Execution) (v : Surroundings) (f : Failure),
      g.Fell w request e v f ∧ run.definition = g.definition ∧ v.store.Listed w.store.isDurable ∧
      e.thread = request.thread ∧ (run.fail e f v).2 = .ok o ∧
      (g.serve w request).1.store = (run.fail e f v).1.store := by
  have launched (runs : request ≠ .cancel request.thread ∧ request ≠ .delete request.thread) :
      ∃ (run : Engine) (e : Execution) (v : Surroundings) (f : Failure), g.Fell w request e v f ∧
        run.definition = g.definition ∧ v.store.Listed w.store.isDurable ∧ e.thread = request.thread ∧
        (run.fail e f v).2 = .ok o ∧ (g.serve w request).1.store = (run.fail e f v).1.store := by
    obtain ⟨run, e, entry, u, launch⟩ := exists_launch runs ho
    obtain ⟨p, -, rfl⟩ := launch.stands (reached.depicts _) fun _ _ _ _ _ _ => Definition.counts_of_origin
    obtain ⟨q, goes, ends⟩ := run.run_passes (run.passAt request.thread p entry u)
    have stable (graph : String) : Stock.Stable graph request.thread fun x => x.store.Listed w.store.isDurable :=
      stable_listed _ _ _
    have begun : u.store.Listed w.store.isDurable :=
      launch.stable (stableCalls_of_stock (stable _) (fun hx last => hx.own (Store.reads_of_load last)) _)
        reached.listed
    have kept : q.around.store.Listed w.store.isDurable :=
      passes_stable (P := fun w => w.store.Listed _) (stable_of_stock (stable _)) begun goes
    obtain ⟨e, v, f, fails, same⟩ := ends.fails (launch.run_answered ho) failed
    have own : q.execution.thread = request.thread := passes_thread goes
    refine ⟨run, e, v, f, .run launch goes fails, launch.definition_eq, ?_, fails.thread_eq.trans own, ?_, ?_⟩
    · exact fails.stable (P := fun w => w.store.Listed _) (own ▸ stable_of_stock (stable _)) kept
    · exact same ▸ launch.run_answered ho
    · rw [launch.serve_eq, ← same]
      rfl
  cases request with
  | start | resume => exact launched ⟨Request.noConfusion, Request.noConfusion⟩
  | cancel thread =>
    rcases g.cancel_leaves_or_ends thread w with ⟨-, untold⟩ | ⟨c, e, last, paused, taken, cancelled⟩
    · exact absurd ho (untold o)
    · have own := reached.owned.own (Store.reads_of_load (lastCheckpoint_eq_ok_iff.mp last).1)
      rw [serve, cancelled] at ho ⊢
      refine ⟨g, e, w, _, .ended last paused taken, rfl, reached.listed, ?_, ok_of_map_some ho, rfl⟩
      rw [thread_ofCheckpoint taken, own]
      rfl
  | delete thread =>
    simp only [serve] at ho
    cases deleted : (delete thread w).2 <;> rw [deleted] at ho <;> cases ho

/-- Of the thread of a run that is launched, something is told: what it waits for, or nothing that was written. -/
theorem Launches.load (h : g.Launches w request run e entry v) : ∃ last, w.store.load request.thread = .ok last := by
  cases h with
  | start opening =>
    simp only [Engine.opening, bind_eq_ok] at opening
    obtain ⟨_, -, _, -, last, load, -⟩ := opening
    exact ⟨last, load⟩
  | resume resumption =>
    obtain ⟨_, _, _, _, last, -⟩ := taken_of_resumption resumption
    exact ⟨_, (lastCheckpoint_eq_ok_iff.mp last).1⟩

/-- Where a run fails whose nodes have deleted no records, the store has those of before the call and more, and if every
    step is written down, the last one shows where the run stood at its last pass. -/
theorem Launches.grown {e' : Execution} {u : Surroundings} (h : g.Launches w request run e entry u)
    (goes : Relation.ReflTransGen run.Goes (run.firstPass e entry u) q) (fails : run.Fails q e' v f)
    (reached : w.store.Reached) (few : w.store.Few request.thread) (spares : run.Spares (run.firstPass e entry u))
    (has : w.store.Has request.thread cs) : ∃ ds b, v.store.Has request.thread (cs ++ ds) ∧
      (cs ++ ds).getLast? = some b ∧ (run.config.mode = .everyStep →
        ∃ q', q.execution.position.KeptAs w.store.isDurable q' ∧ b.Shows q') := by
  have left : v.store = q.around.store := fails.store_eq (spares q goes)
  obtain ⟨p, rfl, grows⟩ := h.grows reached has few
  obtain ⟨t, entry, u, rfl, grown⟩ := grows.passes goes spares
  obtain ⟨ds, b, has, last, shows⟩ := grown.records
  exact ⟨ds, b, left ▸ has, last, shows⟩

/-- A call that fails puts one record after those that it finds when it fails: the last one, failed, or the run as
    it stands if there is none. No other thread is touched. If its nodes have deleted no records, those of before
    the call stay, and if every step is written down, the state of the answer is the one after the last step that
    was merged and routed, as the store keeps it; but for a step after which the run was to pause and was asked to end,
    where it is the one before. -/
theorem failed_keeps_last (reached : w.store.Reached) (few : w.store.Few request.thread)
    (fewAfter : (g.serve w request).1.store.Few request.thread) (ho : (g.serve w request).2 = .ok (some o))
    (failed : o.status = .failed) :
    ∃ e v f cs d, g.Fell w request e v f ∧ o.error = some f ∧ history request.thread v = .ok cs ∧
      history request.thread (g.serve w request).1 = .ok (cs ++ [d]) ∧
      Records g.definition.name w.store.isDurable e f v cs d o.state ∧
      (∀ other, other ≠ request.thread → Store.Tells other w.store (g.serve w request).1.store) ∧
      (g.SparesIn w request → (∃ before, history request.thread w = .ok before ∧ before <+: cs) ∧ cs ≠ [] ∧
        ∀ run e' entry u q p, g.Launches w request run e' entry u →
          Relation.ReflTransGen run.Goes (run.firstPass e' entry u) q → run.Fails q e v f →
          run.config.mode = .everyStep → run.Settled q p →
            (Value.ofFields p.state).KeptAs w.store.isDurable o.state ∨
              q.execution.node ∈ run.config.after ∧ f = .cancelled request.thread ∧
                (Value.ofFields q.execution.state).KeptAs w.store.isDurable o.state) := by
  obtain ⟨run, e, v, f, fell, graph, listed, own, answer, left⟩ := serve_fell reached ho failed
  obtain ⟨error, cs, d, has, found, written, records⟩ := fail_recorded listed own (left ▸ fewAfter) answer
  rw [graph] at records
  refine ⟨e, v, f, cs, d, fell, error, found, ?_, records, fun other differs => ?_, fun spares => ?_⟩
  · rw [history, left]
    exact written
  · exact tells_serve reached.owned differs
  obtain ⟨before, hasBefore⟩ := reached.listed.lists request.thread
  have told {last} (load : w.store.load request.thread = .ok last) := hasBefore.told reached.listed.toRanked few load
  rw [← and_assoc]
  constructor
  · clear found written records answer left
    cases fell with
    | run launch goes fails =>
      obtain ⟨_, load⟩ := launch.load
      obtain ⟨ds, b, grown, last, -⟩ := launch.grown goes fails reached few (spares _ _ _ _ launch) hasBefore
      obtain rfl := has.unique grown
      refine ⟨⟨before, (told load).1, List.prefix_append _ _⟩, fun none => ?_⟩
      rw [none] at last
      cases last
    | ended last =>
      obtain ⟨list, last⟩ := told (lastCheckpoint_eq_ok_iff.mp last).1
      obtain rfl := has.unique hasBefore
      refine ⟨⟨cs, list, List.prefix_refl _⟩, fun none => ?_⟩
      rw [none] at last
      cases last
  · intro run e' entry u q p launch goes fails mode settled
    -- The last record shows where the run stood at the pass at which it failed.
    obtain ⟨ds, b, grown, last, shows⟩ := launch.grown goes fails reached few (spares _ _ _ _ launch) hasBefore
    obtain rfl := has.unique grown
    obtain ⟨q', same, shows⟩ := shows mode
    obtain ⟨state, error, -, rfl⟩ := records.last b last
    have kept : (Value.ofFields q.execution.state).KeptAs w.store.isDurable o.state := by
      rw [state, show (v.drawUp (b.failed error)).state = b.state from rfl, shows.state]
      exact same.fields
    rcases fails.settled settled with rfl | ⟨held, hf⟩
    · exact .inl kept
    · exact .inr ⟨held, own ▸ hf, kept⟩

end Engine

/-- Logic that gathers a word and asks for the end of its run. -/
def Logic.parting : Logic := fun _ _ => .cancel (.done (.update (.ofFields [("words", .str "tick")])))

namespace Engine

/-- The word that was gathered before the failure is kept, in a store that takes so many saves. -/
theorem failed_keeps_last_gathering :
    let g : Engine := { definition := .gathering .once }
    let w : Surroundings := { store := .limited [] 3 none }
    let request : Request := .start "t" .null {}
    ∃ o, (g.serve w request).2 = .ok (some o) ∧ o.status = .failed ∧ w.store.Reached ∧ w.store.Few request.thread ∧
      (g.serve w request).1.store.Few request.thread ∧
      o.state.equal (.ofFields [("words", .list [.str "tick"])]) = true ∧
      ∃ e v f cs d, g.Fell w request e v f ∧ o.error = some f ∧ history request.thread v = .ok cs ∧ cs.length = 2 ∧
        history request.thread (g.serve w request).1 = .ok (cs ++ [d]) ∧
        Records g.definition.name w.store.isDurable e f v cs d o.state := by
  intro g w request
  let kept : Value := .ofFields [("words", .list [.str "tick"])]
  have answer : ((g.serve w request).2.toOption.bind id).map (fun o => (o.status, o.state.equal kept)) =
      some (.failed, true) := by decide +kernel
  obtain ⟨o, ho, told⟩ := exists_of_answer answer
  have failed : o.status = .failed := congrArg Prod.fst told
  have reached : w.store.Reached := .unused (.inr ⟨3, none, rfl⟩)
  have few : w.store.Few request.thread := fun _ hf => nomatch hf
  have fewAfter : (g.serve w request).1.store.Few request.thread := by
    have kind : (g.serve w request).1.store.isDurable = false := by decide +kernel
    intro f hf
    rw [hf] at kind
    cases kind
  obtain ⟨e, v, f, cs, d, fell, error, found, written, records, -⟩ := failed_keeps_last reached few fewAfter ho failed
  have three : (history request.thread (g.serve w request).1).toOption.map List.length = some 3 := by decide +kernel
  have two : cs.length = 2 := by
    rw [written] at three
    simpa [Except.toOption] using three
  exact ⟨o, ho, failed, reached, few, fewAfter, congrArg Prod.snd told, e, v, f, cs, d, fell, error, found, two, written,
    records⟩

/-- A run that is to pause after its node, which asks for its end: the word has been gathered and the edge taken,
    but the state that is kept is the one before. -/
theorem failed_loses_step :
    let g : Engine := { definition := .gathering .parting, config := { after := ["ask"] } }
    let request : Request := .start "t" .null {}
    ∃ run e entry u e' v f p o, g.Launches {} request run e entry u ∧ run.Fails (run.firstPass e entry u) e' v f ∧
      run.config.mode = .everyStep ∧ run.Settled (run.firstPass e entry u) p ∧
      (g.serve {} request).2 = .ok (some o) ∧ o.status = .failed ∧ o.steps = p.step ∧
      o.state ≠ .ofFields p.state := by
  intro g request
  let e : Execution := { thread := "t", node := "ask", state := [("words", .list [])], metadata := g.config.metadata }
  let p : Position := { node := "ask", state := [("words", .list [.str "tick"])], step := 1, history := ["ask"] }
  let a : Pass := g.firstPass e {} (g.opened e [] {})
  have opening : g.opening "t" .null {} ({} : Surroundings).store = .ok (g.config, e) := rfl
  have memory : (({} : Surroundings).joined "t" []).InMemory := ⟨[], rfl⟩
  have launches : g.Launches {} request g e {} (g.opened e [] {}) := .start opening rfl (save_snapshot memory) rfl
  have runs : g.Runs a := ⟨by decide +kernel, by decide +kernel, by decide +kernel, by decide +kernel⟩
  have reached : (g.turnAt a).2 = .reached p := rfl
  have cancelled : (g.told a p).isCancelled a.execution.thread = true := by decide +kernel
  have answer : ((g.serve {} request).2.toOption.bind id).map
      (fun o => (o.status, o.steps, o.state.equal (.ofFields e.state))) = some (.failed, 1, true) := by decide +kernel
  obtain ⟨o, ho, told⟩ := exists_of_answer answer
  simp only [Prod.mk.injEq] at told
  obtain ⟨status, steps, kept⟩ := told
  refine ⟨g, e, {}, _, _, _, _, p, o, launches, .revoked runs reached List.mem_cons_self cancelled, rfl,
    .inl ⟨runs, reached⟩, ho, status, steps, fun same => ?_⟩
  rw [same] at kept
  revert kept
  decide +kernel

end Engine

end Workflow
