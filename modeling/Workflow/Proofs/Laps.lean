import Workflow.Proofs.Requests

/-! The loop of a run without a count of the steps that are left: whenever it comes to a node, it compares the steps
    that the run has taken with the bound (`lap`). Main statements: the loop of every call comes to an end, as its laps
    do (`unrolls_run`); it runs nodes at consecutive steps below the bound (`Unrolls.consecutive`); and a call is
    answered with the number of the executions that were completed (`Unrolls.steps_eq`). -/

namespace Workflow

/-- A node that is run. Its execution is completed when its update has been merged and the step is counted. -/
structure Attempt where
  step : Int
  node : String
  completed : Bool
  deriving DecidableEq

/-- The step from `step` on is counted. -/
def Stride.completes (step : Int) : Stride → Bool
  | .reached _ => true
  | .failed p _ => p.step == step + 1
  | .suspended _ | .lost _ => false

/-- How many executions were completed. -/
def completions (t : List Attempt) : Nat := (t.filter Attempt.completed).length

theorem completions_append (t u : List Attempt) : completions (t ++ u) = completions t + completions u := by
  rw [completions, List.filter_append, List.length_append]
  rfl

theorem completions_le (t : List Attempt) : completions t ≤ t.length := List.length_filter_le _ _

namespace Definition

variable {d : Definition} {i : Invocation} {thread : String} {p q : Position} {f : Failure} {calls : CallLog}

/-- A step that fails was counted, or left the run where it was. -/
theorem step_of_failed {answer : Except Failure StepOutcome} (h : d.stride p answer = .failed q f) :
    q.step = p.step ∨ q.step = p.step + 1 := by
  unfold stride at h
  split at h
  · cases h
    exact .inl rfl
  · cases h
  · split at h
    · cases h
      exact .inl rfl
    · dsimp only at h
      split at h
      · cases h
      · split at h <;> cases h
        exact .inr rfl

theorem step_of_turn_failed (h : (d.turn i thread p calls).2 = .failed q f) :
    q.step = p.step ∨ q.step = p.step + 1 := by
  unfold turn at h
  split at h
  · cases h
  · exact step_of_failed h

theorem lost_of_node?_none (h : d.node? p.node = none) :
    (d.turn i thread p calls).2 = .lost (.key (.str p.node)) := by
  rw [turn, h]

end Definition

namespace Engine

variable {g run : Engine} {e e' : Execution} {entry : Entry} {w v : Surroundings} {x : Ended} {q r : Pass}
  {t : List Attempt} {request : Request}

/-! ### Laps -/

/-- What the loop does when it comes to a node: it ends the call, or goes on to the next node. -/
def lap (g : Engine) (e : Execution) (entry : Entry) (w : Surroundings) : Ended ⊕ (Execution × Surroundings) :=
  if w.isCancelled e.thread then .inl (g.fail e (.cancelled e.thread) w)
  else if e.node = endMarker then .inl (g.complete e w)
  else if g.config.recursionLimit ≤ e.step then .inl (g.fail e (g.exhausted e) w)
  else
    match g.visit e entry w with
    | (w, .moved e) => .inr (e, w)
    | (w, .pause e node kind prompt) => .inl (g.pause e node kind prompt w)
    | (w, .fail e f) => .inl (g.fail e f w)
    | (w, .raise f) => .inl (w, .error f)

/-- The node that is run in a lap, if one is. -/
def attempts (g : Engine) (e : Execution) (entry : Entry) (w : Surroundings) : List Attempt :=
  if w.isCancelled e.thread ∨ e.node = endMarker ∨ g.config.recursionLimit ≤ e.step ∨ g.holds e entry ∨
      (g.definition.node? e.node).isNone then []
  else [⟨e.step, e.node, (g.turnAt (g.firstPass e entry w)).2.completes e.step⟩]

/-- The laps from an execution on come to an end of the call, and run these nodes. -/
inductive Unrolls (g : Engine) : Execution → Entry → Surroundings → List Attempt → Ended → Prop
  | ends {e : Execution} {entry : Entry} {w : Surroundings} {x : Ended} (h : g.lap e entry w = .inl x) :
      Unrolls g e entry w (g.attempts e entry w) x
  | goes {e e' : Execution} {entry : Entry} {w v : Surroundings} {t : List Attempt} {x : Ended}
      (h : g.lap e entry w = .inr (e', v)) (rest : Unrolls g e' {} v t x) :
      Unrolls g e entry w (g.attempts e entry w ++ t) x

theorem Unrolls.unique {t' : List Attempt} {x' : Ended} (h : g.Unrolls e entry w t x)
    (h' : g.Unrolls e entry w t' x') : t = t' ∧ x = x' := by
  induction h generalizing t' with
  | ends h =>
    cases h' with
    | ends h' =>
      cases h.symm.trans h'
      exact ⟨rfl, rfl⟩
    | goes h' => cases h.symm.trans h'
  | goes h _ ih =>
    cases h' with
    | ends h' => cases h.symm.trans h'
    | goes h' rest =>
      cases h.symm.trans h'
      obtain ⟨rfl, rfl⟩ := ih rest
      exact ⟨rfl, rfl⟩

/-! ### Laps as passes -/

theorem left_firstPass : (g.firstPass e entry w).left = 0 ↔ g.config.recursionLimit ≤ e.step := by
  show (g.config.recursionLimit - e.step).toNat = 0 ↔ _
  omega

theorem visit_of_held (h : g.holds e entry = true) : g.visit e entry w = (w, .pause e e.node .before .null) := by
  rw [visit_eq, if_pos h]

theorem visit_of_runs (h : g.holds q.execution q.entry = false) : g.visit q.execution q.entry q.around =
    g.follow q.execution (g.after q) (g.turnAt q).2 := by
  rw [visit_eq, if_neg (ne_true_of_eq_false h)]
  rfl

/-- A node that the run goes on from was run, and its step reached the next node. -/
theorem goes_of_moved (uncancelled : q.around.isCancelled q.execution.thread = false)
    (inside : q.execution.node ≠ endMarker) (left : q.left ≠ 0)
    (h : g.visit q.execution q.entry q.around = (v, .moved e')) : g.Goes q ⟨q.left - 1, e', {}, v⟩ := by
  cases held : g.holds q.execution q.entry with
  | true =>
    rw [visit_of_held held] at h
    cases h
  | false =>
    have runs : g.Runs q := ⟨uncancelled, inside, left, held⟩
    rw [visit_of_runs held] at h
    cases hs : (g.turnAt q).2 with
    | suspended prompt =>
      rw [hs, follow] at h
      split at h <;> cases h
    | failed p f =>
      rw [hs] at h
      cases h
    | lost f =>
      rw [hs] at h
      cases h
    | reached p =>
      rw [hs, follow_reached] at h
      split at h
      · split at h <;> cases h
      rename_i free
      have free : q.execution.node ∉ g.config.after := fun mem => free (List.contains_iff_mem.mpr mem)
      cases mode : g.config.mode with
      | interruptsOnly =>
        rw [mode] at h
        cases h
        exact .unsaved runs hs free mode
      | everyStep =>
        rw [mode] at h
        dsimp only at h
        rcases save : g.save (q.execution.arrived p) (g.told q p) with ⟨u, f | c⟩ <;> rw [save] at h <;> cases h
        exact .saved runs hs free mode save

theorem Goes.reached (h : g.Goes q r) : ∃ p, g.Runs q ∧ (g.turnAt q).2 = .reached p ∧
    r.execution = q.execution.arrived p ∧ r.entry = {} ∧ r.left = q.left - 1 := by
  cases h with
  | unsaved runs reached => exact ⟨_, runs, reached, rfl, rfl, rfl⟩
  | saved runs reached => exact ⟨_, runs, reached, rfl, rfl, rfl⟩

theorem Goes.step_eq (h : g.Goes q r) : r.execution.step = q.execution.step + 1 := by
  obtain ⟨p, -, reached, hr, -⟩ := h.reached
  rw [hr]
  exact (Definition.step_of_turn_reached reached).1

/-- A lap that goes on is a pass that does. -/
theorem goes_of_lap (h : g.lap e entry w = .inr (e', v)) :
    g.Goes (g.firstPass e entry w) (g.firstPass e' {} v) := by
  unfold lap at h
  split at h
  · cases h
  rename_i uncancelled
  split at h
  · cases h
  rename_i inside
  split at h
  · cases h
  rename_i below
  split at h <;> cases h
  rename_i moved
  have goes := goes_of_moved (q := g.firstPass e entry w) (Bool.eq_false_iff.mpr uncancelled) inside
    (mt left_firstPass.mp below) moved
  have step : e'.step = e.step + 1 := goes.step_eq
  have left : (g.firstPass e entry w).left - 1 = g.stepsLeft e' := by
    show (g.config.recursionLimit - e.step).toNat - 1 = (g.config.recursionLimit - e'.step).toNat
    omega
  rw [left] at goes
  exact goes

/-- The loop does what its first lap does, and goes on with the next one. -/
theorem run_eq_lap (g : Engine) (e : Execution) (entry : Entry) (w : Surroundings) :
    g.run (g.firstPass e entry w) = match g.lap e entry w with
      | .inl x => x
      | .inr (e', v) => g.run (g.firstPass e' {} v) := by
  cases h : g.lap e entry w with
  | inr next =>
    obtain ⟨e', v⟩ := next
    exact (goes_of_lap h).run_eq
  | inl x =>
    rw [run_eq]
    dsimp only
    unfold lap at h
    split at h
    · rename_i cancelled
      cases h
      exact if_pos cancelled
    rename_i uncancelled
    refine (if_neg uncancelled).trans ?_
    split at h
    · rename_i ended
      cases h
      exact if_pos ended
    rename_i inside
    refine (if_neg inside).trans ?_
    split at h
    · rename_i spent
      cases h
      rw [left_firstPass.mpr spent]
      rfl
    rename_i below
    obtain ⟨left, hleft⟩ := Nat.exists_eq_succ_of_ne_zero (mt left_firstPass.mp below)
    rw [hleft]
    dsimp only
    show (match g.visit e entry w with
      | (w, .moved e) => g.run ⟨left, e, {}, w⟩
      | (w, .pause e node kind prompt) => g.pause e node kind prompt w
      | (w, .fail e f) => g.fail e f w
      | (w, .raise f) => (w, .error f)) = x
    rcases hv : g.visit e entry w with ⟨u, e' | _ | _ | _⟩ <;> rw [hv] at h <;> cases h <;> rfl

theorem Goes.visit_eq (h : g.Goes q r) :
    g.visit q.execution q.entry q.around = (r.around, .moved r.execution) := by
  cases h with
  | unsaved runs reached free mode =>
    rw [visit_of_runs runs.free, reached, follow_reached, if_neg (mt List.contains_iff_mem.mp free), mode]
  | saved runs reached free mode save =>
    rw [visit_of_runs runs.free, reached, follow_reached, if_neg (mt List.contains_iff_mem.mp free), mode]
    dsimp only
    rw [save]

/-- A lap that ends the call is a pass that does. -/
theorem ends_of_lap (h : g.lap e entry w = .inl x) : g.Ends (g.firstPass e entry w) x := by
  have run : g.run (g.firstPass e entry w) = x := by rw [run_eq_lap, h]
  rcases g.goes_or_ends (g.firstPass e entry w) with ⟨r, goes⟩ | ends
  · obtain ⟨-, runs, -⟩ := goes.reached
    have uncancelled : ¬w.isCancelled e.thread = true := ne_true_of_eq_false runs.uncancelled
    have inside : ¬e.node = endMarker := runs.inside
    have moved : g.visit e entry w = (r.around, .moved r.execution) := goes.visit_eq
    rw [lap, if_neg uncancelled, if_neg inside, if_neg (mt left_firstPass.mpr runs.left), moved] at h
    cases h
  · exact run ▸ ends

/-! ### Nodes that are run -/

theorem attempts_of_runs (runs : g.Runs (g.firstPass e entry w))
    (found : ∀ f, (g.turnAt (g.firstPass e entry w)).2 ≠ .lost f) :
    g.attempts e entry w = [⟨e.step, e.node, (g.turnAt (g.firstPass e entry w)).2.completes e.step⟩] := by
  refine if_neg ?_
  rintro (cancelled | ended | spent | held | absent)
  · exact ne_true_of_eq_false runs.uncancelled cancelled
  · exact runs.inside ended
  · exact runs.left (left_firstPass.mpr spent)
  · exact ne_true_of_eq_false runs.free held
  · exact found _ (Definition.lost_of_node?_none (p := e.position) (Option.isNone_iff_eq_none.mp absent))

theorem attempts_of_goes (h : g.Goes (g.firstPass e entry w) r) :
    e.step < g.config.recursionLimit ∧ g.attempts e entry w = [⟨e.step, e.node, true⟩] := by
  obtain ⟨p, runs, reached, -⟩ := h.reached
  have found : ∀ f, (g.turnAt (g.firstPass e entry w)).2 ≠ .lost f := fun f lost => by
    cases reached.symm.trans lost
  refine ⟨Int.not_le.mp (mt left_firstPass.mpr runs.left), ?_⟩
  rw [attempts_of_runs runs found, reached]
  rfl

/-- A run that pauses before its node does not run it. -/
theorem unrolls_held (uncancelled : w.isCancelled e.thread = false) (inside : e.node ≠ endMarker)
    (below : e.step < g.config.recursionLimit) (held : g.holds e entry = true) :
    g.Unrolls e entry w [] (g.pause e e.node .before .null w) := by
  have lap : g.lap e entry w = .inl (g.pause e e.node .before .null w) := by
    rw [Engine.lap, if_neg (ne_true_of_eq_false uncancelled), if_neg inside, if_neg (Int.not_le.mpr below),
      visit_of_held held]
  have none : g.attempts e entry w = [] := if_pos (.inr (.inr (.inr (.inl held))))
  exact none ▸ .ends lap

/-- A call whose first step is not written down has completed it, and raises. -/
theorem unrolls_unsaved {p : Position} {f : Fault} (runs : g.Runs (g.firstPass e entry w))
    (reached : (g.turnAt (g.firstPass e entry w)).2 = .reached p) (free : e.node ∉ g.config.after)
    (mode : g.config.mode = .everyStep)
    (save : g.save (e.arrived p) (g.told (g.firstPass e entry w) p) = (v, .error f)) :
    g.Unrolls e entry w [⟨e.step, e.node, true⟩] (v, .error f) := by
  have uncancelled : ¬w.isCancelled e.thread = true := ne_true_of_eq_false runs.uncancelled
  have inside : ¬e.node = endMarker := runs.inside
  have free : ¬g.config.after.contains (g.firstPass e entry w).execution.node = true := mt List.contains_iff_mem.mp free
  have visit := visit_of_runs runs.free
  rw [reached, follow_reached, if_neg free, mode] at visit
  dsimp only at visit
  rw [show g.save ((g.firstPass e entry w).execution.arrived p) _ = _ from save] at visit
  have lap : g.lap e entry w = .inl (v, .error f) := by
    rw [Engine.lap, if_neg uncancelled, if_neg inside, if_neg (mt left_firstPass.mpr runs.left),
      show g.visit e entry w = _ from visit]
  have attempts := attempts_of_runs runs fun f lost => nomatch reached.symm.trans lost
  rw [reached] at attempts
  exact (show g.attempts e entry w = [⟨e.step, e.node, true⟩] from attempts) ▸ .ends lap

/-- In a lap, one node at most is run, below the bound. -/
theorem attempts_bounded (g : Engine) (e : Execution) (entry : Entry) (w : Surroundings) :
    (g.attempts e entry w).length ≤ (g.config.recursionLimit - e.step).toNat ∧
      ∀ (i : Nat) a, (g.attempts e entry w)[i]? = some a → a.step = e.step + i := by
  unfold attempts
  split
  · exact ⟨Nat.zero_le _, fun i a ha => by cases ha⟩
  · rename_i h
    simp only [not_or] at h
    refine ⟨?_, fun i a ha => ?_⟩
    · rw [List.length_singleton]
      omega
    · cases i with
      | zero =>
        cases ha
        exact (Int.add_zero _).symm
      | succ i => cases ha

/-- Nodes are run at consecutive steps, below the bound. -/
theorem Unrolls.consecutive (h : g.Unrolls e entry w t x) :
    t.length ≤ (g.config.recursionLimit - e.step).toNat ∧ ∀ (i : Nat) a, t[i]? = some a → a.step = e.step + i := by
  induction h with
  | ends => exact g.attempts_bounded _ _ _
  | @goes e e' entry w v t x h _ ih =>
    have goes := goes_of_lap h
    have step : e'.step = e.step + 1 := goes.step_eq
    obtain ⟨below, one⟩ := attempts_of_goes goes
    obtain ⟨length, steps⟩ := ih
    rw [one]
    refine ⟨?_, fun i a ha => ?_⟩
    · rw [List.length_append, List.length_singleton]
      omega
    · cases i with
      | zero =>
        cases ha
        exact (Int.add_zero _).symm
      | succ i =>
        have := steps i a ha
        push_cast
        omega

/-- The loop of a call comes to an end, as its laps do. -/
theorem unrolls_run (g : Engine) (e : Execution) (entry : Entry) (w : Surroundings) :
    ∃ t, g.Unrolls e entry w t (g.run (g.firstPass e entry w)) := by
  -- A lap that goes on takes one of the steps that are left below the bound.
  induction hn : g.stepsLeft e using Nat.strongRecOn generalizing e entry w with
  | ind n ih =>
    rw [run_eq_lap]
    cases h : g.lap e entry w with
    | inl x => exact ⟨_, .ends h⟩
    | inr next =>
      obtain ⟨e', v⟩ := next
      obtain ⟨t, rest⟩ := ih (g.stepsLeft e') (hn ▸ (goes_of_lap h).left_lt) e' {} v rfl
      exact ⟨_, .goes h rest⟩

/-- What the laps of a call come to is what its loop ends with. -/
theorem Unrolls.eq_run (h : g.Unrolls e entry w t x) : x = g.run (g.firstPass e entry w) := by
  obtain ⟨t', h'⟩ := g.unrolls_run e entry w
  exact (h.unique h').2

/-! ### Steps that are told -/

variable {o : Outcome} {f : Failure}

theorem outcome_of_pause {node : String} {kind : InterruptKind} {prompt : Value}
    (h : (g.pause e node kind prompt w).2 = .ok o) : o.status = .paused ∧ o.steps = e.step := by
  unfold pause at h
  dsimp only at h
  split at h <;> cases h
  exact ⟨rfl, rfl⟩

theorem outcome_of_complete (h : (g.complete e w).2 = .ok o) :
    o.status = .completed ∧ o.state = .ofFields e.state ∧ o.steps = e.step := by
  unfold complete at h
  dsimp only at h
  split at h <;> cases h
  exact ⟨rfl, rfl, rfl⟩

theorem outcome_of_fail (h : (g.fail e f w).2 = .ok o) :
    o.status = .failed ∧ o.error = some f ∧ o.steps = e.step := by
  unfold fail at h
  dsimp only at h
  split at h <;> cases h
  exact ⟨rfl, rfl, rfl⟩

theorem steps_of_lap (h : g.lap e entry w = .inl x) (ho : x.2 = .ok o) :
    o.steps = e.step + completions (g.attempts e entry w) := by
  have idle (hnone : w.isCancelled e.thread ∨ e.node = endMarker ∨ g.config.recursionLimit ≤ e.step ∨
      g.holds e entry ∨ (g.definition.node? e.node).isNone) : completions (g.attempts e entry w) = 0 := by
    rw [attempts, if_pos hnone]
    rfl
  have ran (runs : g.Runs (g.firstPass e entry w)) {s : Stride} (hs : (g.turnAt (g.firstPass e entry w)).2 = s)
      (found : ∀ f, s ≠ .lost f) : completions (g.attempts e entry w) = if s.completes e.step then 1 else 0 := by
    rw [attempts_of_runs runs (hs ▸ found), hs]
    cases s.completes e.step <;> rfl
  have ends := ends_of_lap h
  cases ends with
  | cancelled cancelled =>
    rw [idle (.inl cancelled), (outcome_of_fail ho).2.2]
    exact (Int.add_zero _).symm
  | completed _ ended =>
    rw [idle (.inr (.inl ended)), (outcome_of_complete ho).2.2]
    exact (Int.add_zero _).symm
  | exhausted _ _ spent =>
    rw [idle (.inr (.inr (.inl (left_firstPass.mp spent)))), (outcome_of_fail ho).2.2]
    exact (Int.add_zero _).symm
  | held _ _ _ held =>
    rw [idle (.inr (.inr (.inr (.inl held)))), (outcome_of_pause ho).2]
    exact (Int.add_zero _).symm
  | suspended runs hs =>
    rw [ran runs hs fun _ => Stride.noConfusion, (outcome_of_pause ho).2]
    exact (Int.add_zero _).symm
  | withdrawn runs hs =>
    rw [ran runs hs fun _ => Stride.noConfusion, (outcome_of_fail ho).2.2]
    exact (Int.add_zero _).symm
  | @failed p _ runs hs =>
    rw [ran runs hs fun _ => Stride.noConfusion, (outcome_of_fail ho).2.2]
    show p.step = _
    have counted : p.step = e.step ∨ p.step = e.step + 1 := Definition.step_of_turn_failed hs
    rcases counted with same | next
    · have uncounted : (p.step == e.step + 1) = false := beq_eq_false_iff_ne.mpr (by omega)
      rw [Stride.completes, uncounted, same]
      exact (Int.add_zero _).symm
    · rw [Stride.completes, next, beq_self_eq_true]
      rfl
  | lost => cases ho
  | paused runs hs =>
    rw [ran runs hs fun _ => Stride.noConfusion, (outcome_of_pause ho).2]
    exact (Definition.step_of_turn_reached hs).1
  | revoked runs hs =>
    rw [ran runs hs fun _ => Stride.noConfusion, (outcome_of_fail ho).2.2]
    exact (Definition.step_of_turn_reached hs).1
  | unsaved => cases ho

/-- A call is answered with the steps that were taken before it and the executions that were completed in it. -/
theorem Unrolls.steps_eq (h : g.Unrolls e entry w t x) (ho : x.2 = .ok o) : o.steps = e.step + completions t := by
  induction h with
  | ends h => exact steps_of_lap h ho
  | @goes e e' entry w v t x h _ ih =>
    have goes := goes_of_lap h
    have step : e'.step = e.step + 1 := goes.step_eq
    rw [(attempts_of_goes goes).2, completions_append, ih ho, step]
    show _ = e.step + ((1 + completions t : Nat) : Int)
    push_cast
    omega

/-! ### Calls -/

/-- A new run stands where its walk starts. -/
theorem origin_of_opening {thread : String} {input : Value} {overrides : Overrides} {config : Config}
    (h : g.opening thread input overrides w.store = .ok (config, e)) :
    g.config.override overrides = .ok config ∧
      ∃ p, g.definition.origin? input = some p ∧ p.step = 0 ∧ e = p.running thread config.metadata := by
  simp only [opening, bind_eq_ok] at h
  obtain ⟨_, ho, state, hs, _, -, h⟩ := h
  split at h
  · cases h
  split at h <;> cases h
  rename_i node hn
  refine ⟨ho, ⟨node, state, 0, []⟩, ?_, rfl, rfl⟩
  rw [Definition.origin?, hn, hs]
  rfl

/-- The run of a request that is not refused, with the engine of the call: as it stands when it comes to its first
    node, how it enters it, and what surrounds it. -/
inductive Launches (g : Engine) (w : Surroundings) : Request → Engine → Execution → Entry → Surroundings → Prop
  | start {thread : String} {input : Value} {options : CallOptions} {config : Config} {e : Execution}
      {providers : Providers} {v : Surroundings} {c : Checkpoint}
      (opening : g.opening thread input options.overrides w.store = .ok (config, e))
      (names : options.overrides.checkNames = .ok ())
      (save : g.save e (w.joined thread options.observers) = (v, .ok c))
      (layer : g.providers.layer options.providers = .ok providers) :
      Launches g w (.start thread input options) { g with config, providers } e {}
        (v.emit { kind := .runStarted, thread := e.thread, node := e.node
                  data := [("graph", .str g.definition.name)] })
  | resume {thread : String} {value : Value} {options : CallOptions} {r : Resumption} {providers : Providers}
      (resumption : g.resumption thread options.overrides w.store = .ok r)
      (layer : g.providers.layer options.providers = .ok providers) :
      Launches g w (.resume thread value options) { g with config := r.config, providers } r.execution
        (entryAfter r.interrupt.kind value) (reopened r thread w)

/-- A run that is launched is answered with what its loop ends with. -/
theorem Launches.serve_eq (h : g.Launches w request run e entry v) : g.serve w request =
    ((run.run (run.firstPass e entry v)).1.release request.thread,
      ((run.run (run.firstPass e entry v)).2.mapError (withHint e.thread)).map some) := by
  cases h with
  | start opening names save layer =>
    simp only [serve, Engine.start, opening, names, begin, save, proceed, forCall, layer, Request.thread]
    rfl
  | resume resumption layer =>
    simp only [serve, Engine.resume, resumption, proceed, forCall, layer, Request.thread]
    rfl

/-- What the last lap of a run leaves is what the call leaves, which is over. -/
theorem Launches.left_of_unrolls (h : g.Launches w request run e entry v) (unrolls : run.Unrolls e entry v t x) :
    (g.serve w request).1 = x.1.release request.thread := by
  rw [h.serve_eq, ← unrolls.eq_run]

theorem Launches.definition_eq (h : g.Launches w request run e entry v) : run.definition = g.definition := by
  cases h <;> rfl

/-- In memory, the runs that are launched are those that requests enter. -/
theorem Launches.enters (h : g.Launches w request run e entry v) (hm : w.InMemory) :
    g.Enters w request run (run.firstPass e entry v) := by
  cases h with
  | @start thread input options config e providers v c opening names save layer =>
    obtain rfl : e.thread = thread := thread_of_opening hm opening
    have opened : v.emit { kind := .runStarted, thread := e.thread, node := e.node
                           data := [("graph", .str g.definition.name)] } = g.opened e options.observers w := by
      rw [save_snapshot (hm.joined e.thread options.observers)] at save
      cases save
      rfl
    rw [opened]
    exact .start opening names layer
  | resume resumption layer => exact .resume resumption layer

theorem Enters.launches {q : Pass} (h : g.Enters w request run q) (hm : w.InMemory) :
    ∃ e entry v, g.Launches w request run e entry v := by
  cases h with
  | @start thread input options config e providers opening names layer =>
    exact ⟨_, _, _, .start opening names (save_snapshot (hm.joined thread options.observers)) layer⟩
  | resume resumption layer => exact ⟨_, _, _, .resume resumption layer⟩

/-- Where a start or a resumption ends that launches no run, and what surrounds it there. -/
inductive Unlaunched (g : Engine) (w : Surroundings) : Request → Surroundings → Prop
  | unopened {thread : String} {input : Value} {options : CallOptions} : Unlaunched g w (.start thread input options) w
  | unordered {thread : String} {input : Value} {options : CallOptions} :
      Unlaunched g w (.start thread input options) (w.attended thread options.observers)
  | unwritten {thread : String} {input : Value} {options : CallOptions} {config : Config} {e : Execution} {f : Fault}
      {v : Surroundings} (opening : g.opening thread input options.overrides w.store = .ok (config, e))
      (save : g.save e (w.joined thread options.observers) = (v, .error f)) :
      Unlaunched g w (.start thread input options) (v.release thread)
  | unprovided {thread : String} {input : Value} {options : CallOptions} {config : Config} {e : Execution}
      {c : Checkpoint} {v : Surroundings} (ev : Event)
      (opening : g.opening thread input options.overrides w.store = .ok (config, e))
      (save : g.save e (w.joined thread options.observers) = (v, .ok c)) :
      Unlaunched g w (.start thread input options) ((v.emit ev).release thread)
  | unresumed {thread : String} {value : Value} {options : CallOptions} :
      Unlaunched g w (.resume thread value options) w
  | unserved {thread : String} {value : Value} {options : CallOptions} {r : Resumption} :
      Unlaunched g w (.resume thread value options) ((reopened r thread w).release thread)

/-- A start or a resumption launches a run, or is answered with a fault. -/
theorem launches_or_unlaunched (runs : request ≠ .cancel request.thread ∧ request ≠ .delete request.thread) :
    (∃ run e entry v, g.Launches w request run e entry v) ∨
      ∃ v f, g.Unlaunched w request v ∧ g.serve w request = (v, .error f) := by
  cases request with
  | start thread input options =>
    cases opening : g.opening thread input options.overrides w.store with
    | error f => exact Or.inr ⟨w, f, .unopened, by simp only [serve, Engine.start, opening]; rfl⟩
    | ok x =>
      obtain ⟨config, e⟩ := x
      cases names : options.overrides.checkNames with
      | error f => exact Or.inr ⟨_, f, .unordered, by simp only [serve, Engine.start, opening, names]; rfl⟩
      | ok =>
        rcases save : g.save e (w.joined thread options.observers) with ⟨v, f | c⟩
        · refine Or.inr ⟨_, f, .unwritten opening save, ?_⟩
          simp only [serve, Engine.start, opening, names, begin, save]
          rfl
        · cases layer : g.providers.layer options.providers with
          | error f =>
            refine Or.inr ⟨_, f, .unprovided { kind := .runStarted, thread := e.thread, node := e.node
                                               data := [("graph", .str g.definition.name)] } opening save, ?_⟩
            simp only [serve, Engine.start, opening, names, begin, save, proceed, forCall, layer]
            rfl
          | ok providers => exact Or.inl ⟨_, _, _, _, .start opening names save layer⟩
  | resume thread value options =>
    cases resumption : g.resumption thread options.overrides w.store with
    | error f => exact Or.inr ⟨w, f, .unresumed, by simp only [serve, Engine.resume, resumption]; rfl⟩
    | ok r =>
      cases layer : g.providers.layer options.providers with
      | error f =>
        refine Or.inr ⟨_, f, .unserved (r := r), ?_⟩
        simp only [serve, Engine.resume, resumption, proceed, forCall, layer]
        rfl
      | ok providers => exact Or.inl ⟨_, _, _, _, .resume resumption layer⟩
  | cancel => exact absurd rfl runs.1
  | delete => exact absurd rfl runs.2

/-- A start or a resumption that launches no run is refused, or its run cannot be written down. -/
theorem refused_of_unlaunched (idle : ∀ run e entry v, ¬g.Launches w request run e entry v)
    (runs : request ≠ .cancel request.thread ∧ request ≠ .delete request.thread) :
    ∃ f, (g.serve w request).2 = .error f := by
  rcases launches_or_unlaunched (g := g) (w := w) runs with ⟨_, _, _, _, launch⟩ | ⟨v, f, -, served⟩
  · exact absurd launch (idle _ _ _ _)
  · exact ⟨f, congrArg Prod.snd served⟩

/-- A start or a resumption that is answered has launched a run. -/
theorem exists_launch {o : Outcome} (runs : request ≠ .cancel request.thread ∧ request ≠ .delete request.thread)
    (answered : (g.serve w request).2 = .ok (some o)) : ∃ run e entry v, g.Launches w request run e entry v := by
  rcases launches_or_unlaunched (g := g) (w := w) runs with launch | ⟨v, f, -, served⟩
  · exact launch
  · rw [served] at answered
    cases answered

/-- A call is answered with what its run ends with. -/
theorem Launches.run_answered {o : Outcome} (h : g.Launches w request run e entry v)
    (answered : (g.serve w request).2 = .ok (some o)) : (run.run (run.firstPass e entry v)).2 = .ok o := by
  rw [h.serve_eq] at answered
  exact ok_of_hinted answered

/-- A thread that is asked to end is left as it is written down, or fails where it waits. -/
theorem cancel_leaves_or_ends (g : Engine) (thread : String) (w : Surroundings) :
    (g.cancel thread w).1.store = w.store ∧ (∀ o, (g.cancel thread w).2 ≠ .ok (some o)) ∨
      ∃ c e, g.lastCheckpoint thread w.store = .ok c ∧ c.status = .paused ∧ Execution.ofCheckpoint c = .ok e ∧
        g.cancel thread w = ((g.fail e (.cancelled thread) w).1, (g.fail e (.cancelled thread) w).2.map some) := by
  unfold cancel
  split
  · exact .inl ⟨Surroundings.store_requestCancel w thread, fun _ h => nomatch h⟩
  · dsimp only
    split
    · exact .inl ⟨rfl, fun _ h => nomatch h⟩
    · exact .inl ⟨rfl, fun _ h => nomatch h⟩
    · rename_i e waits
      obtain ⟨c, last, waits⟩ := bind_eq_ok.mp waits
      split at waits
      · rename_i paused
        obtain ⟨e', taken, same⟩ := bind_eq_ok.mp waits
        cases same
        exact .inr ⟨c, e, last, paused, taken, rfl⟩
      · cases waits

/-- How many steps the last checkpoint of a thread counts. -/
def stepsOf (thread : String) (w : Surroundings) : Int :=
  match w.store.load thread with
  | .ok (some c) => c.step
  | _ => 0

/-- A run counts on from the steps that are written down of its thread. -/
theorem Launches.step_eq (h : g.Launches w request run e entry v) : e.step = stepsOf request.thread w := by
  cases h with
  | @start thread input options config e providers v c h =>
    simp only [Engine.opening, bind_eq_ok] at h
    obtain ⟨_, -, state, -, last, hlast, h⟩ := h
    split at h
    · cases h
    rename_i unstarted
    split at h <;> cases h
    rw [Option.not_isSome_iff_eq_none] at unstarted
    rw [stepsOf, Request.thread, hlast, unstarted]
  | @resume thread value options r providers resumption =>
    obtain ⟨c, _, _, e, hc, -, -, he, -, -, -, hr⟩ := taken_of_resumption resumption
    rw [hr, stepsOf, Request.thread, (lastCheckpoint_eq_ok_iff.mp hc).1]
    exact congrArg Position.step (position_ofCheckpoint he)

end Engine

end Workflow
