import Mathlib.Logic.Relation
import Workflow.Proofs.Records
import Workflow.Proofs.Walk

/-! Passes: the loop of a run one step at a time. A pass goes on to the next one or ends the call. Main
    statement: the loop goes from pass to pass and ends as its last pass does (`run_passes`), so what
    every pass keeps holds at the end of the loop. -/

namespace Workflow

/-- Where the loop of a run stands before a pass. -/
structure Pass where
  left : Nat
  execution : Execution
  entry : Entry
  around : Surroundings

namespace Engine

/-- How the loop ends from a pass on. -/
def run (g : Engine) (q : Pass) : Ended := g.loop q.left q.execution q.entry q.around

/-- What the node of a pass does to its surroundings, and what the step comes to. -/
def turnAt (g : Engine) (q : Pass) : Action.Effects × Stride :=
  g.definition.turn ⟨g.providers, q.entry⟩ q.execution.thread q.execution.position q.around.calls

def after (g : Engine) (q : Pass) : Surroundings := q.around.absorb q.execution.thread (g.turnAt q).1

/-- The node of a pass is run: nobody asked for the end, the run is not over, steps are left, and the run
    does not pause before the node. -/
structure Runs (g : Engine) (q : Pass) : Prop where
  uncancelled : q.around.isCancelled q.execution.thread = false
  inside : q.execution.node ≠ endMarker
  left : q.left ≠ 0
  free : g.holds q.execution q.entry = false

/-- The surroundings after a step that reached a position has been told. -/
def told (g : Engine) (q : Pass) (p : Position) : Surroundings :=
  (g.after q).emit { kind := .stepCompleted, thread := q.execution.thread, node := q.execution.node
                     step := p.step, data := [("next_node", .str p.node)] }

/-- The checkpoint that is drawn up of an execution. -/
def snapshot (g : Engine) (e : Execution) (w : Surroundings) : Checkpoint :=
  w.drawUp (e.checkpoint g.definition.name)

/-- A pass goes on to another one: its step reaches a position, the run does not pause after the node, and
    it is written down if every step is. -/
inductive Goes (g : Engine) : Pass → Pass → Prop
  | unsaved {q : Pass} {p : Position} (runs : g.Runs q) (reached : (g.turnAt q).2 = .reached p)
      (free : q.execution.node ∉ g.config.after) (mode : g.config.mode = .interruptsOnly) :
      Goes g q ⟨q.left - 1, q.execution.arrived p, {}, g.told q p⟩
  | saved {q : Pass} {p : Position} {w : Surroundings} {c : Checkpoint} (runs : g.Runs q)
      (reached : (g.turnAt q).2 = .reached p) (free : q.execution.node ∉ g.config.after)
      (mode : g.config.mode = .everyStep)
      (save : g.save (q.execution.arrived p) (g.told q p) = (w, .ok c)) :
      Goes g q ⟨q.left - 1, q.execution.arrived p, {}, w⟩

/-- A pass ends the call: the run is cancelled, is over, has no steps left or is held before the node; or the
    node is run, and asks for input, fails or is not found; or the run pauses after the node or cannot be
    written down. A pause is withdrawn or revoked if somebody asked for the end of the run. -/
inductive Ends (g : Engine) : Pass → Ended → Prop
  | cancelled {q : Pass} (h : q.around.isCancelled q.execution.thread = true) :
      Ends g q (g.fail q.execution (.cancelled q.execution.thread) q.around)
  | completed {q : Pass} (uncancelled : q.around.isCancelled q.execution.thread = false)
      (h : q.execution.node = endMarker) : Ends g q (g.complete q.execution q.around)
  | exhausted {q : Pass} (uncancelled : q.around.isCancelled q.execution.thread = false)
      (inside : q.execution.node ≠ endMarker) (h : q.left = 0) :
      Ends g q (g.fail q.execution (g.exhausted q.execution) q.around)
  | held {q : Pass} (uncancelled : q.around.isCancelled q.execution.thread = false)
      (inside : q.execution.node ≠ endMarker) (left : q.left ≠ 0)
      (h : g.holds q.execution q.entry = true) :
      Ends g q (g.pause q.execution q.execution.node .before .null q.around)
  | suspended {q : Pass} {prompt : Value} (runs : g.Runs q) (h : (g.turnAt q).2 = .suspended prompt)
      (uncancelled : (g.after q).isCancelled q.execution.thread = false) :
      Ends g q (g.pause q.execution q.execution.node .dynamic prompt (g.after q))
  | withdrawn {q : Pass} {prompt : Value} (runs : g.Runs q) (h : (g.turnAt q).2 = .suspended prompt)
      (cancelled : (g.after q).isCancelled q.execution.thread = true) :
      Ends g q (g.fail q.execution (.cancelled q.execution.thread) (g.after q))
  | failed {q : Pass} {p : Position} {f : Failure} (runs : g.Runs q) (h : (g.turnAt q).2 = .failed p f) :
      Ends g q (g.fail (q.execution.arrived p) f (g.after q))
  | lost {q : Pass} {f : Fault} (runs : g.Runs q) (h : (g.turnAt q).2 = .lost f) :
      Ends g q (g.after q, .error f)
  | paused {q : Pass} {p : Position} (runs : g.Runs q) (h : (g.turnAt q).2 = .reached p)
      (held : q.execution.node ∈ g.config.after)
      (uncancelled : (g.told q p).isCancelled q.execution.thread = false) :
      Ends g q (g.pause (q.execution.arrived p) q.execution.node .after .null (g.told q p))
  | revoked {q : Pass} {p : Position} (runs : g.Runs q) (h : (g.turnAt q).2 = .reached p)
      (held : q.execution.node ∈ g.config.after)
      (cancelled : (g.told q p).isCancelled q.execution.thread = true) :
      Ends g q (g.fail (q.execution.arrived p) (.cancelled q.execution.thread) (g.told q p))
  | unsaved {q : Pass} {p : Position} {w : Surroundings} {f : Fault} (runs : g.Runs q)
      (h : (g.turnAt q).2 = .reached p) (free : q.execution.node ∉ g.config.after)
      (mode : g.config.mode = .everyStep)
      (save : g.save (q.execution.arrived p) (g.told q p) = (w, .error f)) : Ends g q (w, .error f)

variable {g : Engine} {q r : Pass} {p : Position}

/-! ### What the loop does at a pass -/

theorem run_eq (g : Engine) (q : Pass) :
    g.run q =
      if q.around.isCancelled q.execution.thread then
        g.fail q.execution (.cancelled q.execution.thread) q.around
      else if q.execution.node = endMarker then g.complete q.execution q.around
      else
        match q.left with
        | 0 => g.fail q.execution (g.exhausted q.execution) q.around
        | left + 1 =>
          match g.visit q.execution q.entry q.around with
          | (w, .moved e) => g.run ⟨left, e, {}, w⟩
          | (w, .pause e node kind prompt) => g.pause e node kind prompt w
          | (w, .fail e f) => g.fail e f w
          | (w, .raise f) => (w, .error f) := by
  unfold run
  exact (loop.eq_def g q.left q.execution q.entry q.around).trans rfl

theorem run_of_held (uncancelled : q.around.isCancelled q.execution.thread = false)
    (inside : q.execution.node ≠ endMarker) (left : q.left ≠ 0) (h : g.holds q.execution q.entry = true) :
    g.run q = g.pause q.execution q.execution.node .before .null q.around := by
  obtain ⟨n, hn⟩ := Nat.exists_eq_succ_of_ne_zero left
  rw [run_eq, if_neg (ne_true_of_eq_false uncancelled), if_neg inside, hn, visit_eq, if_pos h]

/-- At a pass whose node is run, the loop goes on as the engine does after the step. -/
theorem run_of_runs (h : g.Runs q) :
    g.run q = match g.follow q.execution (g.after q) (g.turnAt q).2 with
      | (w, .moved e) => g.run ⟨q.left - 1, e, {}, w⟩
      | (w, .pause e node kind prompt) => g.pause e node kind prompt w
      | (w, .fail e f) => g.fail e f w
      | (w, .raise f) => (w, .error f) := by
  obtain ⟨n, hn⟩ := Nat.exists_eq_succ_of_ne_zero h.left
  rw [run_eq, if_neg (ne_true_of_eq_false h.uncancelled), if_neg h.inside, hn, visit_eq,
    if_neg (ne_true_of_eq_false h.free)]
  rfl

theorem follow_reached (g : Engine) (q : Pass) (p : Position) :
    g.follow q.execution (g.after q) (.reached p) =
      if g.config.after.contains q.execution.node then
        if (g.told q p).isCancelled q.execution.thread then
          (g.told q p, .fail (q.execution.arrived p) (.cancelled q.execution.thread))
        else (g.told q p, .pause (q.execution.arrived p) q.execution.node .after .null)
      else
        match g.config.mode with
        | .interruptsOnly => (g.told q p, .moved (q.execution.arrived p))
        | .everyStep =>
          match g.save (q.execution.arrived p) (g.told q p) with
          | (w, .error f) => (w, .raise f)
          | (w, .ok _) => (w, .moved (q.execution.arrived p)) := rfl

theorem Goes.left_lt (h : g.Goes q r) : r.left < q.left := by
  cases h with
  | unsaved runs | saved runs => exact Nat.sub_one_lt runs.left

/-- From a pass that goes on, the loop ends as from the next one. -/
theorem Goes.run_eq (h : g.Goes q r) : g.run q = g.run r := by
  cases h with
  | unsaved runs reached free mode =>
    rw [run_of_runs runs, reached, follow_reached, if_neg (mt List.contains_iff_mem.mp free), mode]
  | saved runs reached free mode save =>
    rw [run_of_runs runs, reached, follow_reached, if_neg (mt List.contains_iff_mem.mp free), mode]
    dsimp only
    rw [save]

theorem run_eq_of_goes (h : Relation.ReflTransGen g.Goes q r) : g.run q = g.run r := by
  induction h with
  | refl => rfl
  | tail _ hstep ih => exact ih.trans hstep.run_eq

theorem goes_or_ends_of_reached (h : g.Runs q) (hp : (g.turnAt q).2 = .reached p) :
    (∃ r, g.Goes q r) ∨ g.Ends q (g.run q) := by
  have hrun := run_of_runs h
  rw [hp, follow_reached] at hrun
  by_cases held : q.execution.node ∈ g.config.after
  · rw [if_pos (List.contains_iff_mem.mpr held)] at hrun
    right
    cases hw : (g.told q p).isCancelled q.execution.thread with
    | false =>
      rw [hw] at hrun
      exact hrun ▸ .paused h hp held hw
    | true =>
      rw [hw] at hrun
      exact hrun ▸ .revoked h hp held hw
  rw [if_neg (mt List.contains_iff_mem.mp held)] at hrun
  cases hm : g.config.mode with
  | interruptsOnly =>
    exact Or.inl ⟨_, .unsaved h hp held hm⟩
  | everyStep =>
    rw [hm] at hrun
    dsimp only at hrun
    rcases hsave : g.save (q.execution.arrived p) (g.told q p) with ⟨w, f | c⟩ <;> rw [hsave] at hrun
    · exact Or.inr (hrun ▸ .unsaved h hp held hm hsave)
    · exact Or.inl ⟨_, .saved h hp held hm hsave⟩

/-- Every pass goes on to another one or ends the call. -/
theorem goes_or_ends (g : Engine) (q : Pass) : (∃ r, g.Goes q r) ∨ g.Ends q (g.run q) := by
  cases uncancelled : q.around.isCancelled q.execution.thread with
  | true =>
    rw [run_eq, if_pos uncancelled]
    exact Or.inr (.cancelled uncancelled)
  | false =>
    by_cases inside : q.execution.node = endMarker
    · rw [run_eq, if_neg (ne_true_of_eq_false uncancelled), if_pos inside]
      exact Or.inr (.completed uncancelled inside)
    by_cases left : q.left = 0
    · rw [run_eq, if_neg (ne_true_of_eq_false uncancelled), if_neg inside, left]
      exact Or.inr (.exhausted uncancelled inside left)
    cases free : g.holds q.execution q.entry with
    | true =>
      rw [run_of_held uncancelled inside left free]
      exact Or.inr (.held uncancelled inside left free)
    | false =>
      have runs : g.Runs q := ⟨uncancelled, inside, left, free⟩
      have hrun := run_of_runs runs
      cases hs : (g.turnAt q).2 with
      | reached p => exact goes_or_ends_of_reached runs hs
      | failed p f =>
        rw [hs] at hrun
        exact Or.inr (hrun ▸ .failed runs hs)
      | lost f =>
        rw [hs] at hrun
        exact Or.inr (hrun ▸ .lost runs hs)
      | suspended prompt =>
        right
        cases hw : (g.after q).isCancelled q.execution.thread with
        | false =>
          rw [hs, follow, hw] at hrun
          exact hrun ▸ .suspended runs hs hw
        | true =>
          rw [hs, follow, hw] at hrun
          exact hrun ▸ .withdrawn runs hs hw

/-- The loop goes from pass to pass and ends as its last pass does. -/
theorem run_passes (g : Engine) (q : Pass) :
    ∃ r, Relation.ReflTransGen g.Goes q r ∧ g.Ends r (g.run q) := by
  -- Every pass that goes on takes one of the steps that are left.
  induction hn : q.left using Nat.strongRecOn generalizing q with
  | ind n ih =>
    rcases g.goes_or_ends q with ⟨r, hgoes⟩ | hends
    · obtain ⟨t, hr, ht⟩ := ih r.left (hn ▸ hgoes.left_lt) r rfl
      exact ⟨t, .head hgoes hr, hgoes.run_eq ▸ ht⟩
    · exact ⟨q, .refl, hends⟩

end Engine

end Workflow
