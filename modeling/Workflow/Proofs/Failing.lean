import Workflow.Proofs.Laps
import Workflow.Proofs.Lifecycle

/-! The passes at which runs fail (`Fails`), and what a failure puts after the records of its thread where the store is in
    memory: the last of them, failed (`fail_records`). -/

namespace Workflow

namespace Engine

variable {g run : Engine} {q r a : Pass} {p : Position} {e : Execution} {w v : Surroundings} {f : Failure}
  {x : Ended} {o : Outcome} {thread : String} {request : Request} {entry : Entry}

/-- A pass at which a run fails: the run as it stands then, the surroundings in which it is written down, and
    why it fails. -/
inductive Fails (g : Engine) (q : Pass) : Execution → Surroundings → Failure → Prop
  | cancelled (h : q.around.isCancelled q.execution.thread = true) :
      Fails g q q.execution q.around (.cancelled q.execution.thread)
  | exhausted (inside : q.execution.node ≠ endMarker) (h : q.left = 0) :
      Fails g q q.execution q.around (g.exhausted q.execution)
  | withdrawn {prompt : Value} (runs : g.Runs q) (h : (g.turnAt q).2 = .suspended prompt)
      (cancelled : (g.after q).isCancelled q.execution.thread = true) :
      Fails g q q.execution (g.after q) (.cancelled q.execution.thread)
  | failed {p : Position} {f : Failure} (runs : g.Runs q) (h : (g.turnAt q).2 = .failed p f) :
      Fails g q (q.execution.arrived p) (g.after q) f
  | revoked {p : Position} (runs : g.Runs q) (h : (g.turnAt q).2 = .reached p)
      (held : q.execution.node ∈ g.config.after)
      (cancelled : (g.told q p).isCancelled q.execution.thread = true) :
      Fails g q (q.execution.arrived p) (g.told q p) (.cancelled q.execution.thread)

/-- A call whose answer is a failure has come to a pass at which its run fails. -/
theorem Ends.fails (h : g.Ends q x) (ho : x.2 = .ok o) (failed : o.status = .failed) :
    ∃ e v f, g.Fails q e v f ∧ x = g.fail e f v := by
  have unpaused {e : Execution} {v : Surroundings} {node : String} {kind : InterruptKind} {prompt : Value}
      (hp : (g.pause e node kind prompt v).2 = .ok o) : False := by
    rw [(outcome_of_pause hp).1] at failed
    cases failed
  cases h with
  | cancelled h => exact ⟨_, _, _, .cancelled h, rfl⟩
  | exhausted _ inside h => exact ⟨_, _, _, .exhausted inside h, rfl⟩
  | withdrawn runs h cancelled => exact ⟨_, _, _, .withdrawn runs h cancelled, rfl⟩
  | failed runs h => exact ⟨_, _, _, .failed runs h, rfl⟩
  | revoked runs h held cancelled => exact ⟨_, _, _, .revoked runs h held cancelled, rfl⟩
  | completed =>
    rw [(outcome_of_complete ho).1] at failed
    cases failed
  | held | suspended | paused => exact (unpaused ho).elim
  | lost | unsaved => cases ho

section Failing

variable (h : g.Fails q e v f)
include h

theorem Fails.thread_eq : e.thread = q.execution.thread := by
  cases h <;> rfl

theorem Fails.inMemory (hm : q.around.InMemory) : v.InMemory := by
  cases h with
  | cancelled | exhausted => exact hm
  | withdrawn | failed => exact inMemory_after hm
  | revoked => exact inMemory_told hm

end Failing

/-! ### What is written down of a failure -/

/-- In memory, a failure puts one record after the others, which is of the last of them, and is answered with its
    state. -/
theorem fail_records (hm : v.InMemory) (own : e.thread = thread) (ho : (g.fail e f v).2 = .ok o) :
    ∃ c, (g.fail e f v).1.records thread = v.records thread ++ [c] ∧ o.state = c.state ∧
      ∀ b, (v.records thread).getLast? = some b → c = v.drawUp (b.failed f.toValue) := by
  subst own
  rw [fail_eq hm] at ho ⊢
  cases ho
  refine ⟨g.verdict e f v, ?_, rfl, fun b hb => ?_⟩
  · rw [Surroundings.records_emitLast, Surroundings.records_keep_self hm thread_verdict]
  · rw [verdict, hb]

theorem state_of_fail (hm : v.InMemory) (own : e.thread = thread) (marks : Marks thread p v)
    (ho : (g.fail e f v).2 = .ok o) : o.state = .ofFields p.state := by
  obtain ⟨c, -, state, last⟩ := fail_records hm own ho
  obtain ⟨b, hb, shows⟩ := marks
  rw [state, last b hb]
  exact shows.state

/-! ### Steps that are written down -/

/-- If every step is written down, the last record shows where the run stands at each of its passes. -/
theorem Marks.passes (h : Marks thread p w) (hm : w.InMemory) (mode : g.config.mode = .everyStep)
    (hgoes : Relation.ReflTransGen g.Goes (g.passAt thread p entry w) r) :
    r.around.InMemory ∧ r.execution.thread = thread ∧ Marks thread r.execution.position r.around := by
  have stands : ∃ q e v, r = g.passAt thread q e v ∧ v.InMemory ∧ Marks thread q v := by
    induction hgoes with
    | refl => exact ⟨p, entry, w, rfl, hm, h⟩
    | tail _ hstep ih =>
      obtain ⟨q, e, v, rfl, hv, -⟩ := ih
      obtain ⟨t, -, -, rfl⟩ := hstep.next_passAt hv
      have told : (g.told (g.passAt thread q e v) t).InMemory := inMemory_told hv
      refine ⟨t, {}, _, rfl, inMemory_noted hv, ?_⟩
      rw [noted, mode]
      exact marks_keep told ((q.running thread g.config.metadata).arrived t)
  obtain ⟨q, e, v, rfl, hv, marks⟩ := stands
  exact ⟨hv, rfl, marks⟩

end Engine

/-- Logic that gathers one word and raises when it is to gather another one. -/
def Logic.once : Logic := fun s _ =>
  match s.getD "words" with
  | .list [] => .done (.update (.ofFields [("words", .str "tick")]))
  | _ => .raise (.value "no word")

end Workflow
