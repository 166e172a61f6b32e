import Mathlib.Data.List.Chain
import Workflow.Proofs.Attended
import Workflow.Proofs.Heard

/-! Courses of events: what those who follow a thread are told while a call runs it. Each step is told with its number,
    its node and the next one (`Course`), and the end of the call is told last, whichever it is (`Tells.concluded`). -/

namespace Workflow

/-! ### Courses -/

/-- The events of steps that were taken to their ends. -/
def Event.completions (es : List Event) : List Event := es.filter fun e => e.kind == .stepCompleted

/-- One event for each step on the way from a start to a position. -/
inductive Course : List Event → Position → Prop
  | start {p : Position} (step : p.step = 0) (history : p.history = []) : Course [] p
  | step {es : List Event} {e : Event} {p q : Position} (h : Course es p) (node : e.node = some p.node)
      (step : e.step = q.step) (next : e.data.get? "next_node" = some (.str q.node)) (count : q.step = p.step + 1)
      (history : q.history = p.history ++ [p.node]) : Course (es ++ [e]) q

/-- The events of all steps of a run that went through these nodes: they are counted, and each tells the node of the
    next one. -/
structure Chronicle (es : List Event) (nodes : List Value) : Prop where
  nodes : es.map (fun e => e.node.map Value.str) = nodes.map some
  steps : es.map Event.step = (List.range es.length).map fun n : Nat => (n : Int) + 1
  chain : es.IsChain fun e next => e.data.get? "next_node" = next.node.map .str

/-- The nodes that a run left for another one: after the last node of a run that lost its way there is none. -/
def Outcome.walked (o : Outcome) : List Value :=
  match o.error with
  | some f => if f.kind = .routing then o.history.dropLast else o.history
  | none => o.history

/-- How it is told that a call ends with a run in a status. -/
inductive RunStatus.ClosedBy : RunStatus → EventKind → Prop
  | paused : ClosedBy .paused .interrupted
  | completed : ClosedBy .completed .completed
  | failed : ClosedBy .failed .failed

namespace Course

variable {es : List Event} {p : Position}

theorem step_eq (h : Course es p) : p.step = es.length := by
  induction h with
  | start step _ => exact step
  | step _ _ _ _ count _ ih =>
    rw [count, ih, List.length_append]
    rfl

theorem next_eq (h : Course es p) {e : Event} (last : es.getLast? = some e) :
    e.data.get? "next_node" = some (.str p.node) := by
  cases h with
  | start => cases last
  | step _ _ _ next _ _ =>
    rw [List.getLast?_concat] at last
    cases last
    exact next

theorem chronicle (h : Course es p) : Chronicle es (p.history.map .str) := by
  induction h with
  | start _ history =>
    rw [history]
    exact ⟨rfl, rfl, .nil⟩
  | @step es e p q h node step next count history ih =>
    refine ⟨?_, ?_, ?_⟩
    · rw [List.map_append, ih.nodes, history, List.map_append, List.map_append, List.map_singleton, node]
      rfl
    · rw [List.map_append, ih.steps, List.length_append, List.length_singleton, List.range_succ, List.map_append,
        List.map_singleton, List.map_singleton, step, count, h.step_eq]
    · refine List.isChain_append.mpr ⟨ih.chain, .singleton e, fun x hx y hy => ?_⟩
      cases hy
      rw [h.next_eq hx, node]
      rfl

end Course

namespace Engine

open Surroundings (Attended)

variable {g run : Engine} {w v : Surroundings} {name thread : String} {held : String → Prop} {n : Nat}
  {es told : List Event} {request : Request} {e : Execution} {p : Position} {entry : Entry} {q : Pass}

/-! ### Runs of the thread -/

/-- A node fails by itself where it is run, or loses the way where it has been left. -/
theorem failed_at {q : Position} {f : Failure} {i : Invocation} {calls : CallLog} {d : Definition}
    (h : (d.turn i thread p calls).2 = .failed q f) :
    (f.kind.isOfNode = true ∧ q = p) ∨ (f.kind = .routing ∧ q.history = p.history ++ [p.node]) := by
  unfold Definition.turn at h
  cases hn : d.node? p.node with
  | none =>
    rw [hn] at h
    cases h
  | some n =>
    rw [hn] at h
    dsimp only at h
    unfold Definition.stride at h
    rcases ha : (n.run i.providers p.state (p.context thread i.entry) { calls }).2 with f' | values | prompt <;>
      rw [ha] at h <;> dsimp only at h
    · cases h
      exact .inl ⟨Node.isOfNode_of_run ha, rfl⟩
    · split at h
      · cases h
        exact .inl ⟨rfl, rfl⟩
      · split at h
        · cases h
        · split at h <;> cases h
          rename_i hnext
          exact .inr ⟨Edge.kind_of_next? hnext, rfl⟩
    · cases h

variable {joins : Nat} {base : List Event} {x : Ended} {metadata : Value} {f : Failure}

/-- How a thread stands between calls for those who follow it: nobody has started it, it has paused after the steps
    that were told, or it is over. -/
inductive Stage (name thread : String) (held : String → Prop) (joins : Nat) (w : Surroundings) : Prop
  | unbegun {n : Nat} (none : w.records thread = []) (attended : w.Attended name thread held n [])
      (once : n + joins = 1)
  | paused {es : List Event} {c : Checkpoint} {e : Execution} (attended : w.Attended name thread held 1 es)
      (last : (w.records thread).getLast? = some c) (status : c.status = .paused)
      (taken : Execution.ofCheckpoint c = .ok e) (course : Course (Event.completions es) e.position)
  | ended {n : Nat} {es : List Event} {c : Checkpoint} (attended : w.Attended name thread held n es)
      (last : (w.records thread).getLast? = some c) (status : c.status ≠ .paused)

/-- While a call runs the thread: what was told of it so far, and where the run stands. -/
structure Tells (name thread : String) (held : String → Prop) (base told : List Event) (p : Position)
    (w : Surroundings) : Prop where
  attended : w.Attended name thread held 1 (base ++ told)
  steps : ∀ e ∈ told, e.kind = .stepCompleted
  course : Course (Event.completions (base ++ told)) p

/-- The call is over: what was told of it, its answer, and how the thread stands. -/
inductive Concluded (name thread : String) (held : String → Prop) (joins : Nat) (base : List Event) (x : Ended) : Prop
  | intro {o : Outcome} {told : List Event} {last : Event} (answer : x.2 = .ok o)
      (steps : ∀ e ∈ told, e.kind = .stepCompleted) (closed : o.status.ClosedBy last.kind)
      (heard : x.1.heard name thread = base ++ told ++ [last])
      (chronicle : Chronicle (Event.completions (base ++ told)) o.walked)
      (stage : Stage name thread held joins x.1)

theorem completions_append (es es' : List Event) :
    Event.completions (es ++ es') = Event.completions es ++ Event.completions es' :=
  List.filter_append ..

theorem completions_of_kind {e : Event} (h : e.kind ≠ .stepCompleted) : Event.completions [e] = [] := by
  unfold Event.completions
  rw [List.filter_cons_of_neg (by simpa using h), List.filter_nil]

theorem getLast?_emit_keep {c : Checkpoint} (hm : w.InMemory) (own : c.thread = .str thread) (e : Event) :
    (((w.keep c).emit e).records thread).getLast? = some c := by
  rw [Surroundings.records_emit, Surroundings.records_keep_self hm own, List.getLast?_concat]

section Conclusions
variable (h : Tells name thread held base told p w) (hm : w.InMemory)
include h hm

theorem Tells.concluded_pause (node : String) (kind : InterruptKind) (prompt : Value) :
    Concluded name thread held joins base (g.pause (p.running thread metadata) node kind prompt w) := by
  have kept : (w.keep (g.snapshot ((p.running thread metadata).paused node kind prompt) w)).Attended name thread held 1
      (base ++ told) := h.attended.congr ⟨rfl, rfl⟩
  have emitted := kept.emit (e := {
    kind := .interrupted, thread, node, step := p.step
    data := [("interrupt", Interrupt.toValue { node := .str node, prompt, kind })] }) rfl
  rw [pause_eq hm]
  have last := getLast?_emit_keep (c := g.snapshot ((p.running thread metadata).paused node kind prompt) w) hm rfl
  have taken := Execution.ofCheckpoint_checkpoint (e := (p.running thread metadata).paused node kind prompt)
    g.definition.name (Surroundings.drawnId w.drawn) (.int w.drawn) rfl
  refine .intro rfl h.steps ?_ emitted.heard h.course.chronicle (.paused emitted (last _) rfl taken ?_)
  · exact .paused
  · rw [completions_append, completions_of_kind EventKind.noConfusion, List.append_nil]
    exact h.course

theorem Tells.concluded_complete :
    Concluded name thread held joins base (g.complete (p.running thread metadata) w) := by
  have kept : (w.keep (g.snapshot (p.running thread metadata).completed w)).Attended name thread held 1
      (base ++ told) := h.attended.congr ⟨rfl, rfl⟩
  have emitted := (kept.emit (e := {
    kind := .completed, thread, step := p.step, data := [("steps", .int p.step)] }) rfl).clear
  rw [complete_eq hm]
  have last := getLast?_emit_keep (c := g.snapshot (p.running thread metadata).completed w) hm rfl
  refine .intro rfl h.steps ?_ emitted.heard h.course.chronicle (.ended emitted (last _) RunStatus.noConfusion)
  exact .completed

/-- A run fails where it stands, or after it has left a node for none. -/
theorem Tells.concluded_fail {q : Position}
    (walked : (if f.kind = .routing then (q.history.map Value.str).dropLast else q.history.map Value.str) =
      p.history.map .str) :
    Concluded name thread held joins base (g.fail (q.running thread metadata) f w) := by
  have kept : (w.keep (g.verdict (q.running thread metadata) f w)).Attended name thread held 1 (base ++ told) :=
    h.attended.congr ⟨rfl, rfl⟩
  have emitted := (kept.emit (e := {
    kind := .failed, thread, node := q.node, step := q.step, data := [("error", f.toValue)] }) rfl).clear
  have chronicle := h.course.chronicle
  rw [fail_eq hm]
  rw [← walked] at chronicle
  have last := getLast?_emit_keep (c := g.verdict (q.running thread metadata) f w) hm thread_verdict
  refine .intro rfl h.steps ?_ emitted.heard chronicle (.ended emitted (last _) ?_)
  · exact .failed
  · rw [status_verdict]
    exact RunStatus.noConfusion

end Conclusions

theorem passAt_inj {q : Position} {entry entry' : Entry} (h : g.passAt thread p entry w = g.passAt thread q entry' v) :
    p = q ∧ w = v := by
  obtain ⟨node, state, step, history⟩ := p
  obtain ⟨node', state', step', history'⟩ := q
  have execution := congrArg Pass.execution h
  have around := congrArg Pass.around h
  unfold passAt firstPass Position.running at execution
  dsimp only at execution
  cases execution
  exact ⟨rfl, around⟩

section Passing
variable (h : Tells name thread held base told p w)
include h

theorem Tells.after (entry : Entry) : Tells name thread held base told p (g.after (g.passAt thread p entry w)) :=
  ⟨h.attended.congr (w.told_absorb thread _), h.steps, h.course⟩

/-- A step is told once it has been taken to its end. -/
theorem Tells.reached {q : Position} (reached : (g.turnAt (g.passAt thread p entry w)).2 = .reached q) :
    ∃ e, Tells name thread held base (told ++ [e]) q (g.told (g.passAt thread p entry w) q) := by
  obtain ⟨count, history⟩ := Definition.step_of_turn_reached reached
  refine ⟨{ kind := .stepCompleted, thread, node := p.node, step := q.step, data := [("next_node", .str q.node)] },
    ?_, ?_, ?_⟩
  · rw [← List.append_assoc]
    exact (h.after entry).attended.emit rfl
  · intro e he
    rcases List.mem_append.mp he with he | he
    · exact h.steps e he
    · rw [List.mem_singleton.mp he]
  · rw [← List.append_assoc, completions_append]
    exact .step h.course rfl rfl rfl count history

theorem Tells.goes {r : Pass} (hm : w.InMemory) (hgoes : g.Goes (g.passAt thread p entry w) r) :
    ∃ e q v, r = g.passAt thread q {} v ∧ Tells name thread held base (told ++ [e]) q v := by
  obtain ⟨q, -, reached, rfl⟩ := hgoes.next_passAt hm
  obtain ⟨e, tells⟩ := h.reached reached
  refine ⟨e, q, _, rfl, ?_⟩
  unfold noted
  split
  · exact tells
  · exact ⟨tells.attended.congr ⟨rfl, rfl⟩, tells.steps, tells.course⟩

theorem Tells.passes {r : Pass} (safe : g.Safe thread p w) (sound : g.definition.Sound)
    (hgoes : Relation.ReflTransGen g.Goes (g.passAt thread p entry w) r) :
    ∃ told q e v, r = g.passAt thread q e v ∧ g.Safe thread q v ∧ Tells name thread held base told q v := by
  induction hgoes with
  | refl => exact ⟨told, p, entry, w, rfl, safe, h⟩
  | tail _ hstep ih =>
    obtain ⟨told, q, e, v, rfl, safe, tells⟩ := ih
    obtain ⟨e, r, u, rfl, tells⟩ := tells.goes safe.memory hstep
    obtain ⟨r', u', same, safe⟩ := safe.goes sound hstep
    obtain ⟨rfl, rfl⟩ := passAt_inj same
    exact ⟨_, r, {}, u, rfl, safe, tells⟩

/-- Whichever way a run ends, it is told at last. -/
theorem Tells.ends (safe : g.Safe thread p w) (sound : g.definition.Sound)
    (hends : g.Ends (g.passAt thread p entry w) x) : Concluded name thread held joins base x := by
  have hm := safe.memory
  have told : ∀ {q}, (g.turnAt (g.passAt thread p entry w)).2 = .reached q →
      ∃ e, Tells name thread held base (told ++ [e]) q (g.told (g.passAt thread p entry w) q) := h.reached
  have after := h.after (g := g) entry
  have memory := (safe.after entry).memory
  cases hends with
  | cancelled | exhausted => exact h.concluded_fail hm (if_neg FailureKind.noConfusion)
  | completed => exact h.concluded_complete hm
  | held => exact h.concluded_pause hm _ _ _
  | suspended => exact after.concluded_pause memory _ _ _
  | withdrawn => exact after.concluded_fail memory (if_neg FailureKind.noConfusion)
  | @failed q f runs hq =>
    refine after.concluded_fail (q := q) memory ?_
    rcases failed_at hq with ⟨kind, rfl⟩ | ⟨kind, history⟩
    · rw [if_neg fun routing => by rw [routing] at kind; cases kind]
      rfl
    · rw [if_pos kind, history, List.map_append, List.map_singleton, List.dropLast_concat]
      rfl
  | lost runs hq => exact absurd hq (sound.turn_ne_lost (safe.mem_nodeIds runs.inside) _)
  | @paused q runs hq =>
    obtain ⟨e, told⟩ := told hq
    exact told.concluded_pause (memory.emit _) _ _ _
  | @revoked q runs hq =>
    obtain ⟨e, told⟩ := told hq
    exact told.concluded_fail (q := q) (memory.emit _) (if_neg FailureKind.noConfusion)
  | unsaved runs hq _ _ save =>
    rw [save_snapshot (inMemory_told safe.memory)] at save
    cases save

theorem Tells.concluded (safe : g.Safe thread p w) (sound : g.definition.Sound) (entry : Entry) :
    Concluded name thread held joins base (g.run (g.passAt thread p entry w)) := by
  obtain ⟨r, hgoes, hends⟩ := g.run_passes (g.passAt thread p entry w)
  obtain ⟨told, q, e, v, rfl, safe, tells⟩ := h.passes safe sound hgoes
  exact tells.ends safe sound hends

end Passing

end Engine

end Workflow
