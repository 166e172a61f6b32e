import Workflow.Proofs.Resumed

/-! # Re-entry

What nodes are told in the life of a thread, from call to call (`Launch.Journey`). Steps that are taken lead from one
position to the next, in whichever calls they are taken (`Definition.Way`), and each node is run at the position that
they lead to. It is told what the caller of a resumption passes if the run waited for it, and only then
(`Launch.Journey.reentry`). -/

namespace Workflow

/-! ### Ways -/

/-- A step that was taken: how its node was run, and the calls that providers had served before. -/
structure Taken where
  invocation : Invocation
  calls : CallLog

/-- Where the steps of a thread lead to, one after another, as a store keeps it in between. -/
inductive Definition.Way (d : Definition) (thread : String) (input : Value) (durable : Bool) :
    List Taken → Position → Prop
  | start {p : Position} (origin : d.origin? input = some p) : Way d thread input durable [] p
  | step {ts : List Taken} {t : Taken} {p q : Position} (h : Way d thread input durable ts p)
      (reached : (d.turn t.invocation thread p t.calls).2 = .reached q) : Way d thread input durable (ts ++ [t]) q
  | kept {ts : List Taken} {p q : Position} (h : Way d thread input durable ts p) (kept : p.KeptAs durable q) :
      Way d thread input durable ts q

theorem Definition.Way.step_eq {d : Definition} {thread : String} {input : Value} {durable : Bool} {ts : List Taken}
    {p : Position} (h : d.Way thread input durable ts p) : p.step = ts.length := by
  induction h with
  | start origin => exact (begins_of_origin origin).1
  | step _ reached ih =>
    rw [(step_of_turn_reached reached).1, ih, List.length_append]
    rfl
  | kept _ kept ih => rw [kept.step, ih]

/-! ### Nodes that are run -/

namespace Engine

variable {g : Engine} {q r : Pass}

/-- The node of the pass is run in this state, and is told this. -/
structure Invokes (g : Engine) (q : Pass) (n : Node) (s : State) (c : NodeContext) : Prop where
  runs : g.Runs q
  node : g.definition.node? q.execution.node = some n
  state : s = q.execution.state
  context : c = context q.execution q.entry

/-- What an engine does at such a pass. -/
theorem Invokes.visit_eq {n : Node} {s : State} {c : NodeContext} (h : g.Invokes q n s c) :
    g.visit q.execution q.entry q.around =
      match q.around.perform g.providers n s c with
      | (w, .error f) => (w, .fail q.execution f)
      | (w, .ok (.suspend prompt)) =>
        if w.isCancelled q.execution.thread then (w, .fail q.execution (.cancelled q.execution.thread))
        else (w, .pause q.execution q.execution.node .dynamic prompt)
      | (w, .ok (.update values)) => g.advance q.execution values w := by
  obtain ⟨runs, node, rfl, rfl⟩ := h
  have free : (!q.entry.resumed && g.config.before.contains q.execution.node) = false := runs.free
  unfold visit
  rw [if_neg (ne_true_of_eq_false free)]
  split
  · rename_i none
    cases node.symm.trans none
  · rename_i found
    cases node.symm.trans found
    rfl

/-- The step from a pass. -/
def takenAt (g : Engine) (q : Pass) : Taken := ⟨⟨g.providers, q.entry⟩, q.around.calls⟩

theorem passes_step_le (h : Relation.ReflTransGen g.Goes q r) : q.execution.step ≤ r.execution.step := by
  induction h with
  | refl => exact Int.le_refl _
  | tail _ step ih => exact Int.le_trans ih (step.step_eq ▸ Int.le_add_of_nonneg_right Int.one_nonneg)

end Engine

/-! ### Lives of threads -/

namespace Launch

open Engine

variable {d : Definition} {thread : String} {input value : Value} {durable : Bool} {ts : List Taken} {k : Launch}
  {q r : Pass} {b : Checkpoint} {i : Interrupt}

/-- The call resumes its thread with a value. The thread waits, as its last checkpoint tells. -/
structure Resumes (k : Launch) (b : Checkpoint) (i : Interrupt) (value : Value) : Prop where
  request : ∃ options, k.request = .resume k.thread value options
  last : k.engine.lastCheckpoint k.thread k.around.store = .ok b
  pending : b.interrupt = some i

/-- After these steps the life of the thread has come to a pass of a call: the thread is started; a call goes on from
    pass to pass; or it ends, is answered that its run waits, and is followed by another one. The step from its last
    pass was taken if the run waits after its node. -/
inductive Journey (d : Definition) (thread : String) (input : Value) (durable : Bool) :
    List Taken → Launch → Pass → Prop
  | start {k : Launch} {options : CallOptions} (own : k.engine.definition = d)
      (kind : k.around.store.isDurable = durable) (request : k.request = .start thread input options) :
      Journey d thread input durable [] k k.first
  | goes {ts : List Taken} {k : Launch} {q r : Pass} (h : Journey d thread input durable ts k q)
      (step : k.run.Goes q r) : Journey d thread input durable (ts ++ [k.run.takenAt q]) k r
  | again {ts : List Taken} {k k' : Launch} {q : Pass} {b : Checkpoint} {i : Interrupt} {value : Value}
      (h : Journey d thread input durable ts k q) (ends : k.run.Ends q (k.run.run q))
      (own : k'.engine.definition = d) (kind : k'.around.store.isDurable = durable) (same : k'.thread = thread)
      (follows : k'.Follows k) (resumes : k'.Resumes b i value) (inside : i.kind ≠ .after) :
      Journey d thread input durable ts k' k'.first
  | onward {ts : List Taken} {k k' : Launch} {q : Pass} {b : Checkpoint} {i : Interrupt} {value : Value}
      (h : Journey d thread input durable ts k q) (ends : k.run.Ends q (k.run.run q))
      (own : k'.engine.definition = d) (kind : k'.around.store.isDurable = durable) (same : k'.thread = thread)
      (follows : k'.Follows k) (resumes : k'.Resumes b i value) (outside : i.kind = .after) :
      Journey d thread input durable (ts ++ [k.run.takenAt q]) k' k'.first

theorem definition_run (k : Launch) : k.run.definition = k.engine.definition := by
  have launches := k.launches
  generalize k.request = request, k.run = run, k.execution = e, k.entry = entry, k.launched = v at launches ⊢
  cases launches <;> rfl

/-- A start enters its first node by itself, where walks with its input start. -/
theorem start_eq {options : CallOptions} (h : k.request = .start thread input options) : k.entry = {} ∧
    ∃ p, k.engine.definition.origin? input = some p ∧ k.execution = p.running thread k.run.config.metadata := by
  have launches := k.launches
  rw [h] at launches
  generalize k.run = run, k.execution = e, k.entry = entry, k.launched = v at launches ⊢
  cases launches with
  | start opening =>
    obtain ⟨-, p, origin, -, execution⟩ := origin_of_opening opening
    exact ⟨rfl, p, origin, execution⟩

theorem Resumes.waits (h : k.Resumes b i value) : b.status = .paused ∧ k.entry = entryAfter i.kind value := by
  obtain ⟨⟨options, request⟩, last, pending⟩ := h
  obtain ⟨r, _, resumption, -, -, entry, -⟩ := k.resume_eq request
  obtain ⟨c, _, _, _, told, paused, interrupt, -⟩ := taken_of_resumption resumption
  cases last.symm.trans told
  cases pending.symm.trans interrupt
  exact ⟨paused, entry⟩

theorem Resumes.entry_eq (h : k.Resumes b i value) (inside : i.kind ≠ .after) :
    k.entry = { resumed := true, value } := by
  rw [h.waits.2]
  cases kind : i.kind with
  | after => exact absurd kind inside
  | dynamic | before => rfl

theorem Resumes.unique {b' : Checkpoint} {i' : Interrupt} {value' : Value} (h : k.Resumes b i value)
    (h' : k.Resumes b' i' value') : b' = b ∧ i' = i ∧ value' = value := by
  obtain ⟨options, request⟩ := h.request
  obtain ⟨options', request'⟩ := h'.request
  cases h.last.symm.trans h'.last
  cases h.pending.symm.trans h'.pending
  cases request.symm.trans request'
  exact ⟨rfl, rfl, rfl⟩

/-- The node that a thread waits in, or before, is run again: the run does not pause before it. -/
theorem Resumes.not_held (h : k.Resumes b i value) (inside : i.kind ≠ .after) :
    k.run.holds k.execution k.entry = false := by
  rw [holds, h.entry_eq inside]
  rfl

section Journeys
variable (h : Journey d thread input durable ts k q)
include h

theorem Journey.goes_from : k.thread = thread ∧ k.engine.definition = d ∧ k.around.store.isDurable = durable ∧
    Relation.ReflTransGen k.run.Goes k.first q := by
  induction h with
  | start own kind request => exact ⟨congrArg Request.thread request, own, kind, .refl⟩
  | goes _ step ih => exact ⟨ih.1, ih.2.1, ih.2.2.1, ih.2.2.2.tail step⟩
  | again _ _ own kind same => exact ⟨same, own, kind, .refl⟩
  | onward _ _ own kind same => exact ⟨same, own, kind, .refl⟩

/-- Where a call goes on that follows the one that the life has come to. -/
theorem Journey.followed {k' : Launch} (ends : k.run.Ends q (k.run.run q)) (same : k'.thread = thread)
    (follows : k'.Follows k) (resumes : k'.Resumes b i value) :
    ∃ p p', k.run.WaitsAt q i.kind p ∧ p.KeptAs durable p' ∧ b.Depicts p' ∧
      k'.first = k'.run.passAt thread p' k'.entry k'.launched := by
  obtain ⟨own, -, kind, goes⟩ := h.goes_from
  obtain ⟨options, request⟩ := resumes.request
  rw [same, ← own] at request
  obtain ⟨_, p, p', _, last, -, -, pending, waits, kept, depicts, execution, -⟩ := follows.goes_on request goes ends
  rw [own, ← same] at last
  cases resumes.last.symm.trans last
  cases resumes.pending.symm.trans pending
  refine ⟨p, p', waits, kind ▸ kept, depicts, ?_⟩
  rw [own] at execution
  exact congrArg (k'.run.firstPass · k'.entry k'.launched) execution

/-- The call comes to each pass at the position that the steps lead to. -/
theorem Journey.way : ∃ p entry v, d.Way thread input durable ts p ∧ q = k.run.passAt thread p entry v := by
  induction h with
  | @start k options own kind request =>
    obtain ⟨-, p, origin, execution⟩ := k.start_eq request
    refine ⟨p, k.entry, k.launched, .start (own ▸ origin), ?_⟩
    exact congrArg (k.run.firstPass · k.entry k.launched) execution
  | goes h step ih =>
    obtain ⟨p, entry, v, way, rfl⟩ := ih
    obtain ⟨q, v', reached, rfl, -⟩ := step.at_position
    rw [turnAt_passAt, definition_run, h.goes_from.2.1] at reached
    exact ⟨q, {}, v', .step way reached, rfl⟩
  | @again ts k k' q b i value h ends own kind same follows resumes inside ih =>
    obtain ⟨p, entry, v, way, rfl⟩ := ih
    obtain ⟨p', p'', waits, kept, -, first⟩ := h.followed ends same follows resumes
    obtain rfl : p' = p := by
      cases kind : i.kind with
      | after => exact absurd kind inside
      | dynamic | before => rwa [kind] at waits
    exact ⟨p'', _, _, .kept way kept, first⟩
  | @onward ts k k' q b i value h ends own kind same follows resumes outside ih =>
    obtain ⟨p, entry, v, way, rfl⟩ := ih
    obtain ⟨p', p'', waits, kept, -, first⟩ := h.followed ends same follows resumes
    rw [outside] at waits
    have reached : (k.run.turnAt (k.run.passAt thread p entry v)).2 = .reached p' := waits
    rw [turnAt_passAt, definition_run, h.goes_from.2.1] at reached
    exact ⟨p'', _, _, .kept (.step way reached) kept, first⟩

/-- The first node of a call is told what the caller passes if the thread waited for it, and no other node is. -/
theorem Journey.entry_eq :
    (q = k.first ∧ ∃ b i value, k.Resumes b i value ∧ i.kind ≠ .after ∧ b.Depicts q.execution.position ∧
        q.entry = { resumed := true, value }) ∨
      ¬(q = k.first ∧ ∃ b i value, k.Resumes b i value ∧ i.kind ≠ .after) ∧ q.entry = {} := by
  cases h with
  | start own kind request =>
    refine .inr ⟨?_, (k.start_eq request).1⟩
    rintro ⟨-, _, _, _, resumes, -⟩
    obtain ⟨options, resumption⟩ := resumes.request
    cases request.symm.trans resumption
  | goes h step =>
    obtain ⟨_, -, -, -, entry, -⟩ := step.reached
    refine .inr ⟨?_, entry⟩
    rintro ⟨rfl, -⟩
    -- The steps of a call are counted on, so no later pass is the first one.
    have later := passes_step_le h.goes_from.2.2.2
    have next := step.step_eq
    omega
  | again h ends own kind same follows resumes inside =>
    obtain ⟨_, p', -, -, depicts, first⟩ := h.followed ends same follows resumes
    exact .inl ⟨rfl, _, _, _, resumes, inside, first ▸ depicts, resumes.entry_eq inside⟩
  | onward _ _ own kind same follows resumes outside =>
    refine .inr ⟨?_, ?_⟩
    · rintro ⟨-, _, _, _, resumes', inside⟩
      obtain ⟨-, rfl, -⟩ := resumes.unique resumes'
      exact inside outside
    · exact resumes.waits.2.trans (by rw [outside, entryAfter])

/-- Each node that is run in the life of a thread is the one that the steps lead to, in the state there, and is told
    their number. What is passed to a resumption, its first node is told, and no other one, if the thread waited in
    that node or before it, as the last checkpoint shows; and the run does not pause before it again. -/
theorem Journey.reentry :
    (∀ b i value, k.Resumes b i value → i.kind ≠ .after → k.run.holds k.execution k.entry = false) ∧
    ∀ n s c, k.run.Invokes q n s c → c.thread = thread ∧
      (∃ p, d.Way thread input durable ts p ∧ c.node = p.node ∧ c.step = ts.length ∧ s = p.state) ∧
      (c.resumed = true ↔ q = k.first ∧ ∃ b i value, k.Resumes b i value ∧ i.kind ≠ .after) ∧
      (c.resumed = true → ∀ b i value, k.Resumes b i value → c.resumeValue = value ∧ i.node = .str c.node ∧
        b.status = .paused ∧ b.node = .str c.node ∧ b.state = .ofFields s ∧ b.step = c.step) ∧
      (c.resumed = false → c.resumeValue = .null) := by
  refine ⟨fun _ _ _ resumes inside => resumes.not_held inside, fun n s c invokes => ?_⟩
  obtain ⟨p, entry, v, way, same⟩ := h.way
  obtain ⟨-, -, rfl, rfl⟩ := invokes
  have stands : q.execution = p.running thread k.run.config.metadata := congrArg Pass.execution same
  simp only [context, stands]
  refine ⟨rfl, ⟨p, way, rfl, way.step_eq, rfl⟩, ?_⟩
  rcases h.entry_eq with ⟨first, b, i, value, resumes, inside, depicts, entered⟩ | ⟨other, entered⟩ <;> rw [entered]
  · refine ⟨iff_of_true rfl ⟨first, b, i, value, resumes, inside⟩, fun _ b' i' value' resumes' => ?_, Bool.noConfusion⟩
    obtain ⟨rfl, rfl, rfl⟩ := resumes.unique resumes'
    rw [stands] at depicts
    exact ⟨rfl, depicts.pending resumes.pending inside, resumes.waits.1, depicts.node, depicts.state, depicts.step⟩
  · exact ⟨iff_of_false Bool.noConfusion other, Bool.noConfusion, fun _ => rfl⟩

end Journeys

/-- A life goes on along the passes of its last call. -/
theorem Journey.along (h : Journey d thread input durable ts k q) (goes : Relation.ReflTransGen k.run.Goes q r) :
    ∃ ts, Journey d thread input durable ts k r := by
  induction goes with
  | refl => exact ⟨ts, h⟩
  | tail _ step ih =>
    obtain ⟨ts, h⟩ := ih
    exact ⟨_, h.goes step⟩

/-- A thread that was to pause before its node is resumed with a value. The node is run and told the value. -/
theorem Journey.reentry_inquiry :
    let g : Engine := { definition := .inquiry, config := { before := ["ask"] } }
    let start : Request := .start "t" .null {}
    let resume : Request := .resume "t" (.str "yes") {}
    ∃ ts k q n s c, Journey .inquiry "t" .null false ts k q ∧ k.engine = g ∧ k.around = (g.serve {} start).1 ∧
      k.request = resume ∧ k.run.Invokes q n s c ∧ c.node = "ask" ∧ c.resumed = true ∧ c.resumeValue = .str "yes" ∧
      ∃ p, Definition.inquiry.Way "t" .null false ts p ∧ c.node = p.node ∧ c.step = ts.length ∧ s = p.state := by
  intro g start resume
  have waits : ((g.serve {} start).2.toOption.bind id).map Outcome.status = some .paused := by decide +kernel
  have answer : ((g.serve (g.serve {} start).1 resume).2.toOption.bind id).map Outcome.status = some .paused := by
    decide +kernel
  obtain ⟨o, ho, paused⟩ := exists_of_answer waits
  obtain ⟨o', ho', -⟩ := exists_of_answer answer
  obtain ⟨k, k', own, around, asked, own', around', asked', follows⟩ :=
    exists_follows (w := {}) ⟨[], rfl⟩ (.unused (.inl rfl)) ⟨Request.noConfusion, Request.noConfusion⟩
      ⟨Request.noConfusion, Request.noConfusion⟩ ho paused ho'
  have begins : Journey .inquiry "t" .null false [] k k.first :=
    .start (own ▸ rfl) (around ▸ rfl) asked
  obtain ⟨q, goes, ends⟩ := k.run.run_passes k.first
  obtain ⟨ts, journey⟩ := begins.along goes
  obtain ⟨r, providers, resumption, run, execution, entry, launched⟩ := k'.resume_eq asked'
  rw [own', around'] at resumption
  have facts : ((g.resumption "t" {} (g.serve {} start).1.store).toOption.any fun r =>
      !(reopened r "t" (g.serve {} start).1).isCancelled r.execution.thread && r.execution.node == "ask" &&
        r.interrupt.kind == .before && decide (0 < (r.config.recursionLimit - r.execution.step).toNat)) = true := by
    decide +kernel
  simp only [resumption, Except.toOption, Option.any_some, Bool.and_eq_true, Bool.not_eq_true', beq_iff_eq,
    decide_eq_true_eq] at facts
  obtain ⟨⟨⟨uncancelled, node⟩, kind⟩, left⟩ := facts
  obtain ⟨b, _, _, _, told, -, pending, -⟩ := taken_of_resumption resumption
  have same : k'.thread = "t" := congrArg Request.thread asked'
  have resumes : k'.Resumes b r.interrupt (.str "yes") :=
    ⟨⟨{}, asked'.trans (by rw [same])⟩, by rw [own', around', same]; exact told, pending⟩
  have inside : r.interrupt.kind ≠ .after := by rw [kind]; exact InterruptKind.noConfusion
  have journey' := journey.again (run_eq_of_goes goes ▸ ends) (own' ▸ rfl) (by rw [around']; rfl) same follows resumes
    inside
  have runs : k'.run.Runs k'.first := by
    refine ⟨?_, ?_, ?_, resumes.not_held inside⟩
    · show k'.launched.isCancelled k'.execution.thread = false
      rw [launched, execution, around']
      exact uncancelled
    · show k'.execution.node ≠ endMarker
      rw [execution, node]
      decide
    · show (k'.run.config.recursionLimit - k'.execution.step).toNat ≠ 0
      rw [run, execution]
      exact Nat.ne_of_gt left
  obtain ⟨n, hn⟩ : ∃ n, Definition.inquiry.node? "ask" = some n := ⟨_, rfl⟩
  have invokes : k'.run.Invokes k'.first n k'.execution.state (context k'.execution k'.entry) := by
    refine ⟨runs, ?_, rfl, rfl⟩
    show k'.run.definition.node? k'.execution.node = some n
    rw [definition_run, own', execution, node]
    exact hn
  obtain ⟨-, told⟩ := journey'.reentry
  obtain ⟨-, way, resumed, value, -⟩ := told _ _ _ invokes
  have again := resumed.mpr ⟨rfl, _, _, _, resumes, inside⟩
  exact ⟨ts, k', _, _, _, _, journey', own', around', asked', invokes, (congrArg Execution.node execution).trans node,
    again, (value again _ _ _ resumes).1, way⟩

end Launch

end Workflow
