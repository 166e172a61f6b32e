import Workflow.Proofs.Histories
import Workflow.Proofs.Plain

/-! The lifecycle of a thread, whose records are left by any calls of engines of one graph on one store in
    memory. Main statements: the records of every thread are in order, whatever logic does
    (`Reachable.orderly`), and where no logic deletes them, they begin with a run that has not taken a step
    and only grow until they are deleted (`lifecycle_of_reachable`). -/

namespace Workflow

/-! ### Logic that deletes nothing -/

/-- The action does not delete the records of its thread, whatever it is told. -/
def Action.Lasting {α : Type} : Action α → Prop
  | .done _ | .raise _ => True
  | .call _ _ _ next => ∀ r, (next r).Lasting
  | .resolve _ next => ∀ k, (next k).Lasting
  | .enabled _ next => ∀ b, (next b).Lasting
  | .cancel next | .log _ next => next.Lasting
  | .forget _ => False

namespace Action

variable {α β : Type} {a : Action α} {P : α → Prop}

theorem Lasting.bind (ha : a.Lasting) {f : α → Action β} (hf : ∀ x, (f x).Lasting) : (a.bind f).Lasting := by
  induction a with
  | done x => exact hf x
  | raise => trivial
  | call _ _ _ next ih => exact fun r => ih r (ha r)
  | resolve _ next ih => exact fun k => ih k (ha k)
  | enabled _ next ih => exact fun b => ih b (ha b)
  | cancel next ih | log _ next ih => exact ih ha
  | forget => exact ha.elim

theorem lasting_ofExcept (r : Except Fault α) : (ofExcept r).Lasting := by
  cases r <;> trivial

theorem Answers.lasting (h : a.Answers P) : a.Lasting := by
  induction a with
  | done | raise => trivial
  | call _ _ _ next ih => exact fun r => ih r (h r)
  | resolve _ next ih => exact fun k => ih k (h k)
  | enabled _ next ih => exact fun b => ih b (h b)
  | cancel | forget => exact h.elim
  | log _ next ih => exact ih h

theorem Lasting.forgotten_run (h : a.Lasting) (ps : Providers) (flags : CapabilityFlags) (e : Effects) :
    (a.run ps flags e).1.forgotten = e.forgotten := by
  induction a generalizing e with
  | done | raise => rfl
  | call _ _ _ next ih => exact ih _ (h _) _
  | resolve _ next ih => exact ih _ (h _) _
  | enabled _ next ih => exact ih _ (h _) _
  | cancel next ih | log _ next ih => exact ih h _
  | forget => exact h.elim

end Action

/-- No logic of the graph deletes the records of its thread. -/
def Definition.Lasting (d : Definition) : Prop :=
  ∀ n ∈ d.nodes, ∀ l, n.logic = some l → ∀ s c, (l s c).Lasting

theorem Node.lasting_action {n : Node} (h : ∀ l, n.logic = some l → ∀ s c, (l s c).Lasting) (s : State)
    (c : NodeContext) : (n.action s c).Lasting := by
  unfold action
  split
  · unfold runLogic
    cases hl : n.logic with
    | none => trivial
    | some l => exact (h l hl s c).bind fun r => Action.lasting_ofExcept _
  · exact (n.answers_runTools s).lasting

theorem Definition.Lasting.turn {d : Definition} (h : d.Lasting) (i : Invocation) (thread : String) (p : Position)
    (calls : CallLog) : (d.turn i thread p calls).1.forgotten = false := by
  unfold Definition.turn
  cases hn : d.node? p.node with
  | none => rfl
  | some n =>
    have lasting := Node.lasting_action (h n (List.mem_of_find?_eq_some hn)) p.state (p.context thread i.entry)
    exact lasting.forgotten_run i.providers n.flags { calls }

/-- Two words are gathered if the logic deletes nothing. -/
theorem Definition.gathering_lasting {l : Logic} (h : ∀ s c, (l s c).Lasting) : (gathering l).Lasting := by
  intro n hn l' hl
  rw [List.mem_singleton.mp hn] at hl
  cases hl
  exact h

theorem Definition.inquiry_lasting : inquiry.Lasting :=
  gathering_lasting fun s c => by
    unfold Logic.asking
    split <;> trivial

namespace Engine

variable {g run : Engine} {thread other : String} {p : Position} {entry : Entry} {w v : Surroundings} {q r : Pass}
  {x : Ended} {e : Execution} {request : Request}

/-! ### Records that stay -/

/-- No node that is run from the pass on deletes the records of its thread. -/
def Spares (g : Engine) (q : Pass) : Prop :=
  ∀ r, Relation.ReflTransGen g.Goes q r → g.Runs r → (g.turnAt r).1.forgotten = false

theorem spares_of_lasting (h : g.definition.Lasting) (q : Pass) : g.Spares q :=
  fun _ _ _ => h.turn _ _ _ _

theorem records_after_of_spared (hm : q.around.InMemory) (h : (g.turnAt q).1.forgotten = false) (thread : String) :
    (g.after q).records thread = q.around.records thread := by
  by_cases own : q.execution.thread = thread
  · subst own
    rw [after, Surroundings.records_absorb_self hm, h, if_neg Bool.false_ne_true]
  · exact records_after_of_ne hm own

theorem prefix_records_keep (hm : w.InMemory) (c : Checkpoint) (thread : String) :
    w.records thread <+: (w.keep c).records thread := by
  rw [Surroundings.records_keep hm]
  exact List.prefix_append _ _

theorem Goes.prefix_records (h : g.Goes q r) (hm : q.around.InMemory) (spared : (g.turnAt q).1.forgotten = false)
    (thread : String) : q.around.records thread <+: r.around.records thread := by
  obtain ⟨p, -, -, -, rfl⟩ := h.next hm
  have told : (g.told q p).records thread = q.around.records thread :=
    records_told.trans (records_after_of_spared hm spared thread)
  show _ <+: (g.noted q p).records thread
  unfold noted
  split
  · exact told ▸ List.prefix_refl _
  · rw [← told]
    exact prefix_records_keep (inMemory_told hm) _ thread

theorem passes_prefix_records (h : Relation.ReflTransGen g.Goes q r) (hm : q.around.InMemory) (spared : g.Spares q)
    (thread : String) : r.around.InMemory ∧ q.around.records thread <+: r.around.records thread := by
  induction h with
  | refl => exact ⟨hm, List.prefix_refl _⟩
  | tail hgoes hstep ih =>
    obtain ⟨memory, before⟩ := ih
    obtain ⟨p, runs, -, -, hr⟩ := hstep.next memory
    refine ⟨?_, before.trans (hstep.prefix_records memory (spared _ hgoes runs) thread)⟩
    rw [hr]
    exact inMemory_noted memory

theorem Writes.prefix_records (h : g.Writes e w x) (hm : w.InMemory) (thread : String) :
    w.records thread <+: x.1.records thread := by
  cases h with
  | paused =>
    rw [pause_eq hm, Surroundings.records_emit]
    exact prefix_records_keep hm _ thread
  | completed =>
    rw [complete_eq hm, Surroundings.records_emitLast]
    exact prefix_records_keep hm _ thread
  | failed =>
    rw [fail_eq hm, Surroundings.records_emitLast]
    exact prefix_records_keep hm _ thread
  | lost => exact List.prefix_refl _

theorem Ends.prefix_records (h : g.Ends q x) (hm : q.around.InMemory)
    (spared : g.Runs q → (g.turnAt q).1.forgotten = false) (thread : String) :
    q.around.records thread <+: x.1.records thread := by
  have after (runs : g.Runs q) {e x} (hx : g.Writes e (g.after q) x) :
      q.around.records thread <+: x.1.records thread := by
    rw [← records_after_of_spared hm (spared runs)]
    exact hx.prefix_records (inMemory_after hm) thread
  have told (runs : g.Runs q) {e p x} (hx : g.Writes e (g.told q p) x) :
      q.around.records thread <+: x.1.records thread := by
    rw [← records_after_of_spared hm (spared runs), ← records_told]
    exact hx.prefix_records (inMemory_told hm) thread
  cases h with
  | cancelled | exhausted => exact (Writes.failed _).prefix_records hm thread
  | completed => exact Writes.completed.prefix_records hm thread
  | held => exact (Writes.paused _ _ _).prefix_records hm thread
  | suspended runs => exact after runs (.paused _ _ _)
  | withdrawn runs => exact after runs (.failed _)
  | failed runs => exact after runs (.failed _)
  | lost runs => exact after runs (.lost (e := q.execution) _)
  | paused runs => exact told runs (.paused _ _ _)
  | revoked runs => exact told runs (.failed _)
  | unsaved _ _ _ _ save =>
    rw [save_snapshot (inMemory_told hm)] at save
    cases save

theorem run_prefix_records (hm : q.around.InMemory) (spared : g.Spares q) (thread : String) :
    q.around.records thread <+: (g.run q).1.records thread := by
  obtain ⟨r, hgoes, hends⟩ := g.run_passes q
  obtain ⟨memory, before⟩ := passes_prefix_records hgoes hm spared thread
  exact before.trans (hends.prefix_records memory (spared r hgoes) thread)

/-! ### Requests -/

/-- The last record of a thread shows a position. -/
def Marks (thread : String) (p : Position) (w : Surroundings) : Prop :=
  ∃ c, (w.records thread).getLast? = some c ∧ c.Shows p

theorem marks_keep (hm : w.InMemory) (e : Execution) :
    Marks e.thread e.position (w.keep (g.snapshot e w)) := by
  refine ⟨g.snapshot e w, ?_, e.shows_checkpoint _ _ _⟩
  rw [Surroundings.records_keep_self hm thread_snapshot, List.getLast?_concat]

/-- A run that is written down and has no other records is in order. -/
theorem keeps_opened (hm : w.InMemory) (none : w.records thread = []) (p : Position)
    (metadata : Value) (observers : List Observer) :
    g.Keeps thread p (g.opened (p.running thread metadata) observers w) ∧
      Marks thread p (g.opened (p.running thread metadata) observers w) := by
  have joined : g.Keeps thread p (w.joined thread observers) := by
    have records : (w.joined thread observers).records thread = [] :=
      (Surroundings.records_congr (w.store_joined thread observers) thread).trans none
    exact ⟨hm.joined _ _, records ▸ .nil, fun c hc => by rw [records] at hc; cases hc⟩
  have running := joined.running (g := g) metadata
  have marks : Marks thread p _ := marks_keep (g := g) (hm.joined thread observers) (p.running thread metadata)
  have told : (g.opened (p.running thread metadata) observers w).records thread = _ := Surroundings.records_emit
  refine ⟨⟨inMemory_opened hm _, ?_, ?_⟩, ?_⟩
  · exact told ▸ running.orderly
  · exact told ▸ running.last
  · rw [Marks, told]
    exact marks

/-- A run that a request enters is in order where its last record shows it to be. -/
theorem Enters.keeps (h : g.Enters w request run q) (hm : w.InMemory)
    (orderly : Orderly g.definition request.thread (w.records request.thread)) :
    run.definition = g.definition ∧ w.records request.thread <+: q.around.records request.thread ∧
    ∃ p entry v, q = run.passAt request.thread p entry v ∧ run.Keeps request.thread p v ∧
      Marks request.thread p v := by
  cases h with
  | @start thread input options config e providers opening layer =>
    obtain ⟨-, none, p, -, rfl, hstep, hhistory⟩ := (opening_eq_ok hm).mp opening
    obtain ⟨node, state, step, history⟩ := p
    cases hstep
    cases hhistory
    obtain ⟨keeps, marks⟩ := keeps_opened (g := g) hm none ⟨node, state, 0, []⟩ config.metadata options.observers
    refine ⟨rfl, ?_, ⟨node, state, 0, []⟩, {}, _, rfl, ⟨keeps.memory, keeps.orderly, keeps.last⟩, marks⟩
    show w.records thread <+: _
    rw [none]
    exact List.nil_prefix
  | @resume thread value options r providers resumption layer =>
    obtain ⟨c, kept, stored, e, hc, paused, -, he, -, -, -, hr⟩ := resumption_eq_ok hm resumption
    have unfailed : c.status ≠ .failed := by rw [paused]; exact RunStatus.noConfusion
    obtain ⟨e', he', shows, own, hnone⟩ := (orderly.written c (List.mem_of_getLast? hc)).takenUp unfailed
    cases he.symm.trans he'
    have records : (reopened r thread w).records thread = w.records thread := records_reopened
    have keeps : Keeps { g with config := r.config, providers } thread e.position (reopened r thread w) := by
      refine ⟨inMemory_reopened hm, records ▸ orderly, fun b hb => ?_⟩
      rw [records] at hb
      cases hc.symm.trans hb
      exact ⟨by rw [paused]; rfl, shows.history ▸ List.prefix_refl _⟩
    refine ⟨rfl, records ▸ List.prefix_refl _, e.position, entryAfter r.interrupt.kind value, _, ?_, keeps,
      c, records ▸ hc, shows⟩
    have running : r.execution = e.position.running thread r.config.metadata := by
      have own : e.thread = thread := own
      rw [hr, Position.running, own, hnone]
      rfl
    rw [running]
    rfl

theorem orderly_serve (hm : w.InMemory) (orderly : Orderly g.definition request.thread (w.records request.thread)) :
    Orderly g.definition request.thread ((g.serve w request).1.records request.thread) := by
  cases g.serve_cases hm request with
  | idle _ records => exact records ▸ orderly
  | @begun thread input options config e f opening served =>
    obtain ⟨-, none, p, -, rfl, hstep, hhistory⟩ := (opening_eq_ok hm).mp opening
    obtain ⟨node, state, step, history⟩ := p
    cases hstep
    cases hhistory
    rw [served]
    exact (keeps_opened (g := g) hm none ⟨node, state, 0, []⟩ config.metadata options.observers).1.orderly
  | entered enters =>
    obtain ⟨hd, -, p, entry, v, rfl, keeps, -⟩ := enters.keeps hm orderly
    rw [enters.serve_eq hm, ← hd]
    exact keeps.run entry
  | ended last paused _ own served =>
    rw [served]
    refine orderly_fail hm own orderly fun b hb => ?_
    cases last.symm.trans hb
    rw [paused]
    rfl
  | deleted none =>
    rw [Request.thread, none]
    exact .nil

/-- The first of the records is of a run that has not taken a step. -/
def Opens (cs : List Checkpoint) : Prop := ∀ c, cs.head? = some c → c.status = .running ∧ c.step = 0

theorem Opens.of_prefix {cs cs' : List Checkpoint} (h : Opens cs) (hne : cs ≠ []) (hpre : cs <+: cs') : Opens cs' := by
  obtain ⟨more, rfl⟩ := hpre
  obtain ⟨c, rest, rfl⟩ := List.exists_cons_of_ne_nil hne
  exact h

theorem opens_opened {input : Value} {overrides : Overrides} {config : Config} (hm : w.InMemory)
    (h : g.opening thread input overrides w.store = .ok (config, e)) (observers : List Observer) :
    (g.opened e observers w).records thread ≠ [] ∧ Opens ((g.opened e observers w).records thread) := by
  obtain ⟨-, none, p, -, rfl, -, -⟩ := (opening_eq_ok hm).mp h
  have records := records_opened (g := g)
    (e := { thread, node := p.node, state := p.state, metadata := config.metadata }) hm observers
  rw [none, List.nil_append] at records
  rw [records]
  refine ⟨List.cons_ne_nil _ _, fun c hc => ?_⟩
  cases hc
  exact ⟨rfl, rfl⟩

/-- A request whose nodes delete no records adds to those of its thread, unless it is to delete them. The first
    record is that of a start. -/
theorem serve_grows (hm : w.InMemory) (orderly : Orderly g.definition request.thread (w.records request.thread))
    (spares : ∀ run q, g.Enters w request run q → run.Spares q) (kept : request ≠ .delete request.thread) :
    w.records request.thread <+: (g.serve w request).1.records request.thread ∧
      (w.records request.thread = [] → Opens ((g.serve w request).1.records request.thread)) := by
  have unopened (some : w.records request.thread ≠ []) :
      w.records request.thread = [] → Opens ((g.serve w request).1.records request.thread) :=
    fun none => absurd none some
  cases g.serve_cases hm request with
  | idle _ records =>
    rw [records]
    exact ⟨List.prefix_refl _, fun none c hc => by rw [none] at hc; cases hc⟩
  | @begun thread input options _ _ _ opening served =>
    have none : w.records thread = [] := ((opening_eq_ok hm).mp opening).2.1
    rw [served]
    exact ⟨none ▸ List.nil_prefix, fun _ => (opens_opened hm opening options.observers).2⟩
  | @entered _ run q enters =>
    have grows : q.around.records request.thread <+: (g.serve w request).1.records request.thread := by
      rw [enters.serve_eq hm]
      exact run_prefix_records (enters.inMemory hm) (spares run q enters) request.thread
    refine ⟨(enters.keeps hm orderly).2.1.trans grows, ?_⟩
    cases enters with
    | @start _ _ options _ _ _ opening =>
      obtain ⟨hne, opens⟩ := opens_opened hm opening options.observers
      exact fun _ => opens.of_prefix hne grows
    | resume resumption =>
      obtain ⟨c, -, -, -, hc, -⟩ := resumption_eq_ok hm resumption
      exact unopened (List.ne_nil_of_mem (List.mem_of_getLast? hc))
  | ended last _ _ _ served =>
    refine ⟨?_, unopened (List.ne_nil_of_mem (List.mem_of_getLast? last))⟩
    rw [served]
    exact (Writes.failed _).prefix_records hm _
  | deleted => exact absurd rfl kept

end Engine

/-! ### Any calls of engines of a graph -/

/-- Surroundings whose store in memory was empty and has been used since by calls of engines of a graph. Another
    process may go on with the store, which has observers and running threads of its own. -/
inductive Reachable (d : Definition) : Surroundings → Prop
  | empty {w : Surroundings} (h : w.store = .memory []) : Reachable d w
  | served {w : Surroundings} {g : Engine} (h : Reachable d w) (hg : g.definition = d) (request : Request) :
      Reachable d (g.serve w request).1
  | handed {w v : Surroundings} (h : Reachable d w) (hv : v.store = w.store) : Reachable d v

namespace Reachable

variable {d : Definition} {w : Surroundings}

theorem inMemory (h : Reachable d w) : w.InMemory := by
  induction h with
  | empty h => exact ⟨[], h⟩
  | served _ _ request ih => exact (Engine.serve_frame _ ih request).1
  | handed _ hv ih => exact ih.congr hv

theorem serveAll {g : Engine} (h : Reachable d w) (hg : g.definition = d) (requests : List Request) :
    Reachable d (g.serveAll w requests) := by
  induction requests generalizing w with
  | nil => exact h
  | cons request _ ih => exact ih (h.served hg request)

/-- The records of every thread are in order, whatever logic does. -/
theorem orderly (h : Reachable d w) (thread : String) : Orderly d thread (w.records thread) := by
  induction h with
  | empty h =>
    rw [Surroundings.records_of_store h]
    exact .nil
  | @served w g h hg request ih =>
    by_cases own : request.thread = thread
    · subst own hg
      exact Engine.orderly_serve h.inMemory ih
    · rw [(Engine.serve_frame g h.inMemory request).2 thread own]
      exact ih
  | handed _ hv ih =>
    rw [Surroundings.records_congr hv]
    exact ih

/-- A request leaves the records of a thread without any, if it is to delete them, and adds to them otherwise. -/
theorem grows (lasting : d.Lasting) (h : Reachable d w) {g : Engine} (hg : g.definition = d) (request : Request)
    (thread : String) :
    (request = .delete thread → (g.serve w request).1.records thread = []) ∧
    (request ≠ .delete thread → w.records thread <+: (g.serve w request).1.records thread) ∧
    (w.records thread = [] → Engine.Opens ((g.serve w request).1.records thread)) := by
  have hm := h.inMemory
  have deleted : request = .delete thread → (g.serve w request).1.records thread = [] := by
    rintro rfl
    exact (Surroundings.records_congr (Engine.store_delete hm) thread).trans (Surroundings.records_forget_self hm)
  refine ⟨deleted, ?_⟩
  by_cases own : request.thread = thread
  · subst own hg
    by_cases kept : request = .delete request.thread
    · refine ⟨fun hne => absurd kept hne, fun _ c hc => ?_⟩
      rw [deleted kept] at hc
      cases hc
    · have spares : ∀ run q, g.Enters w request run q → run.Spares q := fun run q he =>
        Engine.spares_of_lasting ((he.keeps hm (h.orderly _)).1 ▸ lasting) q
      obtain ⟨before, opens⟩ := Engine.serve_grows hm (h.orderly _) spares kept
      exact ⟨fun _ => before, opens⟩
  · rw [(Engine.serve_frame g hm request).2 thread own]
    exact ⟨fun _ => List.prefix_refl _, fun none c hc => by rw [none] at hc; cases hc⟩

theorem opens (lasting : d.Lasting) (h : Reachable d w) (thread : String) : Engine.Opens (w.records thread) := by
  induction h with
  | empty h =>
    rw [Surroundings.records_of_store h]
    exact fun c hc => by cases hc
  | @served w g h hg request ih =>
    obtain ⟨deleted, before, opens⟩ := h.grows lasting hg request thread
    by_cases none : w.records thread = []
    · exact opens none
    by_cases hr : request = .delete thread
    · rw [deleted hr]
      exact fun c hc => by cases hc
    · exact ih.of_prefix none (before hr)
  | handed _ hv ih =>
    rw [Surroundings.records_congr hv]
    exact ih

end Reachable

/-- The records of a thread from its start on: they are in order, and the first is of a run that has not taken a
    step. -/
structure Lifecycle (d : Definition) (thread : String) (cs : List Checkpoint) : Prop extends
    Orderly d thread cs where
  opens : ∀ c, cs.head? = some c → c.status = .running ∧ c.step = 0

namespace Engine

/-- Where no logic of a graph deletes them, the history of every thread is a lifecycle, whatever calls have been
    made of engines of the graph; and whatever the next call is, it adds to the history or is to delete it. -/
theorem lifecycle_of_reachable {d : Definition} (lasting : d.Lasting) {w : Surroundings} (h : Reachable d w)
    (thread : String) :
    ∃ cs, history thread w = .ok cs ∧ Lifecycle d thread cs ∧
      ∀ (g : Engine) (request : Request), g.definition = d →
        ∃ cs', history thread (g.serve w request).1 = .ok cs' ∧
          (request = .delete thread → cs' = []) ∧ (request ≠ .delete thread → cs <+: cs') := by
  refine ⟨_, Surroundings.list_eq h.inMemory thread, ⟨h.orderly thread, h.opens lasting thread⟩, ?_⟩
  intro g request hg
  obtain ⟨deleted, grown, -⟩ := h.grows lasting hg request thread
  exact ⟨_, Surroundings.list_eq (h.served hg request).inMemory thread, deleted, grown⟩

/-- A run that asks twice, and that another process takes up after the first answer and ends. -/
theorem lifecycle_of_reachable_inquiry :
    let g : Engine := { definition := .inquiry }
    let w : Surroundings := g.serveAll {} [.start "t" .null {}, .resume "t" (.str "yes") {}]
    let v : Surroundings := g.serveAll { store := w.store } [.cancel "t"]
    (v.records "t").map (fun c => (c.status, c.history.length)) =
      [(.running, 0), (.paused, 0), (.running, 1), (.paused, 1), (.failed, 1)] ∧
    Definition.inquiry.Lasting ∧ Reachable .inquiry v ∧
    ∃ cs, history "t" v = .ok cs ∧ Lifecycle .inquiry "t" cs ∧
      ∀ (g : Engine) (request : Request), g.definition = .inquiry →
        ∃ cs', history "t" (g.serve v request).1 = .ok cs' ∧
          (request = .delete "t" → cs' = []) ∧ (request ≠ .delete "t" → cs <+: cs') := by
  intro g w v
  have lasting := Definition.inquiry_lasting
  have taken : Reachable .inquiry w :=
    (Reachable.empty rfl).serveAll (g := g) rfl [.start "t" .null {}, .resume "t" (.str "yes") {}]
  have handed {w : Surroundings} (h : Reachable .inquiry w) : Reachable .inquiry { store := w.store } := h.handed rfl
  have reachable : Reachable .inquiry v := (handed taken).serveAll (g := g) rfl [.cancel "t"]
  exact ⟨by decide +kernel, lasting, reachable, lifecycle_of_reachable lasting reachable "t"⟩

end Engine

end Workflow
