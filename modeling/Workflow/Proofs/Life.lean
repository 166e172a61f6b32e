import Workflow.Proofs.Requests
import Workflow.Proofs.Sound

/-! The life of a thread: the input that it was started with, and how the node of each of its steps is run.
    A start begins a life, and a resumption says how the node that it enters again and those after it are
    run. Main statement: whatever is asked of an engine, the records of a thread show positions of the walk
    of its life (`history_shows_walk`). -/

namespace Workflow

/-- The life of a thread. -/
structure Life where
  input : Value := .null
  /-- How the node of each step is run that is taken to its end. -/
  invocations : Nat → Invocation := fun _ => { providers := [] }

/-- A snapshot that was taken at a position. -/
structure Checkpoint.Shows (c : Checkpoint) (p : Position) : Prop where
  node : c.node = .str p.node
  state : c.state = .ofFields p.state
  step : c.step = p.step
  history : c.history = p.history.map .str

/-- The answers of nodes do not depend on the calls that providers served before. -/
def Definition.Repeats (d : Definition) (ps : Providers) : Prop :=
  ∀ n ∈ d.nodes, ∀ state context calls, (n.run ps state context { calls }).2 = (n.run ps state context).2

/-! ### Answers that repeat -/

section Repeating
variable {α : Type} {ps : Providers} {d : Definition} {p : Position} {i : Invocation}

/-- What a provider answers does not depend on the calls that it served before. -/
def Provider.Steady (p : Provider) : Prop := ∀ earlier c, p.answer earlier c = p.answer [] c

theorem Providers.dispatch_snd (h : ∀ e ∈ ps, e.2.Steady) (flags : CapabilityFlags) (log : CallLog)
    (kind : CapabilityKind) (call : Call) (callId : Value) :
    (ps.dispatch flags log kind call callId).2 = (ps.dispatch flags [] kind call callId).2 := by
  unfold dispatch
  split
  · rfl
  · cases hp : ps.get? kind with
    | none => rfl
    | some p =>
      obtain ⟨l₁, l₂, rfl, -⟩ := List.lookup_eq_some_iff.mp hp
      have hmem : (kind, p) ∈ l₁ ++ (kind, p) :: l₂ := List.mem_append_right l₁ List.mem_cons_self
      dsimp only
      rw [h _ hmem (log.of p.mark), h _ hmem (CallLog.of [] p.mark)]

theorem Providers.mem_set {kind : CapabilityKind} {p : Provider} {e : CapabilityKind × Provider}
    (h : e ∈ ps.set kind p) : e ∈ ps ∨ e.2 = p := by
  induction ps with
  | nil =>
    rw [List.mem_singleton.mp h]
    exact .inr rfl
  | cons q ps ih =>
    unfold set at h
    split at h <;> rcases List.mem_cons.mp h with rfl | h
    · exact .inr rfl
    · exact .inl (List.mem_cons_of_mem q h)
    · exact .inl List.mem_cons_self
    · exact (ih h).imp_left (List.mem_cons_of_mem q)

theorem Providers.steady_layer {added : List (String × Provider)} {qs : Providers} (h : ∀ e ∈ ps, e.2.Steady)
    (steady : ∀ a ∈ added, a.2.Steady) (layer : ps.layer added = .ok qs) : ∀ e ∈ qs, e.2.Steady := by
  induction added generalizing ps with
  | nil =>
    cases layer
    exact h
  | cons a added ih =>
    obtain ⟨first, rest⟩ := List.forall_mem_cons.mp steady
    obtain ⟨kind, -, layer⟩ := bind_eq_ok.mp layer
    refine ih (fun e he => ?_) rest layer
    rcases mem_set he with he | same
    · exact h e he
    · exact same ▸ first

theorem Action.run_snd (h : ∀ e ∈ ps, e.2.Steady) (flags : CapabilityFlags) (a : Action α) (e f : Effects) :
    (a.run ps flags e).2 = (a.run ps flags f).2 := by
  induction a generalizing e f with
  | done | raise => rfl
  | call kind c callId next ih =>
    simp only [run]
    rw [Providers.dispatch_snd h flags e.calls, Providers.dispatch_snd h flags f.calls]
    exact ih _ _ _
  | resolve tool next ih => exact ih _ _ _
  | enabled kind next ih => exact ih _ _ _
  | cancel next ih | forget next ih | log v next ih => exact ih _ _

/-- What an action asks for itself, to end and to forget its thread, does not depend on them either. -/
theorem Action.run_asked (h : ∀ e ∈ ps, e.2.Steady) (flags : CapabilityFlags) (a : Action α) {e f : Effects}
    (cancelled : e.cancelled = f.cancelled) (forgotten : e.forgotten = f.forgotten) :
    (a.run ps flags e).1.cancelled = (a.run ps flags f).1.cancelled ∧
      (a.run ps flags e).1.forgotten = (a.run ps flags f).1.forgotten := by
  induction a generalizing e f with
  | done | raise => exact ⟨cancelled, forgotten⟩
  | call kind c callId next ih =>
    simp only [run]
    rw [Providers.dispatch_snd h flags e.calls, Providers.dispatch_snd h flags f.calls]
    exact ih _ cancelled forgotten
  | resolve tool next ih => exact ih _ cancelled forgotten
  | enabled kind next ih => exact ih _ cancelled forgotten
  | cancel next ih => exact ih rfl forgotten
  | forget next ih => exact ih cancelled rfl
  | log v next ih => exact ih cancelled forgotten

/-- Nodes repeat their answers if providers do. -/
theorem Definition.repeats_of_steady (d : Definition) (h : ∀ e ∈ ps, e.2.Steady) : d.Repeats ps := by
  intro n _ state context calls
  exact congrArg (Except.mapError n.wrap) (Action.run_snd h n.flags (n.action state context) _ _)

theorem Definition.Repeats.turn_eq (h : d.Repeats i.providers) (thread : String) (p : Position)
    (calls : CallLog) : (d.turn i thread p calls).2 = (d.turn i thread p).2 := by
  unfold turn
  cases hn : d.node? p.node with
  | none => rfl
  | some n => exact congrArg (d.stride p) (h n (List.mem_of_find?_eq_some hn) _ _ _)

theorem Definition.turn_asked (d : Definition) (h : ∀ e ∈ i.providers, e.2.Steady) (thread : String) (p : Position)
    (calls calls' : CallLog) :
    (d.turn i thread p calls).1.cancelled = (d.turn i thread p calls').1.cancelled ∧
      (d.turn i thread p calls).1.forgotten = (d.turn i thread p calls').1.forgotten := by
  unfold turn
  cases d.node? p.node with
  | none => exact ⟨rfl, rfl⟩
  | some n => exact Action.run_asked h n.flags (n.action p.state (p.context thread i.entry)) rfl rfl

end Repeating

/-! ### Lives and their records -/

namespace Life

variable {l : Life} {d : Definition} {thread : String} {p : Position} {c : Checkpoint} {cs : List Checkpoint}
  {k : Nat} {i : Invocation}

/-- The walk of a life comes to a position. -/
def Visits (l : Life) (d : Definition) (thread : String) (p : Position) : Prop :=
  d.walk thread l.input l.invocations p.history.length = some p

/-- A life that goes on at a step, whose node is run in the given way; those after it are run with the same
    providers. -/
def resumed (l : Life) (k : Nat) (i : Invocation) : Life :=
  { l with
    invocations := fun n =>
      if n < k then l.invocations n else if n = k then i else { providers := i.providers } }

theorem invocations_resumed_self (l : Life) : (l.resumed k i).invocations k = i := by
  rw [resumed]
  dsimp only
  rw [if_neg (Nat.lt_irrefl k), if_pos rfl]

theorem invocations_resumed_of_lt (l : Life) {n : Nat} (h : k < n) :
    (l.resumed k i).invocations n = { providers := i.providers } := by
  rw [resumed]
  dsimp only
  rw [if_neg (Nat.lt_asymm h), if_neg (Nat.ne_of_gt h)]

/-- What the records of a thread are, the oldest first: each that is not of a failure shows a position of the
    walk, and no record is of an earlier step than one before it. -/
structure Told (l : Life) (d : Definition) (thread : String) (cs : List Checkpoint) : Prop where
  shows : ∀ c ∈ cs, c.status ≠ .failed → ∃ p, l.Visits d thread p ∧ c.Shows p
  ordered : cs.Pairwise fun b c => b.step ≤ c.step

theorem Visits.step_eq (h : l.Visits d thread p) : p.step = p.history.length :=
  (Definition.length_of_walk h).2

/-- How later steps are run does not change what was visited before. -/
theorem Visits.resumed (h : l.Visits d thread p) (hk : p.history.length ≤ k) :
    (l.resumed k i).Visits d thread p := by
  have same : ∀ m < p.history.length, (l.resumed k i).invocations m = l.invocations m :=
    fun m hm => if_pos (Nat.lt_of_lt_of_le hm hk)
  exact (Definition.walk_congr same).trans h

theorem Told.nil : l.Told d thread [] := ⟨fun _ h => (List.not_mem_nil h).elim, .nil⟩

theorem Told.concat (h : l.Told d thread cs) (hc : c.status ≠ .failed → ∃ p, l.Visits d thread p ∧ c.Shows p)
    (hle : ∀ b ∈ cs, b.step ≤ c.step) : l.Told d thread (cs ++ [c]) where
  shows b hb hs := by
    rcases List.mem_append.mp hb with hb | hb
    · exact h.shows b hb hs
    · rw [List.mem_singleton] at hb
      subst hb
      exact hc hs
  ordered := List.pairwise_append.mpr ⟨h.ordered, List.pairwise_singleton _ _, fun b hb c' hc' =>
    List.mem_singleton.mp hc' ▸ hle b hb⟩

theorem Told.step_le_last (h : l.Told d thread cs) (hc : cs.getLast? = some c) : ∀ b ∈ cs, b.step ≤ c.step := by
  obtain ⟨init, rfl⟩ := List.getLast?_eq_some_iff.mp hc
  intro b hb
  rcases List.mem_append.mp hb with hb | hb
  · exact (List.pairwise_append.mp h.ordered).2.2 b hb c List.mem_cons_self
  · obtain rfl := List.mem_singleton.mp hb
    exact Int.le_refl _

theorem Told.resumed (h : l.Told d thread cs) (hk : ∀ b ∈ cs, b.step ≤ k) :
    (l.resumed k i).Told d thread cs where
  shows c hc hs := by
    obtain ⟨p, hp, hsh⟩ := h.shows c hc hs
    refine ⟨p, hp.resumed ?_, hsh⟩
    have hle := hk c hc
    rw [hsh.step, hp.step_eq] at hle
    exact Int.ofNat_le.mp hle
  ordered := h.ordered

end Life

theorem Execution.shows_checkpoint (e : Execution) (graph : String) (id timestamp : Value) :
    (e.checkpoint graph id timestamp).Shows e.position := ⟨rfl, rfl, rfl, rfl⟩

/-- A run that is taken up stands where its snapshot was taken. -/
theorem Checkpoint.Shows.position_eq {c : Checkpoint} {p : Position} {e : Execution} (h : c.Shows p)
    (he : Execution.ofCheckpoint c = .ok e) : e.position = p := by
  have texts : (p.history.map Value.str).map Value.text = p.history := by
    simp [List.map_map, Function.comp_def, Value.text]
  rw [Engine.position_ofCheckpoint he, h.node, h.state, h.step, h.history, Value.fields_ofFields, texts]
  rfl

namespace Engine

variable {g : Engine} {l : Life} {thread : String} {e : Execution} {w : Surroundings} {q r : Pass}
  {p : Position} {x : Ended} {f : Failure}

/-! ### Passes of a life -/

/-- A run stands on the walk of a life, and its records are those of the life. -/
structure Stands (d : Definition) (l : Life) (thread : String) (e : Execution) (w : Surroundings) : Prop where
  own : e.thread = thread
  visits : l.Visits d thread e.position
  memory : w.InMemory
  told : l.Told d thread (w.records thread)
  bound : ∀ c ∈ w.records thread, c.step ≤ e.step

/-- A pass of the loop is on the walk of a life: it stands there, and the nodes that are still to be run are
    run as the life says. -/
structure OnCourse (g : Engine) (l : Life) (thread : String) (q : Pass) : Prop extends
    Stands g.definition l thread q.execution q.around where
  here : l.invocations q.execution.history.length = ⟨g.providers, q.entry⟩
  later : ∀ n, q.execution.history.length < n → l.invocations n = ⟨g.providers, {}⟩

/-- Running a node leaves a life its records or drops them. -/
theorem OnCourse.told_after (h : g.OnCourse l thread q) :
    l.Told g.definition thread ((g.after q).records thread) := by
  obtain rfl := h.own
  rw [after, Surroundings.records_absorb_self h.memory]
  split
  · exact .nil
  · exact h.told

theorem OnCourse.bound_after (h : g.OnCourse l thread q) :
    ∀ c ∈ (g.after q).records thread, c.step ≤ q.execution.step := by
  obtain rfl := h.own
  exact fun c hc => h.bound c (mem_records_after h.memory hc)

theorem OnCourse.stands_after (h : g.OnCourse l thread q) : Stands g.definition l thread q.execution (g.after q) :=
  ⟨h.own, h.visits, inMemory_after h.memory, h.told_after, h.bound_after⟩

/-- What the node of a pass comes to is what the step of the walk comes to. -/
theorem OnCourse.visits_reached (h : g.OnCourse l thread q) (hr : g.definition.Repeats g.providers)
    (hp : (g.turnAt q).2 = .reached p) : l.Visits g.definition thread p := by
  obtain rfl := h.own
  have hturn : (g.definition.turn (l.invocations q.execution.history.length) q.execution.thread
      q.execution.position).2 = .reached p := by
    rw [h.here, ← Definition.Repeats.turn_eq hr, ← hp, turnAt]
  have hlen : p.history.length = q.execution.history.length + 1 := by
    rw [(Definition.step_of_turn_reached hp).2, List.length_append, List.length_singleton]
    rfl
  rw [Life.Visits, hlen]
  exact Definition.walk_succ h.visits hturn

theorem OnCourse.stands_told (h : g.OnCourse l thread q) (hr : g.definition.Repeats g.providers)
    (hp : (g.turnAt q).2 = .reached p) : Stands g.definition l thread (q.execution.arrived p) (g.told q p) where
  own := h.own
  visits := h.visits_reached hr hp
  memory := inMemory_told h.memory
  told := by
    rw [records_told]
    exact h.told_after
  bound c hc := by
    rw [records_told] at hc
    have hstep : p.step = q.execution.step + 1 := (Definition.step_of_turn_reached hp).1
    show c.step ≤ p.step
    have := h.bound_after c hc
    omega

theorem Stands.told_keep (h : Stands g.definition l thread e w) {c : Checkpoint} (hc : c.thread = .str thread)
    (hs : c.Shows e.position) : l.Told g.definition thread ((w.keep c).records thread) := by
  rw [Surroundings.records_keep_self h.memory hc]
  exact h.told.concat (fun _ => ⟨e.position, h.visits, hs⟩) fun b hb => hs.step ▸ h.bound b hb

theorem Stands.keep (h : Stands g.definition l thread e w) :
    Stands g.definition l thread e (w.keep (g.snapshot e w)) where
  own := h.own
  visits := h.visits
  memory := h.memory.keep _
  told := h.told_keep (h.own ▸ thread_snapshot) (e.shows_checkpoint _ _ _)
  bound c hc := by
    rw [Surroundings.records_keep_self h.memory (h.own ▸ thread_snapshot)] at hc
    rcases List.mem_append.mp hc with hc | hc
    · exact h.bound c hc
    · rw [List.mem_singleton.mp hc]
      exact Int.le_refl _

theorem OnCourse.goes (h : g.OnCourse l thread q) (hr : g.definition.Repeats g.providers) (hgoes : g.Goes q r) :
    g.OnCourse l thread r := by
  obtain ⟨p, -, hp, -, rfl⟩ := hgoes.next h.memory
  have hlen : p.history.length = q.execution.history.length + 1 := by
    rw [(Definition.step_of_turn_reached hp).2, List.length_append, List.length_singleton]
    rfl
  have stands := h.stands_told hr hp
  refine ⟨?_, ?_, ?_⟩
  · show Stands g.definition l thread (q.execution.arrived p) (g.noted q p)
    unfold noted
    split
    · exact stands
    · exact stands.keep
  · show l.invocations p.history.length = ⟨g.providers, {}⟩
    exact h.later _ (hlen ▸ Nat.lt_succ_self _)
  · show ∀ n, p.history.length < n → l.invocations n = ⟨g.providers, {}⟩
    exact fun n hn => h.later n (by omega)

/-! ### Endings of a life -/

theorem Stands.told_pause (h : Stands g.definition l thread e w) (node : String) (kind : InterruptKind)
    (prompt : Value) :
    l.Told g.definition thread ((g.pause e node kind prompt w).1.records thread) := by
  rw [pause_eq h.memory, Surroundings.records_emit]
  exact h.told_keep (h.own ▸ thread_snapshot) ((e.paused node kind prompt).shows_checkpoint _ _ _)

theorem Stands.told_complete (h : Stands g.definition l thread e w) :
    l.Told g.definition thread ((g.complete e w).1.records thread) := by
  rw [complete_eq h.memory, Surroundings.records_emitLast]
  exact h.told_keep (h.own ▸ thread_snapshot) (e.completed.shows_checkpoint _ _ _)

/-- A failure is written down over the last record, wherever the run has come to. -/
theorem told_fail (hm : w.InMemory) (ht : e.thread = thread)
    (h : l.Told g.definition thread (w.records thread)) :
    l.Told g.definition thread ((g.fail e f w).1.records thread) := by
  subst ht
  rw [fail_eq hm, Surroundings.records_emitLast, Surroundings.records_keep_self hm thread_verdict]
  refine h.concat (fun hs => absurd status_verdict hs) fun b hb => ?_
  unfold verdict
  split
  · rename_i last hlast
    exact h.step_le_last hlast b hb
  · rename_i hnone
    rw [List.getLast?_eq_none_iff.mp hnone] at hb
    cases hb

/-- Whichever way a call ends, the records are those of the life. -/
theorem OnCourse.ends (h : g.OnCourse l thread q) (hr : g.definition.Repeats g.providers) (hends : g.Ends q x) :
    l.Told g.definition thread (x.1.records thread) := by
  have fails : ∀ {e f}, e.thread = thread → l.Told g.definition thread ((g.fail e f (g.after q)).1.records thread) :=
    fun ht => told_fail (inMemory_after h.memory) ht h.told_after
  cases hends with
  | cancelled | exhausted => exact told_fail h.memory h.own h.told
  | completed => exact h.toStands.told_complete
  | held => exact h.toStands.told_pause _ _ _
  | suspended => exact h.stands_after.told_pause _ _ _
  | withdrawn => exact fails h.own
  | failed => exact fails h.own
  | lost => exact h.told_after
  | paused _ hp => exact (h.stands_told hr hp).told_pause _ _ _
  | revoked _ hp => exact told_fail (inMemory_told h.memory) h.own (h.stands_told hr hp).told
  | unsaved _ _ _ _ save =>
    rw [save_snapshot (inMemory_told h.memory)] at save
    cases save

theorem OnCourse.run (h : g.OnCourse l thread q) (hr : g.definition.Repeats g.providers) :
    l.Told g.definition thread ((g.run q).1.records thread) := by
  obtain ⟨r, hgoes, hends⟩ := g.run_passes q
  have : g.OnCourse l thread r := by
    clear hends
    induction hgoes with
    | refl => exact h
    | tail _ hstep ih => exact ih.goes hr hstep
  exact this.ends hr hends

/-! ### Requests of a life -/

def provided (g : Engine) (options : CallOptions) : Providers :=
  (g.providers.layer options.providers).toOption.getD g.providers

/-- The life of a thread after a request. A start that is not refused begins a new one; a resumption that is
    not refused says how the node that it enters and those after it are run. -/
def live (g : Engine) (thread : String) (l : Life) (w : Surroundings) : Request → Life
  | .start t input options =>
    if t = thread ∧ (g.opening t input options.overrides w.store).isOk then
      { input, invocations := fun _ => { providers := g.provided options } }
    else l
  | .resume t value options =>
    match g.resumption t options.overrides w.store with
    | .ok r =>
      if t = thread then
        l.resumed r.execution.step.toNat ⟨g.provided options, entryAfter r.interrupt.kind value⟩
      else l
    | .error _ => l
  | .cancel _ | .delete _ => l

def lifeFrom (g : Engine) (thread : String) : Life → Surroundings → List Request → Life
  | l, _, [] => l
  | l, w, r :: rs => g.lifeFrom thread (g.live thread l w r) (g.serve w r).1 rs

variable {request : Request} {options : CallOptions} {input value : Value}

/-- The engine of every call that a request leads to has providers whose answers repeat. -/
def Repeats (g : Engine) (options : CallOptions) : Prop :=
  ∀ ps, g.providers.layer options.providers = .ok ps → g.definition.Repeats ps

theorem provided_eq {ps : Providers} (h : g.providers.layer options.providers = .ok ps) :
    g.provided options = ps := by
  rw [provided, h]
  rfl

theorem live_of_ne (h : request.thread ≠ thread) : g.live thread l w request = l := by
  cases request with
  | start t input options => exact if_neg fun hn => h hn.1
  | resume t value options =>
    simp only [live]
    split
    · exact if_neg h
    · rfl
  | cancel | delete => rfl

/-- A new run stands where the walk of its life starts. -/
theorem stands_opened {config : Config} (hm : w.InMemory) (hl : l.input = input)
    (ho : g.opening thread input options.overrides w.store = .ok (config, e)) :
    Stands g.definition l thread e (g.opened e options.observers w) := by
  obtain ⟨-, hr, p, hp, rfl, hstep, hhist⟩ := (opening_eq_ok hm).mp ho
  obtain ⟨node, state, step, history⟩ := p
  cases hstep
  cases hhist
  have visits : l.Visits g.definition thread ⟨node, state, 0, []⟩ := by
    rw [Life.Visits, hl]
    exact hp
  have hrec := records_opened (g := g) (e := ⟨thread, node, state, 0, .running, none, [], none, config.metadata⟩)
    hm options.observers
  rw [hr, List.nil_append] at hrec
  refine ⟨rfl, visits, inMemory_opened hm _, ?_, ?_⟩
  · rw [hrec]
    exact Life.Told.nil.concat (fun _ => ⟨_, visits, Execution.shows_checkpoint _ _ _ _⟩)
      fun b hb => (List.not_mem_nil hb).elim
  · intro c hc
    rw [hrec, List.mem_singleton] at hc
    rw [hc]
    exact Int.le_refl _

/-- A resumed run stands where it paused. -/
theorem stands_reopened {r : Resumption} (hm : w.InMemory) (h : l.Told g.definition thread (w.records thread))
    (hr : g.resumption thread options.overrides w.store = .ok r) (i : Invocation) :
    r.execution.step.toNat = r.execution.history.length ∧
      Stands g.definition (l.resumed r.execution.history.length i) thread r.execution (reopened r thread w) := by
  have hthread := thread_of_resumption hm hr
  obtain ⟨c, kept, stored, e, hlast, hpaused, -, he, -, -, -, hexec⟩ := resumption_eq_ok hm hr
  obtain ⟨p, hp, hc⟩ := h.shows c (List.mem_of_getLast? hlast) (by rw [hpaused]; exact RunStatus.noConfusion)
  have hpos : r.execution.position = p := by
    rw [hexec, ← hc.position_eq he]
    rfl
  subst hpos
  have hstep : r.execution.step = r.execution.history.length := hp.step_eq
  have hle : ∀ b ∈ w.records thread, b.step ≤ r.execution.step := fun b hb =>
    Int.le_trans (h.step_le_last hlast b hb) (Int.le_of_eq hc.step)
  -- The resumption changes how the step is run that the pause was before, and no earlier one.
  refine ⟨by rw [hstep]; rfl, hthread, hp.resumed (Nat.le_refl _), inMemory_reopened hm, ?_, ?_⟩
  · rw [records_reopened]
    exact h.resumed fun b hb => hstep ▸ hle b hb
  · rw [records_reopened]
    exact hle

theorem told_serve (hm : w.InMemory) (h : l.Told g.definition thread (w.records thread))
    (hr : g.Repeats request.options) :
    (g.live thread l w request).Told g.definition thread ((g.serve w request).1.records thread) := by
  -- A request for another thread leaves the life and the records as they are.
  by_cases ht : request.thread = thread
  case neg =>
    rw [live_of_ne ht, (serve_frame g hm request).2 thread ht]
    exact h
  subst ht
  cases request with
  | start thread input options =>
    simp only [serve, Request.thread, live, true_and] at h ⊢
    rcases start_cases g thread input options hm with
      ⟨f, ho, hs⟩ | ⟨config, e, f, ho, -, hs⟩ | ⟨config, e, f, ho, -, -, hs⟩ | ⟨run, q, hq, hs⟩
    · rw [hs, ho]
      exact h
    · -- The thread has no records yet, and gets none.
      have none : (w.attended thread options.observers).records thread = [] := ((opening_eq_ok hm).mp ho).2.1
      rw [hs, none]
      exact .nil
    · rw [hs, ho]
      exact (stands_opened hm rfl ho).told
    · cases hq with
      | @start _ _ _ config e ps ho _ hl =>
        rw [hs, ho, provided_eq hl]
        have course : OnCourse { g with config, providers := ps } { input, invocations := fun _ => ⟨ps, {}⟩ } thread
            (firstPass { g with config, providers := ps } e {} (g.opened e options.observers w)) :=
          ⟨stands_opened (g := g) hm rfl ho, rfl, fun _ _ => rfl⟩
        exact course.run (hr ps hl)
  | resume thread value options =>
    simp only [serve, Request.thread, live] at h ⊢
    rcases resume_cases g thread value options hm with ⟨f, ho, hs⟩ | ⟨r, f, ho, -, hs⟩ | ⟨run, q, hq, hs⟩
    · rw [hs, ho]
      exact h
    · obtain ⟨hk, stands⟩ := stands_reopened hm h ho ⟨g.provided options, entryAfter r.interrupt.kind value⟩
      rw [hs, ho]
      dsimp only
      rw [if_pos trivial, hk]
      exact stands.told
    · cases hq with
      | @resume _ _ _ r ps ho hl =>
        obtain ⟨hk, stands⟩ := stands_reopened hm h ho ⟨ps, entryAfter r.interrupt.kind value⟩
        rw [hs, ho, provided_eq hl]
        dsimp only
        rw [if_pos trivial, hk]
        have course : OnCourse { g with config := r.config, providers := ps }
            (l.resumed r.execution.history.length ⟨ps, entryAfter r.interrupt.kind value⟩) thread
            (firstPass { g with config := r.config, providers := ps } r.execution
              (entryAfter r.interrupt.kind value) (reopened r thread w)) :=
          ⟨stands, l.invocations_resumed_self, fun _ hn => l.invocations_resumed_of_lt hn⟩
        exact course.run (hr ps hl)
  | cancel thread =>
    simp only [serve, Request.thread, live] at h ⊢
    rcases cancel_cases g thread hm with hs | hs | ⟨f, hs, -⟩ | ⟨c, e, -, -, -, ht, hs⟩
    · rw [hs, Surroundings.records_requestCancel]
      exact h
    · rw [hs]
      exact h
    · rw [hs]
      exact h
    · rw [hs]
      exact told_fail hm ht h
  | delete thread =>
    simp only [serve, Request.thread, live] at h ⊢
    rw [Surroundings.records_congr (store_delete hm), Surroundings.records_forget_self hm]
    exact .nil

/-- The life of a thread that had no records before the requests. -/
def life (g : Engine) (thread : String) (w : Surroundings) (requests : List Request) : Life :=
  g.lifeFrom thread {} w requests

theorem told_serveAll {requests : List Request} (hm : w.InMemory)
    (h : l.Told g.definition thread (w.records thread)) (hr : ∀ r ∈ requests, g.Repeats r.options) :
    (g.lifeFrom thread l w requests).Told g.definition thread ((g.serveAll w requests).records thread) ∧
      (g.serveAll w requests).InMemory := by
  induction requests generalizing l w with
  | nil => exact ⟨h, hm⟩
  | cons r rs ih =>
    exact ih (serve_frame g hm r).1 (told_serve hm h (hr r List.mem_cons_self))
      fun r' hr' => hr r' (List.mem_cons_of_mem r hr')

/-- Whatever is asked of an engine, every record of a thread that is not of a failure shows the position that
    the walk of the thread's life comes to in as many steps as nodes have run, and counts those steps. -/
theorem history_shows_walk (g : Engine) (thread : String) (requests : List Request) (hm : w.InMemory)
    (fresh : w.records thread = []) (hr : ∀ r ∈ requests, g.Repeats r.options) :
    ∃ cs, history thread (g.serveAll w requests) = .ok cs ∧ ∀ c ∈ cs, c.status ≠ .failed →
      ∃ p, g.definition.walk thread (g.life thread w requests).input (g.life thread w requests).invocations
          c.history.length = some p ∧ c.step = c.history.length ∧ c.Shows p := by
  have start : Life.Told {} g.definition thread (w.records thread) := by
    rw [fresh]
    exact .nil
  obtain ⟨told, memory⟩ := told_serveAll hm start hr
  refine ⟨_, Surroundings.list_eq memory thread, fun c hc hs => ?_⟩
  obtain ⟨p, hp, hsh⟩ := told.shows c hc hs
  have hlen : c.history.length = p.history.length := by rw [hsh.history, List.length_map]
  exact ⟨p, hlen ▸ hp, by rw [hsh.step, hp.step_eq, hlen], hsh⟩

/-- A run that asks twice is written down six times, each time at a position of its walk. -/
theorem history_shows_walk_inquiry :
    let g : Engine := { definition := .inquiry }
    let requests : List Request := [.start "t" .null {}, .resume "t" (.str "yes") {}, .resume "t" (.str "no") {}]
    ((g.serveAll {} requests).records "t").map (·.status) =
      [.running, .paused, .running, .paused, .running, .completed] ∧
    (∀ r ∈ requests, g.Repeats r.options) ∧
    ∃ cs, history "t" (g.serveAll {} requests) = .ok cs ∧ ∀ c ∈ cs, c.status ≠ .failed →
      ∃ p, g.definition.walk "t" (g.life "t" {} requests).input (g.life "t" {} requests).invocations
          c.history.length = some p ∧ c.step = c.history.length ∧ c.Shows p := by
  intro g requests
  have hr : ∀ r ∈ requests, g.Repeats r.options := by
    intro r hr ps hps
    have none : r.options.providers = [] := by
      simp only [requests, List.mem_cons, List.not_mem_nil, or_false] at hr
      rcases hr with rfl | rfl | rfl <;> rfl
    rw [none] at hps
    cases hps
    exact Definition.inquiry.repeats_of_steady fun e he => (List.not_mem_nil he).elim
  exact ⟨by decide +kernel, hr, history_shows_walk g "t" requests ⟨[], rfl⟩ rfl hr⟩

end Engine

end Workflow
