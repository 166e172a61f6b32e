import Workflow.Proofs.Endings

/-! Requests: the calls that a caller makes of an engine, one after another. `start` and `resume` are
    refused, break off for want of providers, or run a loop from a first pass (`Enters`); in each case
    it is said here what they leave. -/

namespace Workflow

/-! ### Faults and results along a chain -/

section Chains
variable {ε α β : Type} {x : Except ε α} {f : α → Except ε β} {e : ε} {b : β}

theorem bind_eq_ok : (x >>= f) = .ok b ↔ ∃ a, x = .ok a ∧ f a = .ok b := by
  cases x with
  | error e =>
    constructor
    · rintro ⟨⟩
    · rintro ⟨_, ⟨⟩, _⟩
  | ok a =>
    constructor
    · exact fun h => ⟨a, rfl, h⟩
    · rintro ⟨_, ⟨⟩, h⟩
      exact h

theorem bind_eq_error : (x >>= f) = .error e ↔ x = .error e ∨ ∃ a, x = .ok a ∧ f a = .error e := by
  cases x with
  | error e' =>
    constructor
    · rintro ⟨⟩
      exact Or.inl rfl
    · rintro (⟨⟨⟩⟩ | ⟨_, ⟨⟩, _⟩)
      rfl
  | ok a =>
    constructor
    · exact fun h => Or.inr ⟨a, rfl, h⟩
    · rintro (⟨⟨⟩⟩ | ⟨_, ⟨⟩, h⟩)
      exact h

/-- Something told of an answer stands for a result of which it is told. -/
theorem exists_of_told {tell : α → β} {told : β} (h : x.toOption.map tell = some told) :
    ∃ a, x = .ok a ∧ tell a = told := by
  obtain ⟨a, ha, rfl⟩ := Option.map_eq_some_iff.mp h
  cases x with
  | error e => cases ha
  | ok a' =>
    cases ha
    exact ⟨a, rfl, rfl⟩

theorem exists_of_answer {x : Except ε (Option α)} {tell : α → β} {told : β}
    (h : (x.toOption.bind id).map tell = some told) : ∃ a, x = .ok (some a) ∧ tell a = told := by
  rw [Option.map_bind] at h
  obtain ⟨y, hy, answer⟩ := Option.bind_eq_some_iff.mp h
  obtain ⟨a, rfl, rfl⟩ := Option.map_eq_some_iff.mp answer
  cases x with
  | error e => cases hy
  | ok z =>
    cases hy
    exact ⟨a, rfl, rfl⟩

end Chains

/-- A call that a caller makes of an engine. -/
inductive Request where
  | start (thread : String) (input : Value) (options : CallOptions)
  | resume (thread : String) (value : Value) (options : CallOptions)
  | cancel (thread : String)
  | delete (thread : String)

namespace Request

def thread : Request → String
  | .start t _ _ | .resume t _ _ | .cancel t | .delete t => t

/-- What the caller chooses for the call. -/
def options : Request → CallOptions
  | .start _ _ o | .resume _ _ o => o
  | .cancel _ | .delete _ => {}

end Request

/-- The run that has come to a position and goes on. -/
def Position.running (p : Position) (thread : String) (metadata : Value) : Execution :=
  { thread, node := p.node, state := p.state, step := p.step, history := p.history, metadata }

namespace Surroundings

theorem store_joined (w : Surroundings) (thread : String) (observers : List Observer) :
    (w.joined thread observers).store = w.store :=
  store_activate (w.attended thread observers) thread

theorem InMemory.joined {w : Surroundings} (h : w.InMemory) (thread : String) (observers : List Observer) :
    (w.joined thread observers).InMemory :=
  h.congr (store_joined w thread observers)

end Surroundings

namespace Engine

/-- Serves a request. A run that the request leads to is answered with its outcome. -/
def serve (g : Engine) (w : Surroundings) : Request → Surroundings × Except Fault (Option Outcome)
  | .start thread input options => let x := g.start thread input options w; (x.1, x.2.map some)
  | .resume thread value options => let x := g.resume thread value options w; (x.1, x.2.map some)
  | .cancel thread => g.cancel thread w
  | .delete thread => let x := delete thread w; (x.1, x.2.map fun _ => none)

/-- The surroundings after requests have been served one after another. -/
def serveAll (g : Engine) : Surroundings → List Request → Surroundings
  | w, [] => w
  | w, r :: rs => g.serveAll (g.serve w r).1 rs

/-- The surroundings in which a new run takes its first step. -/
def opened (g : Engine) (e : Execution) (observers : List Observer) (w : Surroundings) : Surroundings :=
  ((w.joined e.thread observers).keep (g.snapshot e (w.joined e.thread observers))).emit {
    kind := .runStarted, thread := e.thread, node := e.node
    data := [("graph", .str g.definition.name)] }

/-- The surroundings in which a resumed run takes its first step. -/
def reopened (r : Resumption) (thread : String) (w : Surroundings) : Surroundings :=
  (w.activate thread).emit {
    kind := .resumed, thread := r.execution.thread, node := Failure.textOf? r.interrupt.node
    step := r.execution.step, data := [("kind", .str r.interrupt.kind.name)] }

def firstPass (g : Engine) (e : Execution) (entry : Entry) (w : Surroundings) : Pass :=
  ⟨g.stepsLeft e, e, entry, w⟩

/-- The pass of a run that has come to a position. -/
def passAt (g : Engine) (thread : String) (p : Position) (entry : Entry) (w : Surroundings) : Pass :=
  g.firstPass (p.running thread g.config.metadata) entry w

/-- The loop that a request runs: the engine with the configuration and the providers of the call, and the
    first pass. -/
inductive Enters (g : Engine) (w : Surroundings) : Request → Engine → Pass → Prop
  | start {thread : String} {input : Value} {options : CallOptions} {config : Config} {e : Execution}
      {providers : Providers} (opening : g.opening thread input options.overrides w.store = .ok (config, e))
      (names : options.overrides.checkNames = .ok ())
      (layer : g.providers.layer options.providers = .ok providers) :
      Enters g w (.start thread input options) { g with config, providers }
        (firstPass { g with config, providers } e {} (g.opened e options.observers w))
  | resume {thread : String} {value : Value} {options : CallOptions} {r : Resumption}
      {providers : Providers} (resumption : g.resumption thread options.overrides w.store = .ok r)
      (layer : g.providers.layer options.providers = .ok providers) :
      Enters g w (.resume thread value options) { g with config := r.config, providers }
        (firstPass { g with config := r.config, providers } r.execution (entryAfter r.interrupt.kind value)
          (reopened r thread w))

variable {g run : Engine} {w : Surroundings} {thread : String} {input value : Value} {options : CallOptions}
  {config : Config} {e : Execution} {r : Resumption} {f : Fault} {q : Pass} {request : Request}
  {overrides : Overrides}

/-! ### Passes at positions -/

theorem turnAt_passAt {p : Position} {entry : Entry} : g.turnAt (g.passAt thread p entry w) =
    g.definition.turn ⟨g.providers, entry⟩ thread p w.calls := rfl

/-- In memory, the pass of a run at a position goes on to one at the position that its step reaches. -/
theorem Goes.next_passAt {p : Position} {entry : Entry} {next : Pass} (h : g.Goes (g.passAt thread p entry w) next)
    (hm : w.InMemory) : ∃ q, g.Runs (g.passAt thread p entry w) ∧
      (g.turnAt (g.passAt thread p entry w)).2 = .reached q ∧
      next = g.passAt thread q {} (g.noted (g.passAt thread p entry w) q) := by
  obtain ⟨q, runs, hq, -, rfl⟩ := h.next hm
  refine ⟨q, runs, hq, ?_⟩
  have hstep : q.step = p.step + 1 := (Definition.step_of_turn_reached hq).1
  have hleft : (g.config.recursionLimit - p.step).toNat - 1 = (g.config.recursionLimit - q.step).toNat := by
    omega
  exact congrArg (fun n => Pass.mk n (q.running thread g.config.metadata) {} _) hleft

/-! ### Starting -/

/-- What a new run is, and why it may begin. -/
theorem opening_eq_ok (hm : w.InMemory) :
    g.opening thread input overrides w.store = .ok (config, e) ↔
      g.config.override overrides = .ok config ∧ w.records thread = [] ∧
      ∃ p, g.definition.origin? input = some p ∧
        e = { thread, node := p.node, state := p.state, metadata := config.metadata } ∧
        p.step = 0 ∧ p.history = [] := by
  simp only [opening, bind_eq_ok, Surroundings.load_eq hm, Except.ok.injEq, exists_eq_left',
    Definition.origin?, Option.bind_eq_bind, Option.bind_eq_some_iff]
  constructor
  · rintro ⟨c, hc, state, hs, h⟩
    split at h
    · cases h
    · rename_i hnone
      split at h
      · cases h
      · rename_i node hn
        cases h
        refine ⟨hc, ?_, ⟨node, state, 0, []⟩, ⟨node, hn, state, by rw [hs]; rfl, rfl⟩, rfl, rfl, rfl⟩
        simpa [List.getLast?_eq_none_iff] using hnone
  · rintro ⟨hc, hr, p, ⟨node, hn, state, hs, hp⟩, rfl, -, -⟩
    cases hp
    refine ⟨config, hc, state, ?_, ?_⟩
    · cases hi : g.definition.schema.initialState input with
      | error f => rw [hi] at hs; cases hs
      | ok s => rw [hi] at hs; cases hs; rfl
    · rw [hr, hn]
      rfl

/-- Why a run may not begin. -/
theorem opening_eq_error (hm : w.InMemory) (h : g.opening thread input overrides w.store = .error f) :
    g.config.override overrides = .error f ∨ g.definition.schema.initialState input = .error f ∨
    (w.records thread ≠ [] ∧ f = .value s!"Thread {thread} already has an execution; use resume()") ∨
    g.definition.entryPoint? = none := by
  simp only [opening, bind_eq_error, Surroundings.load_eq hm, Except.ok.injEq, exists_eq_left',
    reduceCtorEq, false_or] at h
  rcases h with h | ⟨c, -, h | ⟨state, -, h⟩⟩
  · exact Or.inl h
  · exact Or.inr (Or.inl h)
  · split at h
    · rename_i hsome
      cases h
      refine Or.inr (Or.inr (Or.inl ⟨fun hr => ?_, rfl⟩))
      rw [hr] at hsome
      cases hsome
    · split at h
      · rename_i hn
        exact Or.inr (Or.inr (Or.inr hn))
      · cases h

theorem thread_of_opening (hm : w.InMemory)
    (h : g.opening thread input overrides w.store = .ok (config, e)) : e.thread = thread := by
  obtain ⟨-, -, p, -, rfl, -⟩ := (opening_eq_ok hm).mp h
  rfl

theorem start_of_opening (hm : w.InMemory)
    (h : g.opening thread input options.overrides w.store = .ok (config, e))
    (names : options.overrides.checkNames = .ok ()) :
    g.start thread input options w =
      let x := g.proceed config options.providers e {} (g.opened e options.observers w)
      (x.1.release thread, x.2) := by
  obtain rfl := thread_of_opening hm h
  have hb : g.begin config options.providers e (w.joined e.thread options.observers) =
      g.proceed config options.providers e {} (g.opened e options.observers w) := by
    rw [begin, save_snapshot (hm.joined _ _)]
    rfl
  simp only [Engine.start, h, names]
  exact congrArg (fun x : Ended => (x.1.release e.thread, x.2)) hb

/-- Names that cannot be put in order are refused when the observers have joined the thread. -/
theorem start_of_unordered (h : g.opening thread input options.overrides w.store = .ok (config, e))
    (names : options.overrides.checkNames = .error f) :
    g.start thread input options w = (w.attended thread options.observers, .error f) := by
  simp only [Engine.start, h, names]

theorem Enters.start_eq (h : g.Enters w (.start thread input options) run q) (hm : w.InMemory) :
    g.start thread input options w =
      ((run.run q).1.release thread, (run.run q).2.mapError (withHint thread)) := by
  cases h with
  | start opening names layer =>
    have hs := start_of_opening hm opening names
    obtain rfl := thread_of_opening hm opening
    rw [hs, proceed, forCall, layer]
    rfl

/-- A start is refused, before or after its observers have joined the thread, or breaks off after the run has been
    written down, or enters a loop. -/
theorem start_cases (g : Engine) (thread : String) (input : Value) (options : CallOptions) (hm : w.InMemory) :
    (∃ f, g.opening thread input options.overrides w.store = .error f ∧
      g.start thread input options w = (w, .error f)) ∨
    (∃ config e f, g.opening thread input options.overrides w.store = .ok (config, e) ∧
      options.overrides.checkNames = .error f ∧
      g.start thread input options w = (w.attended thread options.observers, .error f)) ∨
    (∃ config e f, g.opening thread input options.overrides w.store = .ok (config, e) ∧
      options.overrides.checkNames = .ok () ∧ g.providers.layer options.providers = .error f ∧
      g.start thread input options w = ((g.opened e options.observers w).release thread, .error f)) ∨
    (∃ run q, g.Enters w (.start thread input options) run q ∧
      g.start thread input options w =
        ((run.run q).1.release thread, (run.run q).2.mapError (withHint thread))) := by
  cases ho : g.opening thread input options.overrides w.store with
  | error f => exact Or.inl ⟨f, rfl, by rw [Engine.start, ho]⟩
  | ok x =>
    right
    obtain ⟨config, e⟩ := x
    cases hn : options.overrides.checkNames with
    | error f => exact Or.inl ⟨config, e, f, rfl, rfl, start_of_unordered ho hn⟩
    | ok =>
      right
      cases hl : g.providers.layer options.providers with
      | error f =>
        refine Or.inl ⟨config, e, f, rfl, rfl, rfl, ?_⟩
        rw [start_of_opening hm ho hn, proceed, forCall, hl]
        rfl
      | ok ps => exact Or.inr ⟨_, _, .start ho hn hl, Enters.start_eq (.start ho hn hl) hm⟩

/-! ### Resuming -/

/-- Whatever the store is, a thread is taken up where the store says it is, if it is one of the graph. -/
theorem lastCheckpoint_eq_ok_iff {store : Store} {c : Checkpoint} :
    g.lastCheckpoint thread store = .ok c ↔
      store.load thread = .ok (some c) ∧ c.graph.equal (.str g.definition.name) = true := by
  rw [lastCheckpoint, bind_eq_ok]
  constructor
  · rintro ⟨_ | last, hl, h⟩
    · cases h
    · dsimp only at h
      split at h <;> cases h
      rename_i hg
      exact ⟨hl, hg⟩
  · rintro ⟨hl, hg⟩
    exact ⟨some c, hl, if_pos hg⟩

theorem lastCheckpoint_of_none {store : Store} (none : store.load thread = .ok none) :
    g.lastCheckpoint thread store = .error (.failure (.threadNotFound thread)) := by
  rw [lastCheckpoint, none]
  rfl

theorem lastCheckpoint_of_own {store : Store} {c : Checkpoint} (last : store.load thread = .ok (some c))
    (own : c.graph = .str g.definition.name) : g.lastCheckpoint thread store = .ok c :=
  lastCheckpoint_eq_ok_iff.mpr ⟨last, by rw [own, Value.equal_str, beq_self_eq_true]⟩

/-- Only a thread that waits is taken up. -/
theorem resumption_of_unpaused {store : Store} {c : Checkpoint} (last : g.lastCheckpoint thread store = .ok c)
    (h : c.status ≠ .paused) : g.resumption thread overrides store =
      .error (.failure (.invalidResume thread c.status.name)) := by
  simp only [resumption, last, bind, Except.bind]
  split
  · rename_i paused _
    exact absurd paused h
  · rfl

theorem lastCheckpoint_eq_ok (hm : w.InMemory) {c : Checkpoint} :
    g.lastCheckpoint thread w.store = .ok c ↔
      (w.records thread).getLast? = some c ∧ c.graph.equal (.str g.definition.name) = true := by
  rw [lastCheckpoint_eq_ok_iff, Surroundings.load_eq hm, Except.ok.injEq]

/-- What is resumed is the last checkpoint of the thread, which is paused, with the settings that were kept with it. -/
theorem taken_of_resumption {store : Store} (h : g.resumption thread overrides store = .ok r) :
    ∃ c kept stored e, g.lastCheckpoint thread store = .ok c ∧
      c.status = .paused ∧ c.interrupt = some r.interrupt ∧ Execution.ofCheckpoint c = .ok e ∧
      Overrides.ofMetadata e.metadata = .ok stored ∧ g.config.override stored = .ok kept ∧
      kept.override overrides = .ok r.config ∧
      r.execution = { e with metadata := r.config.metadata, interrupt := none, status := .running } := by
  simp only [resumption, bind_eq_ok] at h
  obtain ⟨c, hc, h⟩ := h
  split at h
  · rename_i i hs hi
    simp only [bind_eq_ok] at h
    obtain ⟨e, he, stored, hst, kept, hk, config, hcf, _, -, h⟩ := h
    cases h
    exact ⟨c, kept, stored, e, hc, hs, hi, he, hst, hk, hcf, rfl⟩
  · cases h

theorem resumption_eq_ok (hm : w.InMemory) (h : g.resumption thread overrides w.store = .ok r) :
    ∃ c kept stored e, (w.records thread).getLast? = some c ∧
      c.status = .paused ∧ c.interrupt = some r.interrupt ∧ Execution.ofCheckpoint c = .ok e ∧
      Overrides.ofMetadata e.metadata = .ok stored ∧ g.config.override stored = .ok kept ∧
      kept.override overrides = .ok r.config ∧
      r.execution = { e with metadata := r.config.metadata, interrupt := none, status := .running } := by
  obtain ⟨c, kept, stored, e, hc, taken⟩ := taken_of_resumption h
  exact ⟨c, kept, stored, e, ((lastCheckpoint_eq_ok hm).mp hc).1, taken⟩

theorem thread_ofCheckpoint {c : Checkpoint} (h : Execution.ofCheckpoint c = .ok e) :
    e.thread = c.thread.text := by
  simp only [Execution.ofCheckpoint, bind_eq_ok] at h
  obtain ⟨_, -, h⟩ := h
  cases h
  rfl

theorem position_ofCheckpoint {c : Checkpoint} (h : Execution.ofCheckpoint c = .ok e) :
    e.position = ⟨c.node.text, c.state.fields, c.step, c.history.map Value.text⟩ := by
  simp only [Execution.ofCheckpoint, bind_eq_ok] at h
  obtain ⟨_, -, h⟩ := h
  cases h
  rfl

theorem thread_of_resumption (hm : w.InMemory) (h : g.resumption thread overrides w.store = .ok r) :
    r.execution.thread = thread := by
  obtain ⟨c, kept, stored, e, hc, -, -, he, -, -, -, hr⟩ := resumption_eq_ok hm h
  rw [hr]
  show e.thread = thread
  rw [thread_ofCheckpoint he, Surroundings.thread_of_mem_records (List.mem_of_getLast? hc)]
  rfl

theorem Enters.resume_eq (h : g.Enters w (.resume thread value options) run q) (hm : w.InMemory) :
    g.resume thread value options w =
      ((run.run q).1.release thread, (run.run q).2.mapError (withHint thread)) := by
  cases h with
  | resume resumption layer =>
    obtain rfl := thread_of_resumption hm resumption
    rw [Engine.resume, resumption]
    dsimp only
    rw [proceed, forCall, layer]
    rfl

/-- A resumption is refused, or breaks off before the run goes on, or enters a loop. -/
theorem resume_cases (g : Engine) (thread : String) (value : Value) (options : CallOptions) (hm : w.InMemory) :
    (∃ f, g.resumption thread options.overrides w.store = .error f ∧
      g.resume thread value options w = (w, .error f)) ∨
    (∃ r f, g.resumption thread options.overrides w.store = .ok r ∧
      g.providers.layer options.providers = .error f ∧
      g.resume thread value options w = ((reopened r thread w).release thread, .error f)) ∨
    (∃ run q, g.Enters w (.resume thread value options) run q ∧
      g.resume thread value options w =
        ((run.run q).1.release thread, (run.run q).2.mapError (withHint thread))) := by
  cases ho : g.resumption thread options.overrides w.store with
  | error f => exact Or.inl ⟨f, rfl, by rw [Engine.resume, ho]⟩
  | ok r =>
    right
    cases hl : g.providers.layer options.providers with
    | error f =>
      obtain rfl := thread_of_resumption hm ho
      refine Or.inl ⟨r, f, rfl, rfl, ?_⟩
      rw [Engine.resume, ho]
      dsimp only
      rw [proceed, forCall, hl]
      rfl
    | ok ps => exact Or.inr ⟨_, _, .resume ho hl, Enters.resume_eq (.resume ho hl) hm⟩

/-! ### Cancelling and forgetting -/

/-- What a request to end comes to: a running thread is asked, a paused one fails, others are left alone. -/
theorem cancel_cases (g : Engine) (thread : String) (hm : w.InMemory) :
    g.cancel thread w = (w.requestCancel thread, .ok none) ∨ g.cancel thread w = (w, .ok none) ∨
    (∃ f, g.cancel thread w = (w, .error f) ∧ (g.lastCheckpoint thread w.store = .error f ∨
      ∃ c ∈ w.records thread, c.status = .paused ∧ Execution.ofCheckpoint c = .error f)) ∨
    ∃ c e, (w.records thread).getLast? = some c ∧ c.status = .paused ∧ Execution.ofCheckpoint c = .ok e ∧
      e.thread = thread ∧ g.cancel thread w =
        ((g.fail e (.cancelled thread) w).1, (g.fail e (.cancelled thread) w).2.map some) := by
  unfold cancel
  split
  · exact Or.inl rfl
  · right
    dsimp only
    split
    · rename_i f hp
      refine Or.inr (Or.inl ⟨f, rfl, ?_⟩)
      rcases bind_eq_error.mp hp with hp | ⟨c, hc, hp⟩
      · exact Or.inl hp
      · have hlast := ((lastCheckpoint_eq_ok hm).mp hc).1
        split at hp
        · rename_i hs
          rcases bind_eq_error.mp hp with hp | ⟨_, -, ⟨⟩⟩
          exact Or.inr ⟨c, List.mem_of_getLast? hlast, hs, hp⟩
        · cases hp
    · exact Or.inl rfl
    · rename_i e hp
      obtain ⟨c, hc, hp⟩ := bind_eq_ok.mp hp
      have hlast := ((lastCheckpoint_eq_ok hm).mp hc).1
      split at hp
      · rename_i hs
        obtain ⟨e', he, hp⟩ := bind_eq_ok.mp hp
        cases hp
        refine Or.inr (Or.inr ⟨c, e, hlast, hs, he, ?_, rfl⟩)
        rw [thread_ofCheckpoint he, Surroundings.thread_of_mem_records (List.mem_of_getLast? hlast)]
        rfl
      · cases hp

theorem store_delete (hm : w.InMemory) : (delete thread w).1.store = (w.forget thread).store := by
  obtain ⟨saved, hs⟩ := hm
  rw [Surroundings.store_forget hs]
  simp only [delete, hs, Store.delete]

/-! ### What every request keeps -/

theorem inMemory_opened (hm : w.InMemory) (observers : List Observer) : (g.opened e observers w).InMemory :=
  ((hm.joined e.thread observers).keep _).emit _

theorem inMemory_reopened (hm : w.InMemory) : (reopened r thread w).InMemory := hm.activate.emit _

theorem records_opened (hm : w.InMemory) (observers : List Observer) :
    (g.opened e observers w).records e.thread =
      w.records e.thread ++ [g.snapshot e (w.joined e.thread observers)] := by
  rw [opened, Surroundings.records_emit,
    Surroundings.records_keep_self (hm.joined e.thread observers) thread_snapshot,
    Surroundings.records_congr (w.store_joined e.thread observers)]

theorem records_opened_of_ne (hm : w.InMemory) (observers : List Observer) {other : String}
    (hne : e.thread ≠ other) : (g.opened e observers w).records other = w.records other := by
  rw [opened, Surroundings.records_emit,
    Surroundings.records_keep_of_ne (hm.joined e.thread observers) thread_snapshot hne,
    Surroundings.records_congr (w.store_joined e.thread observers)]

theorem records_reopened {other : String} : (reopened r thread w).records other = w.records other :=
  Surroundings.records_emit.trans Surroundings.records_activate

theorem Enters.inMemory (h : g.Enters w request run q) (hm : w.InMemory) : q.around.InMemory := by
  cases h with
  | start => exact inMemory_opened hm _
  | resume => exact inMemory_reopened hm

theorem Enters.thread_eq (h : g.Enters w request run q) (hm : w.InMemory) :
    q.execution.thread = request.thread := by
  cases h with
  | start opening => exact thread_of_opening hm opening
  | resume resumption => exact thread_of_resumption hm resumption

theorem Enters.records_of_ne {other : String} (h : g.Enters w request run q) (hm : w.InMemory)
    (hne : request.thread ≠ other) : q.around.records other = w.records other := by
  have ht := h.thread_eq hm
  cases h with
  | start opening => exact records_opened_of_ne hm _ (ht ▸ hne)
  | resume => exact records_reopened

theorem ok_of_map_some {x : Except Fault Outcome} {o : Outcome} (h : x.map some = .ok (some o)) : x = .ok o := by
  cases x <;> cases h
  rfl

theorem ok_of_hinted {x : Except Fault Outcome} {o : Outcome} {hint : Fault → Fault}
    (h : (x.mapError hint).map some = .ok (some o)) : x = .ok o := by
  cases x <;> cases h
  rfl

/-- A request that enters a loop is answered with what the loop ends with. -/
theorem Enters.serve_eq (h : g.Enters w request run q) (hm : w.InMemory) :
    g.serve w request =
      ((run.run q).1.release request.thread,
        ((run.run q).2.mapError (withHint request.thread)).map some) := by
  cases h with
  | start opening names layer =>
    rw [serve, Enters.start_eq (.start opening names layer) hm]
    rfl
  | resume resumption layer =>
    rw [serve, Enters.resume_eq (.resume resumption layer) hm]
    rfl

/-- A request leaves the store in memory and the records of other threads as they are. -/
theorem serve_frame (g : Engine) (hm : w.InMemory) (request : Request) : (g.serve w request).1.InMemory ∧
    ∀ other, request.thread ≠ other → (g.serve w request).1.records other = w.records other := by
  have entered : ∀ {run : Engine} {q : Pass}, g.Enters w request run q →
      ((run.run q).1.release request.thread).InMemory ∧ ∀ other, request.thread ≠ other →
        ((run.run q).1.release request.thread).records other = w.records other := by
    intro run q h
    obtain ⟨h1, h2⟩ := run_frame run q (h.inMemory hm)
    exact ⟨h1, fun other hne => (h2 other (h.thread_eq hm ▸ hne)).trans (h.records_of_ne hm hne)⟩
  cases request with
  | start thread input options =>
    simp only [serve, Request.thread]
    rcases start_cases g thread input options hm with
      ⟨f, -, h⟩ | ⟨config, e, f, -, -, h⟩ | ⟨config, e, f, ho, -, -, h⟩ | ⟨run, q, he, h⟩
    · rw [h]
      exact ⟨hm, fun _ _ => rfl⟩
    · rw [h]
      exact ⟨hm, fun _ _ => rfl⟩
    · rw [h]
      exact ⟨inMemory_opened hm _, fun other hne =>
        records_opened_of_ne hm _ (thread_of_opening hm ho ▸ hne)⟩
    · rw [h]
      exact entered he
  | resume thread value options =>
    simp only [serve, Request.thread]
    rcases resume_cases g thread value options hm with ⟨f, -, h⟩ | ⟨r, f, -, -, h⟩ | ⟨run, q, he, h⟩
    · rw [h]
      exact ⟨hm, fun _ _ => rfl⟩
    · rw [h]
      exact ⟨inMemory_reopened hm, fun other _ => records_reopened⟩
    · rw [h]
      exact entered he
  | cancel thread =>
    simp only [serve, Request.thread]
    rcases cancel_cases g thread hm with h | h | ⟨f, h, -⟩ | ⟨c, e, -, -, -, ht, h⟩
    · rw [h]
      exact ⟨hm.requestCancel, fun _ _ => Surroundings.records_requestCancel⟩
    · rw [h]
      exact ⟨hm, fun _ _ => rfl⟩
    · rw [h]
      exact ⟨hm, fun _ _ => rfl⟩
    · rw [h]
      have hw : g.Writes e w (g.fail e (.cancelled thread) w) := .failed _
      exact ⟨hw.inMemory hm, fun other hne => hw.records_of_ne hm (ht ▸ hne)⟩
  | delete thread =>
    simp only [serve, Request.thread]
    exact ⟨(hm.forget thread).congr (store_delete hm), fun other hne =>
      (Surroundings.records_congr (store_delete hm) other).trans (Surroundings.records_forget_of_ne hm hne)⟩

/-! ### What requests come to -/

/-- What a request comes to, where the store is in memory. -/
inductive Serves (g : Engine) (w : Surroundings) : Request → Prop
  /-- The records of its thread stay, and no run is told of. -/
  | idle {request : Request} (kept : request ≠ .delete request.thread)
      (records : (g.serve w request).1.records request.thread = w.records request.thread)
      (untold : ∀ o, (g.serve w request).2 ≠ .ok (some o)) : Serves g w request
  /-- A new run is written down, which the providers of the call do not let begin. -/
  | begun {thread : String} {input : Value} {options : CallOptions} {config : Config} {e : Execution} {f : Fault}
      (opening : g.opening thread input options.overrides w.store = .ok (config, e))
      (served : g.serve w (.start thread input options) =
        ((g.opened e options.observers w).release thread, .error f)) : Serves g w (.start thread input options)
  | entered {request : Request} {run : Engine} {q : Pass} (enters : g.Enters w request run q) : Serves g w request
  /-- A paused run is taken up from its last record and ended. -/
  | ended {thread : String} {c : Checkpoint} {e : Execution} (last : (w.records thread).getLast? = some c)
      (paused : c.status = .paused) (taken : Execution.ofCheckpoint c = .ok e) (own : e.thread = thread)
      (served : g.serve w (.cancel thread) =
        ((g.fail e (.cancelled thread) w).1, (g.fail e (.cancelled thread) w).2.map some)) :
      Serves g w (.cancel thread)
  | deleted {thread : String} (none : (g.serve w (.delete thread)).1.records thread = [])
      (untold : ∀ o, (g.serve w (.delete thread)).2 ≠ .ok (some o)) : Serves g w (.delete thread)

theorem serve_cases (g : Engine) (hm : w.InMemory) (request : Request) : g.Serves w request := by
  cases request with
  | start thread input options =>
    have refused {v : Surroundings} {f : Fault} (h : g.start thread input options w = (v, .error f))
        (same : v.records thread = w.records thread) : g.Serves w (.start thread input options) := by
      have served : g.serve w (.start thread input options) = (v, .error f) := by rw [serve, h]; rfl
      exact .idle Request.noConfusion (by rw [served]; exact same) fun o => by rw [served]; exact nofun
    rcases start_cases g thread input options hm with
      ⟨f, -, h⟩ | ⟨config, e, f, -, -, h⟩ | ⟨config, e, f, opening, -, -, h⟩ | ⟨run, q, enters, -⟩
    · exact refused h rfl
    · exact refused h rfl
    · exact .begun opening (by rw [serve, h]; rfl)
    · exact .entered enters
  | resume thread value options =>
    rcases resume_cases g thread value options hm with ⟨f, -, h⟩ | ⟨r, f, -, -, h⟩ | ⟨run, q, enters, -⟩
    · have served : g.serve w (.resume thread value options) = (w, .error f) := by rw [serve, h]; rfl
      exact .idle Request.noConfusion (by rw [served]) fun o => by rw [served]; exact nofun
    · have served : g.serve w (.resume thread value options) = ((reopened r thread w).release thread, .error f) := by
        rw [serve, h]
        rfl
      exact .idle Request.noConfusion (by rw [served]; exact records_reopened) fun o => by rw [served]; exact nofun
    · exact .entered enters
  | cancel thread =>
    rcases cancel_cases g thread hm with h | h | ⟨f, h, -⟩ | ⟨c, e, last, paused, taken, own, h⟩
    · refine .idle Request.noConfusion ?_ fun o => by rw [serve, h]; exact nofun
      rw [serve, h]
      exact Surroundings.records_requestCancel
    · exact .idle Request.noConfusion (by rw [serve, h]) fun o => by rw [serve, h]; exact nofun
    · exact .idle Request.noConfusion (by rw [serve, h]) fun o => by rw [serve, h]; exact nofun
    · exact .ended last paused taken own h
  | delete thread =>
    refine .deleted ((Surroundings.records_congr (store_delete hm) thread).trans
      (Surroundings.records_forget_self hm)) fun o ho => ?_
    obtain ⟨saved, hs⟩ := hm
    simp only [serve, delete, hs, Store.delete] at ho
    cases ho

end Engine

end Workflow
