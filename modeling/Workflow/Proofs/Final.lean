import Workflow.Proofs.Evolution

/-! # Ends are final

A thread that is completed or has failed stays as it is, whatever engines of whatever graphs do with the store, until it
is deleted; and a call that is refused for its settings, its input or its thread changes nothing at all
(`final_and_unchanged`). Two things are looked at later than all others, so that starts that are refused for them do
change something (`refused_starts_stay`): whether the nodes to pause at can be put in order, and whether there is such a
kind of providers. -/

namespace Workflow

/-- The call looks for a thread in the store: to take it up, or to end it while nobody runs it. -/
def Request.Seeks (w : Surroundings) : Request → Prop
  | .resume _ _ _ => True
  | .cancel thread => thread ∉ w.active
  | .start _ _ _ | .delete _ => False

namespace Engine

variable {g : Engine} {w : Surroundings} {s u : Store} {thread : String} {c : Checkpoint} {request : Request} {f : Fault}
  {input value : Value} {options : CallOptions} {overrides : Overrides}

/-! ### Refusals -/

/-- What is told of a thread that is to be started and is there. -/
def taken (thread : String) : Fault := .value s!"Thread {thread} already has an execution; use resume()"

/-- What is told of a thread whose checkpoint is of another graph. -/
def stranger (g : Engine) (thread : String) (c : Checkpoint) : Fault :=
  .failure (.checkpoint s!"Thread {thread} belongs to graph '{c.graph.text}', not '{g.definition.name}'")

/-- Why a call is refused before anything is done, and what is told of it. -/
inductive Rejects (g : Engine) (w : Surroundings) : Request → Fault → Prop
  | settings {thread : String} {input : Value} {options : CallOptions} {f : Fault}
      (h : g.config.override options.overrides = .error f) : Rejects g w (.start thread input options) f
  | input {thread : String} {input : Value} {options : CallOptions} {config : Config} {f : Fault}
      (settings : g.config.override options.overrides = .ok config)
      (h : g.definition.schema.initialState input = .error f) : Rejects g w (.start thread input options) f
  | taken {thread : String} {input : Value} {options : CallOptions} {config : Config} {state : State} {c : Checkpoint}
      (settings : g.config.override options.overrides = .ok config)
      (fits : g.definition.schema.initialState input = .ok state) (last : w.store.load thread = .ok (some c)) :
      Rejects g w (.start thread input options) (taken thread)
  | unknown {request : Request} (seeks : request.Seeks w) (none : w.store.load request.thread = .ok none) :
      Rejects g w request (.failure (.threadNotFound request.thread))
  | stranger {request : Request} {c : Checkpoint} (seeks : request.Seeks w)
      (last : w.store.load request.thread = .ok (some c)) (other : c.graph ≠ .str g.definition.name) :
      Rejects g w request (g.stranger request.thread c)
  | unpaused {thread : String} {value : Value} {options : CallOptions} {c : Checkpoint}
      (last : g.lastCheckpoint thread w.store = .ok c) (h : c.status ≠ .paused) :
      Rejects g w (.resume thread value options) (.failure (.invalidResume thread c.status.name))
  | resettings {thread : String} {value : Value} {options : CallOptions} {c : Checkpoint} {i : Interrupt} {e : Execution}
      {stored : Overrides} {f : Fault} (last : g.lastCheckpoint thread w.store = .ok c) (paused : c.status = .paused)
      (waits : c.interrupt = some i) (execution : Execution.ofCheckpoint c = .ok e)
      (kept : Overrides.ofMetadata e.metadata = .ok stored)
      (h : (g.config.override stored >>= fun config => config.override options.overrides) = .error f) :
      Rejects g w (.resume thread value options) f
  | unordered {thread : String} {value : Value} {options : CallOptions} {c : Checkpoint} {i : Interrupt} {e : Execution}
      {stored : Overrides} {config : Config} {f : Fault} (last : g.lastCheckpoint thread w.store = .ok c)
      (paused : c.status = .paused) (waits : c.interrupt = some i) (execution : Execution.ofCheckpoint c = .ok e)
      (kept : Overrides.ofMetadata e.metadata = .ok stored)
      (settings : (g.config.override stored >>= fun config => config.override options.overrides) = .ok config)
      (h : (options.overrides.onto stored).checkNames = .error f) : Rejects g w (.resume thread value options) f

theorem lastCheckpoint_of_other (last : s.load thread = .ok (some c)) (other : c.graph ≠ .str g.definition.name) :
    g.lastCheckpoint thread s = .error (g.stranger thread c) := by
  have differs : ¬c.graph.equal (.str g.definition.name) = true := fun same => other (Value.eq_str_of_equal same)
  rw [lastCheckpoint, last]
  exact if_neg differs

/-- A call that looks for a thread and finds no checkpoint of the graph is refused with what is told of that. -/
theorem serve_of_lastCheckpoint (seeks : request.Seeks w) (h : g.lastCheckpoint request.thread w.store = .error f) :
    g.serve w request = (w, .error f) := by
  cases request with
  | start | delete => exact seeks.elim
  | resume thread value options =>
    have refused : g.resumption thread options.overrides w.store = .error f := bind_eq_error.mpr (.inl h)
    simp only [serve, resume, refused]
    rfl
  | cancel thread =>
    have idle : w.active.contains thread = false := Bool.eq_false_iff.mpr fun h => seeks (List.contains_iff_mem.mp h)
    have none : g.lastCheckpoint thread w.store = .error f := h
    simp only [serve, cancel, idle, none]
    rfl

/-- A call that is refused leaves the store, the observers and the requests to end as they are. -/
theorem serve_of_rejects (h : g.Rejects w request f) : g.serve w request = (w, .error f) := by
  have started {thread : String} {input : Value} {options : CallOptions}
      (h : g.opening thread input options.overrides w.store = .error f) :
      g.serve w (.start thread input options) = (w, .error f) := by
    simp only [serve, start, h]
    rfl
  have resumed {thread : String} {value : Value} {options : CallOptions}
      (h : g.resumption thread options.overrides w.store = .error f) :
      g.serve w (.resume thread value options) = (w, .error f) := by
    simp only [serve, resume, h]
    rfl
  cases h with
  | settings h => exact started (bind_eq_error.mpr (.inl h))
  | input settings h => exact started (by simp only [opening, settings, h]; rfl)
  | taken settings fits last => exact started (by simp only [opening, settings, fits, last]; rfl)
  | unknown seeks none => exact serve_of_lastCheckpoint seeks (lastCheckpoint_of_none none)
  | stranger seeks last other => exact serve_of_lastCheckpoint seeks (lastCheckpoint_of_other last other)
  | unpaused last h => exact resumed (resumption_of_unpaused last h)
  | resettings last paused waits execution kept h =>
    refine resumed ?_
    rcases bind_eq_error.mp h with h | ⟨config, settings, h⟩
    · simp only [resumption, last, bind, Except.bind, paused, waits, execution, kept, h]
    · simp only [resumption, last, bind, Except.bind, paused, waits, execution, kept, settings, h]
  | unordered last paused waits execution kept settings h =>
    obtain ⟨config, kept', settings⟩ := bind_eq_ok.mp settings
    refine resumed ?_
    simp only [resumption, last, bind, Except.bind, paused, waits, execution, kept, kept', settings, h]

/-! ### Threads that have come to their end -/

/-- What calls for a thread are answered that has come to its end. -/
structure Final (g : Engine) (w : Surroundings) (thread : String) (c : Checkpoint) : Prop where
  start : ∀ input options, ∃ f, g.start thread input options w = (w, .error f) ∧
    (f = taken thread ∨ g.config.override options.overrides = .error f ∨
      g.definition.schema.initialState input = .error f)
  resume : c.graph = .str g.definition.name → ∀ value options,
    g.resume thread value options w = (w, .error (.failure (.invalidResume thread c.status.name)))
  cancel : c.graph = .str g.definition.name → (g.cancel thread w).2 = .ok none

theorem opening_of_there (last : s.load thread = .ok (some c)) (input : Value) (overrides : Overrides) :
    ∃ f, g.opening thread input overrides s = .error f ∧
      (f = taken thread ∨ g.config.override overrides = .error f ∨
        g.definition.schema.initialState input = .error f) := by
  cases settings : g.config.override overrides with
  | error f => exact ⟨f, bind_eq_error.mpr (.inl settings), .inr (.inl rfl)⟩
  | ok config =>
    cases fits : g.definition.schema.initialState input with
    | error f => exact ⟨f, by simp only [opening, settings, fits]; rfl, .inr (.inr rfl)⟩
    | ok state => exact ⟨taken thread, by simp only [opening, settings, fits, last]; rfl, .inl rfl⟩

/-- No call ends a thread of the graph that does not wait. -/
theorem cancel_of_unpaused (last : g.lastCheckpoint thread w.store = .ok c) (h : c.status ≠ .paused) :
    (g.cancel thread w).2 = .ok none := by
  rw [cancel]
  split
  · rfl
  · simp [last, bind, Except.bind, pure, Except.pure, h]

theorem unpaused_of_terminal (terminal : c.status = .completed ∨ c.status = .failed) : c.status ≠ .paused := by
  rcases terminal with same | same <;> rw [same] <;> exact RunStatus.noConfusion

theorem final_of_terminal (last : w.store.load thread = .ok (some c))
    (terminal : c.status = .completed ∨ c.status = .failed) : g.Final w thread c where
  start input options := by
    obtain ⟨f, refused, why⟩ := g.opening_of_there last input options.overrides
    exact ⟨f, by rw [Engine.start, refused], why⟩
  resume own value options := by
    rw [Engine.resume, resumption_of_unpaused (lastCheckpoint_of_own last own) (unpaused_of_terminal terminal)]
  cancel own := cancel_of_unpaused (lastCheckpoint_of_own last own) (unpaused_of_terminal terminal)

/-- Where the graph has no waiting checkpoint of a thread that is there, whatever is done with the thread leaves the store
    as it is, unless the thread is deleted. -/
theorem store_use_of_closed {use : Use} (last : w.store.load use.thread = .ok (some c))
    (closed : ∀ d, g.lastCheckpoint use.thread w.store = .ok d → d.status ≠ .paused)
    (kept : use ≠ .ask (.request (.delete use.thread))) : (g.use w use).1.store = w.store := by
  cases use with
  | subscribe => rfl
  | ask a =>
    cases a with
    | state | outcome | history => rfl
    | request r =>
      cases r with
      | delete thread => exact absurd rfl kept
      | start thread input options =>
        obtain ⟨f, refused, -⟩ := g.opening_of_there last input options.overrides
        have refused : g.opening thread input options.overrides w.store = .error f := refused
        simp only [use, answer, serve, start, refused]
      | resume thread value options =>
        simp only [use, answer, serve, resume]
        split
        · rfl
        · -- Only a waiting checkpoint of the graph is taken up.
          rename_i resumption
          obtain ⟨d, -, -, -, found, paused, -⟩ := taken_of_resumption resumption
          exact absurd paused (closed d found)
      | cancel thread =>
        rcases g.cancel_leaves_or_ends thread w with ⟨same, -⟩ | ⟨d, _, found, paused, -⟩
        · exact same
        · exact absurd paused (closed d found)

/-- One step: nothing that is told of a thread changes when it has come to its end and is not deleted. -/
theorem tells_of_terminal (owned : s.Owned) (last : s.load thread = .ok (some c))
    (terminal : c.status = .completed ∨ c.status = .failed)
    (step : s.Evolves (· ≠ .ask (.request (.delete thread))) u) : Store.Tells thread s u := by
  obtain ⟨g, w, use, kept, rfl, rfl⟩ := step
  by_cases own : use.thread = thread
  · subst own
    have closed : ∀ d, g.lastCheckpoint use.thread w.store = .ok d → d.status ≠ .paused := by
      intro d found
      have same := (lastCheckpoint_eq_ok_iff.mp found).1.symm.trans last
      cases same
      exact unpaused_of_terminal terminal
    rw [store_use_of_closed last closed kept]
    exact .refl _ _
  · -- What is written for another thread does not tell of this one.
    exact tells_use owned (Ne.symm own)

theorem tells_of_evolves (owned : s.Owned) (last : s.load thread = .ok (some c))
    (terminal : c.status = .completed ∨ c.status = .failed)
    (steps : Relation.ReflTransGen (Store.Evolves (· ≠ .ask (.request (.delete thread)))) s u) :
    u.Owned ∧ Store.Tells thread s u := by
  induction steps with
  | refl => exact ⟨owned, .refl thread s⟩
  | tail _ step ih =>
    obtain ⟨owned, same⟩ := ih
    exact ⟨owned.evolved step, same.trans (tells_of_terminal owned (same.load.trans last) terminal step)⟩

/-- Once the last checkpoint of a thread is completed or failed, its history stays whatever is done with the store but to
    delete the thread, and calls for it are refused or left without an answer. Every call that is refused, for its
    settings, its input or the thread that it names, leaves everything as it was. But where a start lists nodes to pause
    at that cannot be put in order, its observers stay. -/
theorem final_and_unchanged (reached : s.Reached) :
    (∀ thread c, s.load thread = .ok (some c) → c.status = .completed ∨ c.status = .failed →
      ∀ u, Relation.ReflTransGen (Store.Evolves (· ≠ .ask (.request (.delete thread)))) s u →
        u.list thread = s.list thread ∧ ∀ (g : Engine) (w : Surroundings), w.store = u → g.Final w thread c) ∧
    (∀ (g : Engine) (w : Surroundings) (request : Request) (f : Fault), g.Rejects w request f →
      g.serve w request = (w, .error f)) ∧
    ∀ (g : Engine) (w : Surroundings) (thread : String) (input : Value) (options : CallOptions) (x : Config × Execution)
      (f : Fault), g.opening thread input options.overrides w.store = .ok x → options.overrides.checkNames = .error f →
      g.serve w (.start thread input options) = (w.attended thread options.observers, .error f) := by
  refine ⟨fun thread c last terminal u steps => ?_, fun g w request f rejects => serve_of_rejects rejects,
    fun g w thread input options x f opening names => ?_⟩
  case refine_2 =>
    rw [serve, start_of_unordered opening names]
    rfl
  obtain ⟨-, same⟩ := tells_of_evolves reached.owned last terminal steps
  refine ⟨same.list, ?_⟩
  rintro g w rfl
  exact final_of_terminal (same.load.trans last) terminal

/-- A run that was ended while it waited for a word: other threads come and go, and it cannot be taken up. -/
theorem final_and_unchanged_inquiry :
    let g : Engine := { definition := .inquiry }
    let w : Surroundings := (g.useAll {} [.ask (.request (.start "t" .null {})), .ask (.request (.cancel "t"))]).1
    let v : Surroundings := (g.useAll w [.ask (.request (.start "x" .null {})),
      .ask (.request (.resume "t" (.str "tick") {})), .ask (.request (.delete "x"))]).1
    w.store.Reached ∧ ∃ c, w.store.load "t" = .ok (some c) ∧ c.status = .failed ∧
      Relation.ReflTransGen (Store.Evolves (· ≠ .ask (.request (.delete "t")))) w.store v.store ∧
      v.store.list "t" = w.store.list "t" ∧ g.Final v "t" c ∧
      g.Rejects w (.start "t" .null {}) (taken "t") ∧
      g.serve w (.start "t" .null {}) = (w, .error (taken "t")) := by
  intro g w v
  have begun : Relation.ReflTransGen (Store.Evolves fun _ => True) (.memory []) w.store :=
    Store.evolves_useAll (w := {}) fun _ _ => trivial
  have new : (Store.memory []).Reached := .unused (.inl rfl)
  have reached : w.store.Reached := new.evolves begun
  obtain ⟨c, last, failed⟩ : ∃ c, w.store.load "t" = .ok (some c) ∧ c.status = .failed :=
    exists_of_answer (by decide +kernel)
  have steps : Relation.ReflTransGen (Store.Evolves (· ≠ .ask (.request (.delete "t")))) w.store v.store :=
    Store.evolves_useAll (by simp)
  obtain ⟨final, unchanged, -⟩ := final_and_unchanged reached
  obtain ⟨same, refuses⟩ := final "t" c last (.inr failed) v.store steps
  have settings : g.config.override {} = .ok g.config := rfl
  have rejects : g.Rejects w (.start "t" .null {}) (taken "t") := .taken settings rfl last
  exact ⟨reached, c, last, failed, steps, same, refuses g v rfl, rejects, unchanged g w _ _ rejects⟩

/-- Starts that are refused for what they set: the observer of one still follows the thread, and so does that of the
    other, which leaves a checkpoint of a run besides. -/
theorem refused_starts_stay :
    let g : Engine := { definition := .inquiry }
    let observers : List Observer := [{ name := "a" }]
    let unordered : CallOptions := { overrides := { before := .list [.int 0, .null] }, observers }
    let unknown : CallOptions := { providers := [("telepathy", { mark := 0, answer := fun _ _ => .ok .null })], observers }
    let left := fun options => ((g.serve {} (.start "t" .null options)).1.bus.count "t",
      ((g.serve {} (.start "t" .null options)).1.records "t").map Checkpoint.status)
    (g.serve {} (.start "t" .null unordered)).2 =
      .error (.type "'<' not supported between instances of 'NoneType' and 'int'") ∧
    (g.serve {} (.start "t" .null unknown)).2 = .error (.value "'telepathy' is not a valid CapabilityKind") ∧
    ({} : Surroundings).bus.count "t" = 0 ∧ ({} : Surroundings).records "t" = [] ∧
    left unordered = (1, []) ∧ left unknown = (1, [.running]) :=
  ⟨rfl, rfl, rfl, rfl, by decide +kernel, by decide +kernel⟩

end Engine

end Workflow
