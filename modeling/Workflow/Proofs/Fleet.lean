import Mathlib.Logic.Function.Basic
import Workflow.Proofs.Calm
import Workflow.Proofs.Running
import Workflow.Proofs.Sound

/-! # Fleets

Several instances of an engine share a store and what providers have served; each has observers of its own,
and keeps to itself which threads it is running and which of them were asked to end. As long as observers
only watch, it makes no difference which instance a call is made of: the answers and the store are those of
one instance that all calls are made of (`answerAll_eq_alone`). -/

namespace Workflow

namespace Surroundings

/-- The surroundings agree in all but their observers, who only watch. -/
structure Agrees (w v : Surroundings) : Prop where
  store : w.store = v.store
  active : w.active = v.active
  cancels : w.cancels = v.cancels
  calls : w.calls = v.calls
  drawn : w.drawn = v.drawn
  trace : w.trace = v.trace
  quiet : w.bus.Quiet
  quiet' : v.bus.Quiet

/-- The answers are the same, and the surroundings that are left agree. -/
structure Alike {α : Type} (x y : Surroundings × α) : Prop where
  around : x.1.Agrees y.1
  answer : x.2 = y.2

variable {w v : Surroundings} {α β : Type} {x y : Surroundings × α}

theorem Alike.cases (h : Alike x y) : ∃ w v a, x = (w, a) ∧ y = (v, a) ∧ w.Agrees v :=
  ⟨x.1, y.1, x.2, rfl, by rw [h.answer], h.around⟩

theorem Alike.map (h : Alike x y) (f : α → β) : Alike (x.1, f x.2) (y.1, f y.2) :=
  ⟨h.around, congrArg f h.answer⟩

section Operations
variable (h : w.Agrees v)
include h

theorem Agrees.isCancelled (thread : String) : w.isCancelled thread = v.isCancelled thread := by
  rw [Surroundings.isCancelled, Surroundings.isCancelled, h.cancels]

theorem Agrees.requestCancel (thread : String) : (w.requestCancel thread).Agrees (v.requestCancel thread) := by
  unfold Surroundings.requestCancel
  rw [h.active, h.cancels]
  split
  · exact { h with active := rfl, cancels := rfl }
  · exact h

theorem Agrees.activate (thread : String) : (w.activate thread).Agrees (v.activate thread) := by
  unfold Surroundings.activate
  rw [h.active]
  split
  · exact h
  · exact { h with active := rfl }

theorem Agrees.release (thread : String) : (w.release thread).Agrees (v.release thread) :=
  { h with
    active := by rw [Surroundings.release, Surroundings.release, h.active]
    cancels := by rw [Surroundings.release, Surroundings.release, h.cancels] }

theorem Agrees.emit (e : Event) : (w.emit e).Agrees (v.emit e) := by
  rw [emit_of_quiet h.quiet, emit_of_quiet h.quiet']
  exact { h with quiet := h.quiet.emitted e, quiet' := h.quiet'.emitted e }

theorem Agrees.emitLast (e : Event) : (w.emitLast e).Agrees (v.emitLast e) :=
  { h.emit e with quiet := (h.emit e).quiet.clear _, quiet' := (h.emit e).quiet'.clear _ }

theorem Agrees.attended {observers : List Observer} (ho : Watching observers) (thread : String) :
    (w.attended thread observers).Agrees (v.attended thread observers) :=
  { h with quiet := h.quiet.subscribeAll ho thread, quiet' := h.quiet'.subscribeAll ho thread }

theorem Agrees.joined {observers : List Observer} (ho : Watching observers) (thread : String) :
    (w.joined thread observers).Agrees (v.joined thread observers) :=
  (h.attended ho thread).activate thread

theorem Agrees.save (snapshot : (id timestamp : Value) → Checkpoint) : Alike (w.save snapshot) (v.save snapshot) := by
  unfold Surroundings.save
  rw [h.store, h.drawn]
  exact ⟨{ h with store := rfl, drawn := rfl }, rfl⟩

theorem Agrees.forget (thread : String) : (w.forget thread).Agrees (v.forget thread) := by
  unfold Surroundings.forget
  rw [h.store]
  split
  · exact { h with store := rfl }
  · exact h

theorem Agrees.absorb (thread : String) (effects : Action.Effects) :
    (w.absorb thread effects).Agrees (v.absorb thread effects) := by
  have logged : Agrees { w with calls := effects.calls, trace := w.trace ++ effects.trace }
      { v with calls := effects.calls, trace := v.trace ++ effects.trace } :=
    { h with calls := rfl, trace := by rw [h.trace] }
  unfold Surroundings.absorb
  dsimp only
  cases effects.forgotten <;> cases effects.cancelled
  · exact logged
  · exact logged.requestCancel thread
  · exact logged.forget thread
  · exact (logged.forget thread).requestCancel thread

end Operations

theorem Alike.release (h : Alike x y) (thread : String) :
    Alike (x.1.release thread, x.2) (y.1.release thread, y.2) :=
  ⟨h.around.release thread, h.answer⟩

end Surroundings

namespace Engine

open Surroundings (Alike)

variable {g : Engine} {w v : Surroundings} {e : Execution}

/-! ### The loop -/

section Endings
variable (h : w.Agrees v)
include h

theorem alike_save : Alike (g.save e w) (g.save e v) := h.save _

theorem alike_pause (node : String) (kind : InterruptKind) (prompt : Value) :
    Alike (g.pause e node kind prompt w) (g.pause e node kind prompt v) := by
  unfold pause
  obtain ⟨w', v', saved, hw, hv, agrees⟩ := (alike_save (g := g) (e := { e with
    status := .paused, interrupt := some { node := .str node, prompt, kind } }) h).cases
  dsimp only
  rw [hw, hv]
  cases saved with
  | error f => exact ⟨agrees, rfl⟩
  | ok c => exact ⟨agrees.emit _, rfl⟩

theorem alike_complete : Alike (g.complete e w) (g.complete e v) := by
  unfold complete
  obtain ⟨w', v', saved, hw, hv, agrees⟩ :=
    (alike_save (g := g) (e := { e with status := .completed }) h).cases
  dsimp only
  rw [hw, hv]
  cases saved with
  | error f => exact ⟨agrees, rfl⟩
  | ok c => exact ⟨agrees.emitLast _, rfl⟩

theorem alike_record (f : Failure) : Alike (g.record e f w) (g.record e f v) := by
  unfold record
  rw [h.store]
  split
  · exact ⟨h, rfl⟩
  · exact h.save _
  · exact alike_save h

theorem alike_fail (f : Failure) : Alike (g.fail e f w) (g.fail e f v) := by
  unfold fail
  obtain ⟨w', v', recorded, hw, hv, agrees⟩ := (alike_record (g := g) (e := { e with
    status := .failed, interrupt := none, error := some f }) h f).cases
  dsimp only
  rw [hw, hv]
  cases recorded with
  | error f => exact ⟨agrees, rfl⟩
  | ok c => exact ⟨agrees.emitLast _, rfl⟩

theorem alike_move (source target : String) : Alike (g.move source target e w) (g.move source target e v) := by
  unfold move
  have told := h.emit { kind := .stepCompleted, thread := e.thread, node := source, step := e.step
                        data := [("next_node", .str target)] }
  dsimp only
  rw [told.isCancelled]
  split
  · split <;> exact ⟨told, rfl⟩
  · split
    · exact ⟨told, rfl⟩
    · obtain ⟨w', v', saved, hw, hv, agrees⟩ := (alike_save (g := g) (e := { e with node := target }) told).cases
      rw [hw, hv]
      cases saved <;> exact ⟨agrees, rfl⟩

theorem alike_follow (stride : Stride) : Alike (g.follow e w stride) (g.follow e v stride) := by
  cases stride with
  | reached p => exact alike_move h e.node p.node
  | suspended prompt =>
    simp only [follow, h.isCancelled]
    split <;> exact ⟨h, rfl⟩
  | failed p f => exact ⟨h, rfl⟩
  | lost f => exact ⟨h, rfl⟩

theorem alike_visit (entry : Entry) : Alike (g.visit e entry w) (g.visit e entry v) := by
  rw [visit_eq, visit_eq, h.calls]
  split
  · exact ⟨h, rfl⟩
  · exact alike_follow (h.absorb _ _) _

end Endings

theorem alike_loop (h : w.Agrees v) (left : Nat) (entry : Entry) :
    Alike (g.loop left e entry w) (g.loop left e entry v) := by
  -- Each pass is alike, and leaves surroundings that agree to the next one.
  induction left generalizing e entry w v with
  | zero =>
    unfold loop
    rw [h.isCancelled]
    split
    · exact alike_fail h _
    · split
      · exact alike_complete h
      · exact alike_fail h _
  | succ left ih =>
    unfold loop
    rw [h.isCancelled]
    split
    · exact alike_fail h _
    · split
      · exact alike_complete h
      · obtain ⟨w', v', visit, hw, hv, agrees⟩ := (alike_visit (g := g) (e := e) h entry).cases
        dsimp only
        rw [hw, hv]
        cases visit with
        | moved e' => exact ih agrees {}
        | pause e' node kind prompt => exact alike_pause agrees node kind prompt
        | fail e' f => exact alike_fail agrees f
        | raise f => exact ⟨agrees, rfl⟩

/-! ### Calls -/

section Calls
variable (h : w.Agrees v)
include h

theorem alike_proceed (config : Config) (providers : List (String × Provider)) (entry : Entry) :
    Alike (g.proceed config providers e entry w) (g.proceed config providers e entry v) := by
  unfold proceed
  split
  · exact ⟨h, rfl⟩
  · exact (alike_loop h _ entry).map _

theorem alike_begin (config : Config) (providers : List (String × Provider)) :
    Alike (g.begin config providers e w) (g.begin config providers e v) := by
  unfold begin
  obtain ⟨w', v', saved, hw, hv, agrees⟩ := (alike_save (g := g) (e := e) h).cases
  rw [hw, hv]
  cases saved with
  | error f => exact ⟨agrees, rfl⟩
  | ok c => exact alike_proceed (agrees.emit _) config providers {}

theorem alike_start {options : CallOptions} (watching : Watching options.observers) (thread : String) (input : Value) :
    Alike (g.start thread input options w) (g.start thread input options v) := by
  have opening : g.opening thread input options.overrides w.store =
      g.opening thread input options.overrides v.store := by rw [h.store]
  unfold start
  rw [opening]
  split
  · exact ⟨h, rfl⟩
  · split
    · exact ⟨h.attended watching thread, rfl⟩
    · exact (alike_begin (h.joined watching thread) _ _).release thread

theorem alike_resume (thread : String) (value : Value) (options : CallOptions) :
    Alike (g.resume thread value options w) (g.resume thread value options v) := by
  unfold resume
  rw [h.store]
  split
  · exact ⟨h, rfl⟩
  · exact (alike_proceed ((h.activate thread).emit _) _ _ _).release thread

theorem alike_cancel (thread : String) : Alike (g.cancel thread w) (g.cancel thread v) := by
  unfold cancel
  rw [h.store, h.active]
  split
  · exact ⟨h.requestCancel thread, rfl⟩
  · dsimp only
    split
    · exact ⟨h, rfl⟩
    · exact ⟨h, rfl⟩
    · exact (alike_fail h _).map _

theorem alike_delete (thread : String) : Alike (delete thread w) (delete thread v) := by
  unfold delete
  rw [h.store]
  split
  · exact ⟨h, rfl⟩
  · exact ⟨{ h with store := rfl, quiet := h.quiet.clear thread, quiet' := h.quiet'.clear thread }, rfl⟩

end Calls

end Engine

/-! ### Instances -/

/-- Whatever can be asked of an engine: a request, or how a thread stands. -/
inductive Ask where
  | request (r : Request)
  | state (thread : String)
  | outcome (thread : String)
  | history (thread : String)

inductive Answer where
  | outcome (r : Except Fault (Option Outcome))
  | deleted (r : Except Fault Nat)
  | state (r : Except Fault Value)
  | history (r : Except Fault (List Checkpoint))

/-- The observers that join a thread. -/
def Ask.observers : Ask → List Observer
  | .request r => r.options.observers
  | .state _ | .outcome _ | .history _ => []

/-- What an instance of an engine keeps to itself. -/
structure Instance where
  bus : Bus := {}
  active : List String := []
  cancels : List String := []
  deliveries : List Delivery := []

/-- Instances of an engine, and what they share. -/
structure Fleet (ι : Type) where
  store : Store
  calls : CallLog := []
  drawn : Nat := 0
  trace : List Value := []
  instances : ι → Instance

namespace Engine

def answer (g : Engine) (w : Surroundings) : Ask → Surroundings × Answer
  | .request (.delete thread) => let x := delete thread w; (x.1, .deleted x.2)
  | .request r => let x := g.serve w r; (x.1, .outcome x.2)
  | .state thread => (w, .state (g.state thread w))
  | .outcome thread => (w, .outcome ((g.outcome thread w).map some))
  | .history thread => (w, .history (history thread w))

variable {g : Engine} {w v : Surroundings}

theorem alike_answer (h : w.Agrees v) (a : Ask) (watching : Watching a.observers) :
    Surroundings.Alike (g.answer w a) (g.answer v a) := by
  cases a with
  | request r =>
    cases r with
    | start thread input options =>
      exact (alike_start h watching thread input).map fun r => Answer.outcome (r.map some)
    | resume thread value options =>
      exact (alike_resume h thread value options).map fun r => Answer.outcome (r.map some)
    | cancel thread => exact (alike_cancel h thread).map Answer.outcome
    | delete thread => exact (alike_delete h thread).map Answer.deleted
  | state thread =>
    refine ⟨h, ?_⟩
    simp only [answer, state, h.store]
  | outcome thread =>
    refine ⟨h, ?_⟩
    simp only [answer, outcome, h.store]
  | history thread =>
    refine ⟨h, ?_⟩
    simp only [answer, history, h.store]

theorem rests_answer {thread : String} (h : w.Rests thread) (a : Ask) : (g.answer w a).1.Rests thread := by
  cases a with
  | request r =>
    have served := rests_serve (g := g) h r
    cases r <;> exact served
  | state | outcome | history => exact h

end Engine

/-- No call is under way, and the observers only watch. -/
structure Instance.Idle (n : Instance) : Prop where
  active : n.active = []
  cancels : n.cancels = []
  quiet : n.bus.Quiet

namespace Fleet

variable {ι κ : Type} [DecidableEq ι] [DecidableEq κ] {f : Fleet ι} {f' : Fleet κ} {g : Engine} {i : ι} {k : κ}

/-- What surrounds a call of an instance. -/
def around (f : Fleet ι) (i : ι) : Surroundings :=
  { store := f.store, calls := f.calls, drawn := f.drawn, trace := f.trace
    bus := (f.instances i).bus, active := (f.instances i).active, cancels := (f.instances i).cancels
    deliveries := (f.instances i).deliveries }

/-- The fleet after a call of an instance has left surroundings. -/
def after (f : Fleet ι) (i : ι) (w : Surroundings) : Fleet ι :=
  { store := w.store, calls := w.calls, drawn := w.drawn, trace := w.trace
    instances := Function.update f.instances i ⟨w.bus, w.active, w.cancels, w.deliveries⟩ }

def answer (g : Engine) (f : Fleet ι) (i : ι) (a : Ask) : Fleet ι × Answer :=
  let x := g.answer (f.around i) a
  (f.after i x.1, x.2)

/-- Calls one after another, each of some instance. -/
def answerAll (g : Engine) : Fleet ι → List (ι × Ask) → Fleet ι × List Answer
  | f, [] => (f, [])
  | f, (i, a) :: asks =>
    let x := f.answer g i a
    let y := x.1.answerAll g asks
    (y.1, x.2 :: y.2)

/-- The instances share the same. -/
structure Shares (f : Fleet ι) (f' : Fleet κ) : Prop where
  store : f.store = f'.store
  calls : f.calls = f'.calls
  drawn : f.drawn = f'.drawn
  trace : f.trace = f'.trace

omit [DecidableEq ι] [DecidableEq κ] in
theorem Shares.agrees (h : f.Shares f') (hi : (f.instances i).Idle) (hk : (f'.instances k).Idle) :
    (f.around i).Agrees (f'.around k) where
  store := h.store
  calls := h.calls
  drawn := h.drawn
  trace := h.trace
  active := hi.active.trans hk.active.symm
  cancels := hi.cancels.trans hk.cancels.symm
  quiet := hi.quiet
  quiet' := hk.quiet

/-- An instance is idle again when a call is over. -/
theorem idle_answer (idle : ∀ i, (f.instances i).Idle) {a : Ask} (watching : Watching a.observers) (i j : ι) :
    ((f.answer g i a).1.instances j).Idle := by
  by_cases own : j = i
  · subst own
    have rests (thread : String) : (g.answer (f.around j) a).1.Rests thread := by
      refine Engine.rests_answer ⟨?_, ?_⟩ a
      · simp [around, (idle j).active]
      · simp [around, (idle j).cancels]
    have agrees : (f.around j).Agrees (f.around j) := Shares.agrees ⟨rfl, rfl, rfl, rfl⟩ (idle j) (idle j)
    simp only [answer, after, Function.update_self]
    exact ⟨List.eq_nil_iff_forall_not_mem.mpr fun t => (rests t).inactive,
      List.eq_nil_iff_forall_not_mem.mpr fun t => (rests t).unasked,
      (Engine.alike_answer (g := g) agrees a watching).around.quiet⟩
  · simp only [answer, after, Function.update_of_ne own]
    exact idle j

/-- The answer to a call is the same of whichever instance it is made, and so is what it leaves to all of them. -/
theorem Shares.answer (h : f.Shares f') (hi : (f.instances i).Idle) (hk : (f'.instances k).Idle) {a : Ask}
    (watching : Watching a.observers) :
    (f.answer g i a).1.Shares (f'.answer g k a).1 ∧ (f.answer g i a).2 = (f'.answer g k a).2 := by
  obtain ⟨around, same⟩ := Engine.alike_answer (g := g) (h.agrees hi hk) a watching
  exact ⟨⟨around.store, around.calls, around.drawn, around.trace⟩, same⟩

theorem Shares.answerAll (h : f.Shares f') (idle : ∀ i, (f.instances i).Idle) (idle' : ∀ k, (f'.instances k).Idle)
    (k : κ) {asks : List (ι × Ask)} (watching : ∀ x ∈ asks, Watching x.2.observers) :
    (f.answerAll g asks).1.Shares (f'.answerAll g (asks.map fun x => (k, x.2))).1 ∧
    (f.answerAll g asks).2 = (f'.answerAll g (asks.map fun x => (k, x.2))).2 ∧
    ∀ i, ((f.answerAll g asks).1.instances i).Idle := by
  induction asks generalizing f f' with
  | nil => exact ⟨h, rfl, idle⟩
  | cons x asks ih =>
    obtain ⟨i, a⟩ := x
    obtain ⟨first, rest⟩ := List.forall_mem_cons.mp watching
    obtain ⟨shares, same⟩ := h.answer (g := g) (idle i) (idle' k) first
    obtain ⟨shares, others, idle⟩ := ih shares (idle_answer idle first i) (idle_answer idle' first k) rest
    exact ⟨shares, congrArg₂ List.cons same others, idle⟩

/-- However calls are spread over the instances of a fleet, they are answered as if all were made of one of them,
    and leave the same behind; and no instance keeps anything of them but its observers. -/
theorem answerAll_eq_alone (g : Engine) (f : Fleet ι) (idle : ∀ i, (f.instances i).Idle) (asks : List (ι × Ask))
    (watching : ∀ x ∈ asks, Watching x.2.observers) (one : ι) :
    let alone := f.answerAll g (asks.map fun x => (one, x.2))
    (f.answerAll g asks).2 = alone.2 ∧ (f.answerAll g asks).1.Shares alone.1 ∧
      ∀ i, ((f.answerAll g asks).1.instances i).Idle := by
  obtain ⟨shares, same, idle⟩ := Shares.answerAll (g := g) ⟨rfl, rfl, rfl, rfl⟩ idle idle one watching
  exact ⟨same, shares, idle⟩

/-- An observer that ends its registration as soon as it is told anything. -/
def shy : Observer where
  name := "shy"
  react _ := [.unsubscribe "shy"]

/-- A new instance for every call: a run is started, looked at, resumed twice and read back, and its thread is deleted. -/
theorem answerAll_eq_alone_inquiry :
    let g : Engine := { definition := .inquiry }
    let f : Fleet Nat := { store := .memory [], instances := fun _ => {} }
    let asks : List (Nat × Ask) := [(0, .request (.start "t" .null { observers := [shy] })), (1, .outcome "t"),
      (2, .request (.resume "t" (.str "yes") {})), (3, .request (.resume "t" (.str "no") {})), (4, .history "t"),
      (5, .request (.delete "t"))]
    let alone := f.answerAll g (asks.map fun x => (0, x.2))
    ((f.answerAll g asks).2.getLast?.map fun | .deleted r => r.toOption | _ => none) = some (some 6) ∧
    (∀ i, (f.instances i).Idle) ∧ (∀ x ∈ asks, Watching x.2.observers) ∧
    (f.answerAll g asks).2 = alone.2 ∧ (f.answerAll g asks).1.Shares alone.1 ∧
      ∀ i, ((f.answerAll g asks).1.instances i).Idle := by
  intro g f asks alone
  have idle (i : Nat) : (f.instances i).Idle := ⟨rfl, rfl, fun r hr => absurd hr List.not_mem_nil⟩
  have watching : ∀ x ∈ asks, Watching x.2.observers := by
    simp [asks, Ask.observers, Request.options, Watching, shy]
  exact ⟨by decide +kernel, idle, watching, answerAll_eq_alone g f idle asks watching 0⟩

end Fleet

end Workflow
