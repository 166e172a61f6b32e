import Workflow.Proofs.Courses
import Workflow.Proofs.Shown

/-! # Streams of events

An observer that follows a thread is told of every call that runs it: first how the call takes the run up, then
of every step, and last how the call ends. Over all calls, it is told of exactly the steps that the run took, in
order (`stream_of_calls`). Others that follow the thread, whatever they raise, change nothing about it. -/

namespace Workflow

/-! ### Calls and uses that a thread is followed through -/

/-- How a call is told of that takes a run up. -/
def Request.opening : Request → List EventKind
  | .start _ _ _ => [.runStarted]
  | .resume _ _ _ => [.resumed]
  | .cancel _ | .delete _ => []

/-- The request neither forgets the thread nor brings those who end what was registered under the handles, and who
    starts the thread brings so many observers of the name: none, if the start is refused when they have joined the
    thread, or else they would join it again with the next start. -/
structure Request.Leaves (name thread : String) (held : String → Prop) (joins : Nat) (r : Request) : Prop where
  spares : ∀ o ∈ r.options.observers, o.Spares held
  kept : r ≠ .delete thread
  joining : ∀ input o, r = .start thread input o → o.overrides.checkNames = .ok () →
    o.observers.countP (fun o => o.name == name) = joins
  staying : ∀ input o f, r = .start thread input o → o.overrides.checkNames = .error f →
    o.observers.countP (fun o => o.name == name) = 0

def Use.Leaves (name thread : String) (held : String → Prop) (joins : Nat) : Use → Prop
  | .ask (.request r) => r.Leaves name thread held joins
  | .ask _ => True
  | .subscribe _ t o => o.Spares held ∧ (t = thread → o.name ≠ name)

namespace Engine

open Surroundings (Attended)

variable {g run : Engine} {w v : Surroundings} {name thread : String} {held : String → Prop} {joins : Nat}
  {es base told : List Event} {request : Request} {e : Execution} {q : Pass}

/-! ### Calls of the thread -/

/-- What was told of a call: how it takes the run up, each step, and last how it ends. -/
structure Streamed (request : Request) (o : Outcome) (before told : List Event) : Prop where
  kinds : ∃ n closing, told.map Event.kind = request.opening ++ List.replicate n .stepCompleted ++ [closing] ∧
    o.status.ClosedBy closing
  chronicle : Chronicle (Event.completions (before ++ told)) o.walked

/-- A call of the thread: how it leaves the thread, and what was told of a run that it answers with. -/
structure Served (name : String) (held : String → Prop) (joins : Nat) (g : Engine) (w : Surroundings)
    (request : Request) : Prop where
  stage : Stage name request.thread held joins (g.serve w request).1
  streamed : ∀ o, (g.serve w request).2 = .ok (some o) → ∃ told,
    (g.serve w request).1.heard name request.thread = w.heard name request.thread ++ told ∧
      Streamed request o (w.heard name request.thread) told

theorem Stage.map (h : Stage name thread held joins w)
    (attended : ∀ {n es}, w.Attended name thread held n es → v.Attended name thread held n es)
    (records : v.records thread = w.records thread) : Stage name thread held joins v := by
  cases h with
  | unbegun none here once => exact .unbegun (records ▸ none) (attended here) once
  | paused here last status taken course => exact .paused (attended here) (records ▸ last) status taken course
  | ended here last status => exact .ended (attended here) (records ▸ last) status

theorem Stage.congr (h : Stage name thread held joins w) (same : v.bus = w.bus ∧ v.deliveries = w.deliveries)
    (records : v.records thread = w.records thread) : Stage name thread held joins v :=
  h.map (fun attended => attended.congr same) records

theorem kinds_of_steps (steps : ∀ e ∈ told, e.kind = .stepCompleted) :
    told.map Event.kind = List.replicate told.length .stepCompleted := by
  rw [List.eq_replicate_iff]
  exact ⟨List.length_map _, by simpa using steps⟩

/-- A call that ends a run as it was taken up. -/
theorem Concluded.streamed {x : Ended} (h : Concluded name thread held joins (es ++ base) x) {o : Outcome}
    (answer : x.2 = .ok o) (opening : base.map Event.kind = request.opening) :
    ∃ told, x.1.heard name thread = es ++ told ∧ Streamed request o es told := by
  obtain ⟨answered, steps, closed, heard, chronicle, -⟩ := h
  rename_i o' told last
  cases answered.symm.trans answer
  refine ⟨base ++ told ++ [last], by rw [heard]; simp, ⟨told.length, last.kind, ?_, closed⟩, ?_⟩
  · simp [kinds_of_steps steps, opening]
  · have closing : last.kind ≠ .stepCompleted := by
      intro same
      generalize o.status = status at closed
      rw [same] at closed
      nomatch closed
    rw [← List.append_assoc, completions_append, completions_of_kind closing, List.append_nil, ← List.append_assoc]
    exact chronicle

/-- A run that a call enters goes on from where the thread stands. -/
theorem Enters.concluded (sound : g.definition.Sound) (hm : w.InMemory)
    (proper : ∀ c ∈ w.records request.thread, c.Proper g.definition) (enters : g.Enters w request run q)
    (h : Tells name request.thread held base [] q.execution.position q.around) :
    Concluded name request.thread held joins base (run.run q) := by
  obtain ⟨hd, p, entry, v, rfl, safe⟩ := enters.safe sound hm proper
  exact Tells.concluded h safe (hd ▸ sound) entry

theorem Enters.served (sound : g.definition.Sound) (hm : w.InMemory)
    (proper : ∀ c ∈ w.records request.thread, c.Proper g.definition) (enters : g.Enters w request run q)
    (h : Tells name request.thread held (w.heard name request.thread ++ base) [] q.execution.position q.around)
    (opening : base.map Event.kind = request.opening) : Served name held joins g w request := by
  have concluded : Concluded name request.thread held joins _ (run.run q) := Enters.concluded sound hm proper enters h
  have released : (((run.run q).1.release request.thread).bus = (run.run q).1.bus ∧
      ((run.run q).1.release request.thread).deliveries = (run.run q).1.deliveries) := ⟨rfl, rfl⟩
  refine ⟨?_, fun o ho => ?_⟩
  · rw [enters.serve_eq hm]
    cases concluded with
    | intro _ _ _ _ _ stage => exact stage.congr released rfl
  · rw [enters.serve_eq hm] at ho ⊢
    refine concluded.streamed ?_ opening
    cases concluded with
    | intro answer =>
      rw [answer] at ho ⊢
      cases ho
      rfl

/-- A paused run is taken up from its last record, after the steps that were told. -/
theorem Stage.paused_of {c : Checkpoint} (h : Stage name thread held joins w)
    (last : (w.records thread).getLast? = some c) (status : c.status = .paused)
    (taken : Execution.ofCheckpoint c = .ok e) : w.Attended name thread held 1 (w.heard name thread) ∧
      Course (Event.completions (w.heard name thread)) e.position := by
  cases h with
  | unbegun none =>
    rw [none] at last
    cases last
  | ended _ last' status' =>
    cases last.symm.trans last'
    exact absurd status status'
  | @paused es c' e' attended last' _ taken' course =>
    cases last.symm.trans last'
    cases taken.symm.trans taken'
    obtain rfl := attended.heard
    exact ⟨attended, course⟩

section Calls
variable (sound : g.definition.Sound) (hm : w.InMemory)

omit sound hm in
/-- A call that is refused, or has nothing to do, leaves the thread as it stands. -/
theorem Served.idle {x : Except Fault (Option Outcome)} (stage : Stage name request.thread held joins v)
    (served : g.serve w request = (v, x)) (untold : ∀ o, x ≠ .ok (some o)) : Served name held joins g w request := by
  refine ⟨?_, fun o ho => ?_⟩
  · rw [served]
    exact stage
  · rw [served] at ho
    exact absurd ho (untold o)

include sound hm

theorem Stage.start {input : Value} {options : CallOptions}
    (proper : ∀ c ∈ w.records thread, c.Proper g.definition) (h : Stage name thread held joins w)
    (spares : ∀ o ∈ options.observers, o.Spares held)
    (joining : options.overrides.checkNames = .ok () → options.observers.countP (fun o => o.name == name) = joins)
    (staying : ∀ f, options.overrides.checkNames = .error f →
      options.observers.countP (fun o => o.name == name) = 0) :
    Served name held joins g w (.start thread input options) := by
  -- A new run is opened only where nobody has started the thread before.
  have opened : ∀ {config e}, g.opening thread input options.overrides w.store = .ok (config, e) →
      options.overrides.checkNames = .ok () → w.heard name thread = [] ∧ ∃ ev : Event, ev.kind = .runStarted ∧
        (g.opened e options.observers w).Attended name thread held 1 [ev] := by
    intro config e opening names
    have own := thread_of_opening hm opening
    obtain ⟨-, none, -⟩ := (opening_eq_ok hm).mp opening
    cases h with
    | paused _ last | ended _ last =>
      rw [none] at last
      cases last
    | unbegun _ attended once =>
      have joined := attended.joined spares
      rw [joining names, once] at joined
      subst own
      have kept : ((w.joined e.thread options.observers).keep (g.snapshot e (w.joined e.thread options.observers))
        ).Attended name e.thread held 1 [] := joined.congr ⟨rfl, rfl⟩
      exact ⟨attended.heard, _, rfl, kept.emit rfl⟩
  rcases start_cases g thread input options hm with ⟨f, -, hs⟩ | ⟨config, e, f, opening, unordered, hs⟩ |
    ⟨config, e, f, opening, names, -, hs⟩ | ⟨run, q, enters, -⟩
  · exact .idle (x := .error f) h (by rw [serve, hs]; rfl) (fun _ => nofun)
  · have stage : Stage name thread held joins (w.attended thread options.observers) := by
      refine h.map (fun attended => ?_) rfl
      have followed := attended.attended spares
      rw [staying f unordered] at followed
      exact followed
    exact .idle (x := .error f) stage (by rw [serve, hs]; rfl) (fun _ => nofun)
  · obtain ⟨-, ev, -, attended⟩ := opened opening names
    have own := thread_of_opening hm opening
    have begun : e.status = .running := by
      obtain ⟨-, -, p, -, rfl, -⟩ := (opening_eq_ok hm).mp opening
      rfl
    subst own
    refine .idle (x := .error f) ?_ (by rw [serve, hs]; rfl) (fun _ => nofun)
    have last := records_opened (g := g) (e := e) hm options.observers
    refine Stage.congr (.ended (c := g.snapshot e (w.joined e.thread options.observers)) attended ?_ ?_) ⟨rfl, rfl⟩ rfl
    · show ((g.opened e options.observers w).records e.thread).getLast? = _
      rw [last, List.getLast?_concat]
    · show e.status ≠ .paused
      rw [begun]
      exact RunStatus.noConfusion
  · cases enters with
    | start opening names layer =>
      obtain ⟨heard, ev, kind, attended⟩ := opened opening names
      obtain ⟨-, -, p, -, rfl, -⟩ := (opening_eq_ok hm).mp opening
      have begun : [ev].map Event.kind = [.runStarted] := by rw [List.map_singleton, kind]
      refine Enters.served sound hm proper (.start opening names layer) ⟨?_, fun e he => absurd he List.not_mem_nil, ?_⟩ begun
      · show Attended name thread held 1 (w.heard name thread ++ [ev] ++ []) _
        rw [heard]
        exact attended
      · rw [List.append_nil]
        show Course (Event.completions (w.heard name thread ++ [ev])) _
        rw [heard, List.nil_append, completions_of_kind (by rw [kind]; exact EventKind.noConfusion)]
        exact .start rfl rfl

theorem Stage.resume {value : Value} {options : CallOptions}
    (proper : ∀ c ∈ w.records thread, c.Proper g.definition) (h : Stage name thread held joins w) :
    Served name held joins g w (.resume thread value options) := by
  have reopened : ∀ {r}, g.resumption thread options.overrides w.store = .ok r → ∃ ev : Event, ev.kind = .resumed ∧
      (reopened r thread w).Attended name thread held 1 (w.heard name thread ++ [ev]) ∧
      Course (Event.completions (w.heard name thread ++ [ev])) r.execution.position ∧
      ∃ c e, (w.records thread).getLast? = some c ∧ c.status = .paused ∧ Execution.ofCheckpoint c = .ok e ∧
        r.execution.position = e.position := by
    intro r hr
    obtain ⟨c, kept, stored, e, last, paused, -, taken, -, -, -, execution⟩ := resumption_eq_ok hm hr
    obtain ⟨attended, course⟩ := h.paused_of last paused taken
    have position : r.execution.position = e.position := by
      rw [execution]
      rfl
    have active : (w.activate thread).Attended name thread held 1 (w.heard name thread) :=
      attended.congr (w.told_activate thread)
    refine ⟨_, ?_, active.emit (thread_of_resumption hm hr), ?_, c, e, last, paused, taken, position⟩
    · rfl
    · rw [completions_append, completions_of_kind EventKind.noConfusion, List.append_nil, position]
      exact course
  rcases resume_cases g thread value options hm with ⟨f, -, hs⟩ | ⟨r, f, hr, -, hs⟩ | ⟨run, q, enters, -⟩
  · exact .idle (x := .error f) h (by rw [serve, hs]; rfl) (fun _ => nofun)
  · obtain ⟨ev, -, attended, course, c, e, last, paused, taken, position⟩ := reopened hr
    refine .idle (x := .error f) ?_ (by rw [serve, hs]; rfl) (fun _ => nofun)
    refine Stage.congr (.paused attended ?_ paused taken (position ▸ course)) ⟨rfl, rfl⟩ rfl
    rw [records_reopened]
    exact last
  · cases enters with
    | resume hr layer =>
      obtain ⟨ev, kind, attended, course, -⟩ := reopened hr
      have resumed : [ev].map Event.kind = [.resumed] := by rw [List.map_singleton, kind]
      refine Enters.served sound hm proper (.resume hr layer) ⟨?_, fun e he => absurd he List.not_mem_nil, ?_⟩ resumed
      · rw [List.append_nil]
        exact attended
      · rw [List.append_nil]
        exact course

omit sound in
theorem Stage.cancel (proper : ∀ c ∈ w.records thread, c.Proper g.definition) (h : Stage name thread held joins w) :
    Served name held joins g w (.cancel thread) := by
  rcases cancel_cases g thread hm with hs | hs | ⟨f, hs, -⟩ | ⟨c, e, last, paused, taken, own, hs⟩
  · exact .idle (h.congr (w.told_requestCancel thread) Surroundings.records_requestCancel) hs (fun _ => nofun)
  · exact .idle h hs (fun _ => nofun)
  · exact .idle h hs (fun _ => nofun)
  · obtain ⟨attended, course⟩ := h.paused_of last paused taken
    have tells : Tells name thread held (w.heard name thread ++ []) [] e.position w := by
      rw [List.append_nil]
      exact ⟨by rwa [List.append_nil], fun e he => absurd he List.not_mem_nil, by rwa [List.append_nil]⟩
    have hfail : g.fail e (.cancelled thread) w =
        g.fail (e.position.running thread e.metadata) (.cancelled thread) w := by
      obtain ⟨e', taken', -, -, -, running⟩ := (proper c (List.mem_of_getLast? last)).takenUp paused
      cases taken.symm.trans taken'
      rw [← own, ← running e.metadata]
      rfl
    have concluded : Concluded name thread held joins _
        (g.fail (e.position.running thread e.metadata) (.cancelled thread) w) :=
      tells.concluded_fail hm (if_neg FailureKind.noConfusion)
    rw [← hfail] at concluded
    refine ⟨?_, fun o ho => ?_⟩
    · rw [serve, hs]
      cases concluded with
      | intro _ _ _ _ _ stage => exact stage
    · rw [serve, hs] at ho ⊢
      refine concluded.streamed ?_ rfl
      cases concluded with
      | intro answer =>
        rw [answer] at ho ⊢
        cases ho
        rfl

end Calls

/-! ### All uses -/

/-- The store is in memory, and this is how the thread stands in it and for those who follow it. -/
structure Standing (name thread : String) (held : String → Prop) (joins : Nat) (g : Engine) (w : Surroundings) :
    Prop where
  memory : w.InMemory
  proper : ∀ c ∈ w.records thread, c.Proper g.definition
  stage : Stage name thread held joins w

/-- A request of the thread is served as the thread stands, unless it is to forget the thread. -/
theorem Standing.served (sound : g.definition.Sound) (h : Standing name request.thread held joins g w)
    (leaves : request.Leaves name request.thread held joins) : Served name held joins g w request := by
  obtain ⟨spares, kept, joining, staying⟩ := leaves
  cases request with
  | start t input o =>
    exact h.stage.start sound h.memory h.proper spares (joining input o rfl) fun f => staying input o f rfl
  | resume t value o => exact h.stage.resume sound h.memory h.proper
  | cancel t => exact h.stage.cancel h.memory h.proper
  | delete t => exact absurd rfl kept

theorem Standing.serve (sound : g.definition.Sound) (h : Standing name thread held joins g w)
    (leaves : request.Leaves name thread held joins) : Standing name thread held joins g (g.serve w request).1 := by
  obtain ⟨memory, others⟩ := serve_frame g h.memory request
  by_cases own : request.thread = thread
  · subst own
    exact ⟨memory, (serve_safe sound h.memory h.proper).1, (h.served sound leaves).stage⟩
  · have records := others thread own
    refine ⟨memory, records ▸ h.proper, h.stage.map (fun attended => ?_) records⟩
    exact (stable_serve (Surroundings.stable_attended own leaves.1) ⟨h.memory, attended⟩).2

theorem Standing.use (sound : g.definition.Sound) (h : Standing name thread held joins g w) {u : Use}
    (leaves : u.Leaves name thread held joins) : Standing name thread held joins g (g.use w u).1 := by
  cases u with
  | ask a =>
    cases a with
    | request r =>
      have served := h.serve sound leaves
      cases r <;> exact served
    | state | outcome | history => exact h
  | subscribe handle t o =>
    refine ⟨h.memory, h.proper, h.stage.map (fun attended => ?_) rfl⟩
    obtain ⟨keeps, registered⟩ := attended.keeps.subscribeAs leaves.1 leaves.2
    exact ⟨keeps, registered.trans attended.registered, attended.heard⟩

theorem Standing.useAll (sound : g.definition.Sound) (h : Standing name thread held joins g w) {uses : List Use}
    (leaves : ∀ u ∈ uses, u.Leaves name thread held joins) : Standing name thread held joins g (g.useAll w uses).1 := by
  induction uses generalizing w with
  | nil => exact h
  | cons u uses ih =>
    obtain ⟨first, rest⟩ := List.forall_mem_cons.mp leaves
    exact ih (h.use sound first) rest

end Engine

/-! ### Bystanders -/

/-- All but the observers of some names, whose handles are told from those of the others. -/
def View.but (some theirs : String → Bool) : View where
  sees _ := true
  shows _ name := !some name
  holds h := !theirs h
  unseen h := nomatch h

/-- What calls share is the same, and the store is in memory. -/
def Share.same : Share where
  stocks x y := x = y ∧ ∃ saved, x.store = .memory saved
  records := Eq

namespace Surroundings

variable {w v : Surroundings} {thread : String}

/-- What a view shows of surroundings, by itself. -/
def through (w : Surroundings) (l : View) : Surroundings :=
  { w with bus := w.bus.seen l, deliveries := w.deliveries.filter l.ofDelivery }

theorem stock_forget (same : w.stock = v.stock) (thread : String) :
    (w.forget thread).stock = (v.forget thread).stock := by
  have store : w.store = v.store := congrArg Stock.store same
  have drawn : w.drawn = v.drawn := congrArg Stock.drawn same
  have calls : w.calls = v.calls := congrArg Stock.calls same
  unfold forget
  rw [store]
  cases v.store.delete thread with
  | error f => exact same
  | ok x => simp only [stock, drawn, calls]

theorem stock_absorb (same : w.stock = v.stock) (thread : String) (effects : Action.Effects) :
    (w.absorb thread effects).stock = (v.absorb thread effects).stock := by
  have store : w.store = v.store := congrArg Stock.store same
  have drawn : w.drawn = v.drawn := congrArg Stock.drawn same
  have logged : stock { w with calls := effects.calls, trace := w.trace ++ effects.trace } =
      stock { v with calls := effects.calls, trace := v.trace ++ effects.trace } := by
    simp only [stock, store, drawn]
  unfold absorb
  dsimp only
  cases effects.forgotten <;> cases effects.cancelled
  · exact logged
  · exact (stock_requestCancel _ thread).trans (logged.trans (stock_requestCancel _ thread).symm)
  · exact stock_forget logged thread
  · exact (stock_requestCancel _ thread).trans ((stock_forget logged thread).trans (stock_requestCancel _ thread).symm)

end Surroundings

/-- The same save does the same. -/
theorem Surroundings.save_same {w v : Surroundings} {snapshot : (id timestamp : Value) → Checkpoint}
    (h : Share.same.stocks w.stock v.stock) :
    Paired (fun w v => Share.same.stocks w.stock v.stock) (fun c c' => c.state = c'.state)
      (w.save snapshot) (v.save snapshot) := by
  obtain ⟨same, memory⟩ := h
  have store : w.store = v.store := congrArg Stock.store same
  have drawn : w.drawn = v.drawn := congrArg Stock.drawn same
  have calls : w.calls = v.calls := congrArg Stock.calls same
  have memory : w.InMemory := memory
  rw [save_eq memory, save_eq (memory.congr store.symm)]
  refine ⟨⟨?_, memory.keep _⟩, .ok ?_⟩
  · simp only [stock, keep, drawUp, store, drawn, calls]
  · rw [drawUp, drawUp, drawn]

theorem Share.keeps_same (thread : String) : Share.same.Keeps thread where
  full := Surroundings.stable_of_never fun _ full => full trivial
  released _ := trivial
  records h := by
    obtain rfl := h
    rfl
  own {w v c} h last := by
    rw [Surroundings.load_eq h.2] at last
    exact Surroundings.thread_of_mem_records (List.mem_of_getLast? (Except.ok.inj last))
  load {w v} h := by
    have store : w.store = v.store := congrArg Stock.store h.1
    rw [store]
    refine Both.refl (fun last => ?_) _
    cases last with
    | none => exact .none
    | some => exact .some rfl
  list {w v} h := by
    have store : w.store = v.store := congrArg Stock.store h.1
    rw [store]
    refine Both.refl (fun cs => ?_) _
    show List.Forall₂ Eq cs cs
    rw [List.forall₂_eq_eq_eq]
  delete {w v} h := by
    obtain ⟨same, saved, hs⟩ := h
    have store : w.store = v.store := congrArg Stock.store same
    have hs : w.store = .memory saved := hs
    rw [same, ← store, hs]
    exact .ok ⟨⟨rfl, _, rfl⟩, rfl⟩
  draw _ h _ := Surroundings.save_same h
  redraw _ same h _ := by
    obtain rfl := same
    exact Surroundings.save_same h

theorem Share.runs_same (d : Definition) (ps : Providers) (thread : String) : Share.same.Runs d ps thread := by
  intro w v entry p h
  obtain ⟨same, memory⟩ := h
  have calls : w.calls = v.calls := congrArg Stock.calls same
  have absorbed := Surroundings.InMemory.absorb memory thread (d.turn ⟨ps, entry⟩ thread p w.calls).1
  dsimp only
  rw [← calls]
  exact ⟨rfl, rfl, rfl, Surroundings.stock_absorb same thread _, absorbed⟩

namespace Engine

open Surroundings (Shows)

variable {g : Engine} {l : View} {w v : Surroundings} {uses : List Use}

theorem eq_of_answers {a a' : Answer} (h : Answer.Alike Share.same.records a a') : a = a' := by
  cases h with
  | same => rfl
  | history h =>
    refine congrArg _ (h.imp fun related => ?_).eq
    rwa [show Share.same.records = Eq from rfl, List.forall₂_eq_eq_eq] at related

/-- In what is shown of it, an engine answers as it does in full. -/
theorem useAll_viewed (sees : ∀ t, l.sees t = true) (aside : ∀ u ∈ uses, u.Aside l) (hw : Shows l .same w v) :
    Shows l .same (g.useAll w uses).1 (g.useAll v (uses.filterMap l.use?)).1 ∧
      (g.useAll v (uses.filterMap l.use?)).2 = (g.useAll w uses).2 := by
  induction uses generalizing w v with
  | nil => exact ⟨hw, rfl⟩
  | cons u uses ih =>
    obtain ⟨first, rest⟩ := List.forall_mem_cons.mp aside
    obtain ⟨shows, answers⟩ := use_viewed (Share.keeps_same u.thread) (sees u.thread)
      (fun ps _ => Share.runs_same g.definition ps u.thread) first hw trivial
    obtain ⟨shows, later⟩ := ih rest shows
    have split : (u :: uses).filterMap l.use? = (l.use? u).toList ++ uses.filterMap l.use? := by
      rw [List.filterMap_cons]
      cases l.use? u <;> rfl
    have same : (g.useAll v (l.use? u).toList).2 = (g.use w u).2.toList.map fun a => (u.thread, a) := by
      refine (List.forall₂_eq_eq_eq.le _ _ (answers.imp fun x y related => ?_)).symm
      exact Prod.ext related.1 (eq_of_answers related.2)
    rw [split, useAll_append]
    refine ⟨shows, ?_⟩
    show _ ++ _ = _ ++ _
    rw [same, later]

theorem heard_of_shows {name thread : String} (h : Shows l .same w v) (shown : l.shows thread name = true) :
    v.heard name thread = w.heard name thread := by
  rw [Surroundings.heard, Surroundings.heard, h.seen.deliveries, List.filter_filter]
  refine congrArg _ (List.filter_congr fun d _ => ?_)
  by_cases named : d.observer = name <;> by_cases own : d.event.thread = thread <;>
    simp [View.ofDelivery, named, own, shown]

end Engine

end Workflow
