import Workflow.Proofs.Life
import Workflow.Proofs.Noted

/-! # What checkpoints show of runs

A checkpoint that is not of a failure shows a position that a run has come to, as the store keeps it
(`Checkpoint.Depicts`). Positions of a kind that steps only lead to others of it are all that is shown of a thread, over
any use of the store by engines of any graphs (`Engine.depicts_use`). -/

namespace Workflow

/-! ### What checkpoints show -/

/-- What a store tells of a position: the same, with the normal form of its state if the store outlives the process. -/
structure Position.KeptAs (durable : Bool) (p q : Position) : Prop where
  node : q.node = p.node
  step : q.step = p.step
  history : q.history = p.history
  state : if durable then Json.normal (.ofFields p.state) = .ok (.ofFields q.state) else q.state = p.state

/-- The checkpoint shows a run that stands at the position and has not failed. If it waits, but not since its last
    node, it waits at the next one. -/
structure Checkpoint.Depicts (c : Checkpoint) (p : Position) : Prop extends c.Shows p where
  error : c.error = .null
  pending : ∀ {i}, c.interrupt = some i → i.kind ≠ .after → i.node = .str p.node

def Checkpoint.DepictsOne (J : Position → Prop) (c : Checkpoint) : Prop := ∃ p, J p ∧ c.Depicts p

/-- Positions of a kind are kept as others of it, and steps of the graph only lead to others of it. -/
structure Definition.Closed (d : Definition) (thread : String) (durable : Bool) (J : Position → Prop) : Prop where
  turn : ∀ {p q i calls}, J p → (d.turn i thread p calls).2 = .reached q → J q
  kept : ∀ {p q : Position}, J p → p.KeptAs durable q → J q

section Depicting

variable {c d : Checkpoint} {p : Position} {durable : Bool} {e : Execution} {thread graph : String}
  {metadata id time : Value}

theorem depicts_checkpoint (h : e.NotedAt p thread metadata) : (e.checkpoint graph id time).Depicts p := by
  cases h with
  | running => exact ⟨⟨rfl, rfl, rfl, rfl⟩, rfl, fun hi => nomatch hi⟩
  | paused here prompt =>
    refine ⟨⟨rfl, rfl, rfl, rfl⟩, rfl, fun hi other => ?_⟩
    cases hi
    exact congrArg Value.str (here other)
  | completed => exact ⟨⟨rfl, rfl, rfl, rfl⟩, rfl, fun hi => nomatch hi⟩

theorem ofFields_of_normal {fs : Fields} {v : Value} (h : Json.normal (.ofFields fs) = .ok v) :
    ∃ fs', v = .ofFields fs' := by
  have exact := Value.exact_of_normal h
  obtain ⟨es, -, written⟩ := bind_eq_ok.mp h
  cases written
  cases exact with
  | mapping keys =>
    refine ⟨Value.fields (.mapping es), ?_⟩
    rw [Value.fields, Value.ofFields, List.map_map]
    refine congrArg Value.mapping (((List.map_congr_left fun e he => ?_).trans (List.map_id es)).symm)
    obtain ⟨k, u⟩ := e
    obtain ⟨s, rfl : k = .str s⟩ := keys _ he
    rfl

theorem Checkpoint.Depicts.keptAs (h : c.Depicts p) (kept : c.KeptAs durable d) :
    ∃ q, p.KeptAs durable q ∧ d.Depicts q := by
  have mirrors := kept.mirrors
  -- All but the state is kept as it is.
  have parts : ∀ {state}, d.state = .ofFields state → d.Depicts { p with state } := fun {state} same => by
    refine ⟨⟨mirrors.node h.node, same, mirrors.step.trans h.step, mirrors.history h.history⟩, mirrors.error h.error,
      fun {i} hi other => ?_⟩
    obtain ⟨j, hj, kind, node⟩ := mirrors.pending hi
    exact node (h.pending hj (kind ▸ other))
  cases durable with
  | false =>
    obtain rfl : d = c := kept
    exact ⟨p, ⟨rfl, rfl, rfl, rfl⟩, h⟩
  | true =>
    have state := (Checkpoint.normal_eq_ok kept).2.2.1
    rw [h.state] at state
    obtain ⟨fs, same⟩ := ofFields_of_normal state
    exact ⟨{ p with state := fs }, ⟨rfl, rfl, rfl, same ▸ state⟩, parts same⟩

end Depicting

namespace Engine

variable {g : Engine} {w : Surroundings} {thread : String} {durable : Bool} {J : Position → Prop} {p : Position}
  {request : Request} {use : Use} {overrides : Overrides} {s : Store}

theorem notes_of_closed (h : g.definition.Closed thread durable J) :
    g.Notes thread durable J (Checkpoint.DepictsOne J) where
  closed hp reached := h.turn hp reached
  noted hp noted kept := by
    obtain ⟨q, same, depicts⟩ := (depicts_checkpoint noted).keptAs kept
    exact ⟨q, h.kept hp same, depicts⟩

/-- A resumption goes on with the run at the position that the checkpoint shows. -/
theorem execution_of_resumption {r : Resumption} {c : Checkpoint} (last : s.load thread = .ok (some c))
    (own : c.thread = .str thread) (depicts : c.Depicts p) (h : g.resumption thread overrides s = .ok r) :
    g.lastCheckpoint thread s = .ok c ∧ c.status = .paused ∧ c.interrupt = some r.interrupt ∧
      r.execution = p.running thread r.config.metadata := by
  obtain ⟨b, _, _, e, told, paused, interrupt, taken, -, -, -, execution⟩ := taken_of_resumption h
  have load := (lastCheckpoint_eq_ok_iff.mp told).1
  rw [last] at load
  cases load
  refine ⟨told, paused, interrupt, ?_⟩
  have own : e.thread = thread := by rw [thread_ofCheckpoint taken, own]; rfl
  have unfailed : e.error = none := by
    obtain ⟨f, failure, taken⟩ := bind_eq_ok.mp taken
    rw [Checkpoint.failure?, depicts.error] at failure
    cases taken
    exact (Except.ok.inj failure).symm
  have stands : e.position = p := depicts.toShows.position_eq taken
  rw [execution, ← stands]
  obtain ⟨_, _, _, _, _, _, _, _, _⟩ := e
  cases own
  cases unfailed
  rfl

/-- A resumption goes on from where the last checkpoint shows the run to wait. -/
theorem resumption_of_depicts {r : Resumption} (hs : s.Tracks thread durable (Checkpoint.DepictsOne J))
    (h : g.resumption thread overrides s = .ok r) :
    ∃ c p, g.lastCheckpoint thread s = .ok c ∧ c.status = .paused ∧ c.interrupt = some r.interrupt ∧ J p ∧
      c.Depicts p ∧ r.execution = p.running thread r.config.metadata := by
  obtain ⟨c, _, _, _, told, paused, -⟩ := taken_of_resumption h
  have last := (lastCheckpoint_eq_ok_iff.mp told).1
  have reads := Store.reads_of_load last
  obtain ⟨p, hp, depicts⟩ := hs.shown reads (by rw [paused]; exact RunStatus.noConfusion)
  obtain ⟨-, -, interrupt, execution⟩ := execution_of_resumption last (hs.own reads) depicts h
  exact ⟨c, p, told, paused, interrupt, hp, depicts, execution⟩

/-! ### Runs that are launched -/

section Launching

variable {run : Engine} {e : Execution} {entry : Entry} {v : Surroundings} {R : Checkpoint → Prop}
  (h : g.Launches w request run e entry v)
include h

/-- A run that is launched stands at a position of the kind, where it is begun or where it waited. -/
theorem Launches.stands (hw : w.store.Tracks request.thread durable (Checkpoint.DepictsOne J))
    (begins : ∀ input options x, request = .start request.thread input options →
      g.opening request.thread input options.overrides w.store = .ok x →
      ∀ p, g.definition.origin? input = some p → J p) :
    ∃ p, J p ∧ e = p.running request.thread run.config.metadata := by
  cases h with
  | @start thread input options config e providers v c opening =>
    obtain ⟨-, p, origin, -, rfl⟩ := origin_of_opening opening
    exact ⟨p, begins input options _ rfl opening p origin, rfl⟩
  | resume resumption =>
    obtain ⟨_, p, -, -, -, hp, -, execution⟩ := resumption_of_depicts hw resumption
    exact ⟨p, hp, execution⟩

/-- What can be read of the thread when the run has been launched, and when the call is over. -/
theorem Launches.tracks {p : Position} (notes : run.Notes request.thread durable J R) (hp : J p)
    (stands : e = p.running request.thread run.config.metadata) (hw : w.store.Tracks request.thread durable R) :
    v.store.Tracks request.thread durable R ∧ (g.serve w request).1.store.Tracks request.thread durable R := by
  have launched : v.store.Tracks request.thread durable R := by
    cases h with
    | @start thread input options config _ providers u c _ _ save =>
      have joined : (w.joined thread options.observers).store.Tracks thread durable R :=
        (w.store_joined thread options.observers).symm ▸ hw
      have saved := notes.save hp .running joined
      rw [← stands] at saved
      change (g.save e (w.joined thread options.observers)).1.store.Tracks thread durable R at saved
      rw [save] at saved
      exact (Surroundings.store_emit _ _).symm ▸ saved
    | resume =>
      rw [Engine.reopened, Surroundings.store_emit, Surroundings.store_activate]
      exact hw
  refine ⟨launched, ?_⟩
  rw [h.serve_eq, stands]
  exact notes.run hp launched entry

end Launching

/-! ### Calls for a thread -/

section Calls
variable (h : g.definition.Closed request.thread durable J)
  (hw : w.store.Tracks request.thread durable (Checkpoint.DepictsOne J))
  (begins : ∀ input options x, request = .start request.thread input options →
    g.opening request.thread input options.overrides w.store = .ok x → ∀ p, g.definition.origin? input = some p → J p)
include h hw begins

/-- A start that is begun is written down at a position of the kind. -/
theorem tracks_begun {input : Value} {options : CallOptions} {config : Config} {e : Execution}
    (starts : request = .start request.thread input options)
    (opening : g.opening request.thread input options.overrides w.store = .ok (config, e)) {v : Surroundings}
    {r : Except Fault Checkpoint} (save : g.save e (w.joined request.thread options.observers) = (v, r)) :
    v.store.Tracks request.thread durable (Checkpoint.DepictsOne J) := by
  obtain ⟨-, p, origin, -, rfl⟩ := origin_of_opening opening
  have hp : J p := begins input options _ starts opening p origin
  have joined : (w.joined request.thread options.observers).store.Tracks request.thread durable
      (Checkpoint.DepictsOne J) := (w.store_joined request.thread options.observers).symm ▸ hw
  have saved := Notes.save (g := { g with config }) (notes_of_closed h) hp .running joined
  change (g.save (p.running request.thread config.metadata) (w.joined request.thread options.observers)).1.store.Tracks
    request.thread durable (Checkpoint.DepictsOne J) at saved
  rw [save] at saved
  exact saved

theorem tracks_unlaunched {v : Surroundings} (ends : g.Unlaunched w request v) :
    v.store.Tracks request.thread durable (Checkpoint.DepictsOne J) := by
  cases ends with
  | unopened | unordered | unresumed => exact hw
  | unwritten opening save =>
    have begun := tracks_begun h hw begins rfl opening save
    exact begun
  | unprovided ev opening save =>
    exact (Surroundings.store_emit _ _).symm ▸ tracks_begun h hw begins rfl opening save
  | unserved =>
    exact ((Surroundings.store_emit _ _).trans (Surroundings.store_activate w _)).symm ▸ hw

/-- A call for the thread, if a start that is not refused begins at a position of the kind. -/
theorem depicts_serve :
    (g.serve w request).1.store.Tracks request.thread durable (Checkpoint.DepictsOne J) := by
  have runs (runs : request ≠ .cancel request.thread ∧ request ≠ .delete request.thread) :
      (g.serve w request).1.store.Tracks request.thread durable (Checkpoint.DepictsOne J) := by
    rcases launches_or_unlaunched (g := g) (w := w) runs with ⟨run, e, entry, v, launch⟩ | ⟨v, f, ends, served⟩
    · obtain ⟨p, hp, stands⟩ := launch.stands hw begins
      exact (launch.tracks (notes_of_closed (launch.definition_eq ▸ h)) hp stands hw).2
    · rw [served]
      exact tracks_unlaunched h hw begins ends
  cases request with
  | start | resume => exact runs ⟨Request.noConfusion, Request.noConfusion⟩
  | cancel thread =>
    rcases g.cancel_leaves_or_ends thread w with ⟨same, -⟩ | ⟨c, e, last, -, taken, cancelled⟩
    · rw [serve, same]
      exact hw
    · have own : e.thread = thread := by
        rw [thread_ofCheckpoint taken, hw.own (Store.reads_of_load (lastCheckpoint_eq_ok_iff.mp last).1)]
        rfl
      rw [serve, cancelled]
      exact tracks_fail own hw
  | delete thread =>
    simp only [serve, delete]
    split
    · exact hw
    · rename_i deleted
      exact hw.delete deleted

end Calls

/-- Whatever is done with an engine, what can be read of the thread and is not of a failure shows a position of the
    kind, if starts of the thread that are not refused begin at such positions. -/
theorem depicts_use (hw : w.store.Tracks thread durable (Checkpoint.DepictsOne J))
    (own : use.thread = thread → g.definition.Closed thread durable J)
    (begins : ∀ input options x, use = .ask (.request (.start thread input options)) →
      g.opening thread input options.overrides w.store = .ok x → ∀ p, g.definition.origin? input = some p → J p) :
    (g.use w use).1.store.Tracks thread durable (Checkpoint.DepictsOne J) := by
  by_cases same : use.thread = thread
  · cases use with
    | ask a =>
      cases a with
      | request r =>
        have served : (g.serve w r).1.store.Tracks thread durable (Checkpoint.DepictsOne J) := by
          obtain rfl : r.thread = thread := same
          exact depicts_serve (own rfl) hw fun input options x hr => begins input options x (by rw [← hr])
        cases r <;> exact served
      | state | outcome | history => exact hw
    | subscribe => exact hw
  · exact stable_use (Surroundings.stable_tracks _ same) Store.Tracks.toOwned hw

end Engine

/-! ### Stores in use -/

namespace Store

variable {s : Store} {thread : String} {durable : Bool} {R : Checkpoint → Prop}

theorem tracks_of_isUnused (h : s.IsUnused) (thread : String) (R : Checkpoint → Prop) :
    s.Tracks thread s.isDurable R where
  toOwned := owned_of_isUnused h
  durable := rfl
  shown hc := by
    rcases h with h | ⟨saves, hint, rfl⟩
    · exact absurd hc (not_reads_of_isNew h)
    · exact absurd hc.1 List.not_mem_nil

theorem Tracks.sweep {t : Table} (h : (table t).Tracks thread durable R) (now hours : Float) (perThread : Int) :
    (table (t.sweep now hours perThread).1).Tracks thread durable R where
  own hc := h.own (reads_sweep hc)
  housed := trivial
  durable := h.durable
  shown hc := h.shown (reads_sweep hc)

end Store

/-! ### Counting -/

/-- A position counts the nodes that led to it. -/
def Position.Counts (p : Position) : Prop := p.step = p.history.length

theorem Definition.begins_of_origin {d : Definition} {input : Value} {p : Position} (h : d.origin? input = some p) :
    p.step = 0 ∧ p.history = [] := by
  obtain ⟨node, -, h⟩ := Option.bind_eq_some_iff.mp h
  obtain ⟨state, -, h⟩ := Option.bind_eq_some_iff.mp h
  cases h
  exact ⟨rfl, rfl⟩

theorem Definition.counts_of_origin {d : Definition} {input : Value} {p : Position} (h : d.origin? input = some p) :
    p.Counts := by
  rw [Position.Counts, (begins_of_origin h).1, (begins_of_origin h).2]
  rfl

theorem Definition.closed_counts (d : Definition) (thread : String) (durable : Bool) :
    d.Closed thread durable Position.Counts where
  turn hp reached := by
    obtain ⟨step, history⟩ := step_of_turn_reached reached
    rw [Position.Counts, step, history, hp, List.length_append]
    rfl
  kept hp same := by rw [Position.Counts, same.step, same.history, hp]

/-- Whatever was done with a store, what can be read of a thread and is not of a failure shows a position. -/
theorem Store.Reached.depicts {s : Store} (h : s.Reached) (thread : String) :
    s.Tracks thread s.isDurable (Checkpoint.DepictsOne Position.Counts) := by
  induction h with
  | unused h => exact tracks_of_isUnused h thread _
  | evolved _ step ih =>
    obtain ⟨g, w, use, -, rfl, rfl⟩ := step
    have kept : (g.use w use).1.store.Tracks thread w.store.isDurable (Checkpoint.DepictsOne Position.Counts) :=
      Engine.depicts_use ih (fun _ => g.definition.closed_counts thread _)
        fun _ _ _ _ _ _ => Definition.counts_of_origin
    exact kept.durable.symm ▸ kept
  | swept _ now hours perThread ih => exact ih.sweep now hours perThread

end Workflow
