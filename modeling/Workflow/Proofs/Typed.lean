import Mathlib.Data.List.Forall2
import Workflow.Proofs.Lifecycle
import Workflow.Proofs.Safety

/-! # Typed states

A state is typed if it has a value for every field of its schema, in the order of the fields, and every
value is one that its field may hold. Defaults are typed, and merging an update keeps a state typed,
whatever the update and the reducers are. So all states of all runs are typed: what nodes and conditions
are given, what is written down, and what is answered (`typed_of_reachable`). -/

namespace Workflow

/-! ### Values that a field may hold -/

/-- The field admits the value, or it is the `null` that the standard reducer clears fields with. -/
def Field.Holds (f : Field) (v : Value) : Prop :=
  f.admits v = true ∨ f.reducer = .overrideIfDefined ∧ v = .null

theorem Reducer.clears_iff {r : Reducer} : r.clears = true ↔ r = .overrideIfDefined := by
  cases r <;> simp [clears]

theorem Value.isNull_iff {v : Value} : v.isNull = true ↔ v = .null := by
  cases v <;> simp [isNull]

/-- Whatever the reducer makes of two values, only what the field may hold is taken. -/
theorem Field.holds_of_merge {f : Field} {current incoming v : Value} (h : f.merge current incoming = .ok v) :
    f.Holds v := by
  obtain ⟨merged, -, h⟩ := bind_eq_ok.mp h
  split at h
  · rename_i hv
    cases h
    simp only [Bool.or_eq_true, Bool.and_eq_true, Value.isNull_iff, Reducer.clears_iff] at hv
    exact hv.elim (fun hc => .inr hc.symm) .inl
  · cases h

/-- The field was not refused when it was built. -/
def Field.Built (f : Field) : Prop :=
  ∃ name type reducer default nullable, build name type reducer default nullable = .ok f

theorem Field.Built.holds_default {f : Field} (h : f.Built) : f.Holds f.default := by
  obtain ⟨_, _, _, _, _, h⟩ := h
  exact .inl (admits_default_of_check h)

/-- A field that declares a default which it admits is not refused. -/
theorem Field.built_of_admits {f : Field} (declared : f.default ≠ .undefined) (h : f.admits f.default = true) :
    f.Built := by
  obtain ⟨name, type, reducer, default, nullable⟩ := f
  refine ⟨name, type, reducer, default, nullable, ?_⟩
  have same : withDefault name type reducer default nullable = ⟨name, type, reducer, default, nullable⟩ := by
    cases default <;> first | rfl | exact absurd rfl declared
  rw [build, same, check, if_pos h]

namespace Schema

variable {s t : Schema} {state state' : State} {name : String} {f : Field}

/-! ### Schemas that are made of such fields -/

/-- The schema was made of fields none of which was refused. -/
def Made (s : Schema) : Prop := ∃ fields : List Field, (∀ f ∈ fields, f.Built) ∧ ofFields s.name fields = .ok s

theorem addFields_eq_ok {fields : List Field} (h : s.addFields fields = .ok t) :
    t.name = s.name ∧ t.fields = s.fields ++ fields := by
  induction fields generalizing s with
  | nil =>
    cases h
    simp
  | cons f fields ih =>
    rw [addFields] at h
    split at h
    · cases h
    · simpa using ih h

theorem Made.built (h : s.Made) : ∀ f ∈ s.fields, f.Built := by
  obtain ⟨fields, built, h⟩ := h
  obtain ⟨-, hs⟩ := addFields_eq_ok h
  simpa [hs] using built

theorem made_ofFields {fields : List Field} (built : ∀ f ∈ fields, f.Built) (h : ofFields name fields = .ok s) :
    s.Made := by
  obtain ⟨hname, -⟩ := addFields_eq_ok h
  exact ⟨fields, built, by rw [hname]; exact h⟩

theorem built_of_mapM {α : Type} {read : α → Except Fault Field} (hr : ∀ x f, read x = .ok f → f.Built)
    {xs : List α} {fields : List Field} (h : xs.mapM read = .ok fields) : ∀ f ∈ fields, f.Built := by
  induction xs generalizing fields with
  | nil =>
    cases h
    simp
  | cons x xs ih =>
    simp only [List.mapM_cons, bind_eq_ok] at h
    obtain ⟨f, hf, rest, hrest, h⟩ := h
    cases h
    simp only [List.mem_cons, forall_eq_or_imp]
    exact ⟨hr x f hf, ih hrest⟩

theorem made_ofSpecs {specs : List FieldSpec} (h : ofSpecs name specs = .ok s) : s.Made := by
  obtain ⟨fields, hf, h⟩ := bind_eq_ok.mp h
  refine made_ofFields (built_of_mapM (fun spec f h => ?_) hf) h
  simp only [Field.ofSpec, bind_eq_ok] at h
  obtain ⟨type, -, reducer, -, h⟩ := h
  exact ⟨_, _, _, _, _, h⟩

theorem made_ofAnnotations {choose : Value → Reducer.Choice} {annotations : Fields} {registry : Reducer.Registry}
    (h : ofAnnotations choose name annotations registry = .ok s) : s.Made := by
  obtain ⟨fields, hf, h⟩ := bind_eq_ok.mp h
  refine made_ofFields (built_of_mapM (fun e f h => ?_) hf) h
  unfold fieldOfAnnotation at h
  simp only [bind_eq_ok] at h
  obtain ⟨a, -, reducer, -, type, -, h⟩ := h
  exact ⟨_, _, _, _, _, h⟩

/-! ### Typed states -/

/-- The state has a value for every field, in the order of the fields, and every field may hold its value. -/
def Typed (s : Schema) (state : State) : Prop :=
  List.Forall₂ (fun (f : Field) e => e.1 = f.name ∧ f.Holds e.2) s.fields state

theorem typed_defaults (h : s.Made) : s.Typed s.defaults := by
  unfold Typed defaults
  rw [List.forall₂_map_right_iff, List.forall₂_same]
  exact fun f hf => ⟨rfl, (h.built f hf).holds_default⟩

/-- The first field of a name and the first value under it stand at one place. -/
theorem typed_set {fields : List Field} {v : Value}
    (h : List.Forall₂ (fun (f : Field) e => e.1 = f.name ∧ f.Holds e.2) fields state)
    (hf : fields.find? (fun f => f.name == name) = some f) (hv : f.Holds v) :
    List.Forall₂ (fun (f : Field) e => e.1 = f.name ∧ f.Holds e.2) fields (state.set name v) := by
  induction h with
  | nil => cases hf
  | @cons f' e fields state he hrest ih =>
    by_cases hn : f'.name = name
    · simp only [List.find?_cons, hn, beq_self_eq_true, Option.some.injEq] at hf
      subst hf
      rw [Fields.set, if_pos (he.1.trans hn)]
      exact .cons ⟨he.1, hv⟩ hrest
    · rw [Fields.set, if_neg fun hne => hn (he.1.symm.trans hne)]
      rw [List.find?_cons_of_neg (by simpa using hn)] at hf
      exact .cons he (ih hf)

theorem holds_of_merge {current incoming v : Value} (h : s.merge name current incoming = .ok v) :
    ∃ f, s.field? name = some f ∧ f.Holds v := by
  unfold merge at h
  split at h
  · rename_i f hf
    exact ⟨f, hf, Field.holds_of_merge h⟩
  · cases h

theorem Typed.mergeAll {update : Fields} (h : s.Typed state) (hu : s.mergeAll state update = .ok state') :
    s.Typed state' := by
  induction update generalizing state with
  | nil =>
    cases hu
    exact h
  | cons e update ih =>
    obtain ⟨v, hv, hu⟩ := bind_eq_ok.mp hu
    obtain ⟨f, hf, holds⟩ := holds_of_merge hv
    exact ih (typed_set h hf holds) hu

/-- An update that is taken leaves a typed state, whatever it says. -/
theorem Typed.applyValue {update : Value} (h : s.Typed state) (hu : s.applyValue state update = .ok state') :
    s.Typed state' := by
  unfold Schema.applyValue at hu
  split at hu
  · cases hu
    exact h
  · simp only [bind_eq_ok] at hu
    obtain ⟨keys, -, _, -, hu⟩ := hu
    split at hu
    · exact h.mergeAll hu
    · cases hu
    · cases hu

theorem typed_initialState {input : Value} (h : s.Made) (hs : s.initialState input = .ok state) : s.Typed state :=
  (typed_defaults h).applyValue hs

/-- The value is a typed state, as checkpoints and outcomes hold it. -/
def Fits (s : Schema) (v : Value) : Prop := ∃ state : State, v = .ofFields state ∧ s.Typed state

theorem Fits.typed_fields {v : Value} (h : s.Fits v) : s.Typed v.fields := by
  obtain ⟨state, rfl, typed⟩ := h
  rwa [Value.fields_ofFields]

end Schema

/-! ### Steps -/

/-- The position that a stride comes to, on whose way the run is afterwards or has failed. -/
def Stride.position? : Stride → Option Position
  | .reached p | .failed p _ => some p
  | .suspended _ | .lost _ => none

namespace Definition

variable {d : Definition} {p q : Position}

/-- A step comes to the state that it started from, or to what the update of its node makes of it. -/
theorem state_of_stride {answer : Except Failure StepOutcome} (h : (d.stride p answer).position? = some q) :
    q.state = p.state ∨ ∃ values, d.schema.applyValue p.state values = .ok q.state := by
  unfold stride at h
  rcases answer with f | values | prompt <;> dsimp only at h
  · cases h
    exact .inl rfl
  · rcases hs : d.schema.applyValue p.state values with f | state <;> rw [hs] at h
    · cases h
      exact .inl rfl
    -- Whichever way the edge leads, the position has the merged state.
    · right
      refine ⟨values, hs.trans ?_⟩
      dsimp only at h
      split at h
      · cases h
      · split at h <;> cases h <;> rfl
  · cases h

theorem typed_of_turn {i : Invocation} {thread : String} {calls : CallLog} (h : d.schema.Typed p.state)
    (hq : (d.turn i thread p calls).2.position? = some q) : d.schema.Typed q.state := by
  unfold turn at hq
  split at hq
  · cases hq
  · rcases state_of_stride hq with same | ⟨values, hs⟩
    · rwa [same]
    · exact h.applyValue hs

theorem typed_of_origin {input : Value} (made : d.schema.Made) (h : d.origin? input = some p) :
    d.schema.Typed p.state := by
  simp only [origin?, Option.bind_eq_bind, Option.bind_eq_some_iff, Option.pure_def, Option.some.injEq] at h
  obtain ⟨node, -, state, hs, rfl⟩ := h
  cases hi : d.schema.initialState input with
  | error f =>
    rw [hi] at hs
    cases hs
  | ok state' =>
    rw [hi] at hs
    cases hs
    exact Schema.typed_initialState made hi

end Definition

/-! ### What is written down -/

namespace Surroundings

/-- The store is in memory, and its records are of typed states. -/
structure Typed (w : Surroundings) (s : Schema) : Prop where
  memory : w.InMemory
  fits : ∀ thread, ∀ c ∈ w.records thread, s.Fits c.state

variable {w v : Surroundings} {s : Schema} {thread : String} {c : Checkpoint}

theorem Typed.congr (h : w.Typed s) (hv : v.store = w.store) : v.Typed s :=
  ⟨h.memory.congr hv, fun thread c hc => h.fits thread c (records_congr hv thread ▸ hc)⟩

theorem Typed.emit (h : w.Typed s) (e : Event) : (w.emit e).Typed s := h.congr (store_emit w e)

theorem Typed.emitLast (h : w.Typed s) (e : Event) : (w.emitLast e).Typed s := h.congr (store_emitLast w e)

theorem Typed.keep (h : w.Typed s) (hc : s.Fits c.state) : (w.keep c).Typed s := by
  refine ⟨h.memory.keep c, fun thread b hb => ?_⟩
  rw [records_keep h.memory, List.mem_append] at hb
  rcases hb with hb | hb
  · exact h.fits thread b hb
  · split at hb <;> simp_all

theorem Typed.absorb (h : w.Typed s) (thread : String) (effects : Action.Effects) :
    (w.absorb thread effects).Typed s := by
  refine ⟨h.memory.absorb thread effects, fun other c hc => h.fits other c ?_⟩
  by_cases own : thread = other
  · subst own
    exact mem_records_absorb h.memory hc
  · rwa [records_absorb_of_ne h.memory own] at hc

end Surroundings

/-- What a call leaves is typed: the records, and the state of the outcome that it is answered with. -/
structure Ended.Typed (x : Ended) (s : Schema) : Prop where
  around : x.1.Typed s
  answer : ∀ o, x.2 = .ok o → s.Fits o.state

/-- A run in a typed state, with typed records around it. -/
structure Pass.Typed (q : Pass) (s : Schema) : Prop where
  around : q.around.Typed s
  state : s.Typed q.execution.state

namespace Engine

variable {g run : Engine} {w : Surroundings} {e : Execution} {q r a : Pass} {x : Ended} {thread : String}
  {request : Request}

section Endings
variable (hw : w.Typed g.definition.schema) (he : g.definition.schema.Typed e.state)
include hw he

theorem typed_pause (node : String) (kind : InterruptKind) (prompt : Value) :
    (g.pause e node kind prompt w).Typed g.definition.schema := by
  have fits : g.definition.schema.Fits (.ofFields e.state) := ⟨_, rfl, he⟩
  rw [pause_eq hw.memory]
  refine ⟨(hw.keep fits).emit _, fun o ho => ?_⟩
  cases ho
  exact fits

theorem typed_complete : (g.complete e w).Typed g.definition.schema := by
  have fits : g.definition.schema.Fits (.ofFields e.state) := ⟨_, rfl, he⟩
  rw [complete_eq hw.memory]
  refine ⟨(hw.keep fits).emitLast _, fun o ho => ?_⟩
  cases ho
  exact fits

/-- A failure is written over the last record, or over the run if none is left; both are typed. -/
theorem typed_fail (f : Failure) : (g.fail e f w).Typed g.definition.schema := by
  have fits : g.definition.schema.Fits (g.verdict e f w).state := by
    unfold verdict
    split
    · rename_i last hlast
      exact hw.fits e.thread last (List.mem_of_getLast? hlast)
    · exact ⟨_, rfl, he⟩
  rw [fail_eq hw.memory]
  refine ⟨(hw.keep fits).emitLast _, fun o ho => ?_⟩
  cases ho
  exact fits

end Endings

/-! ### Passes -/

section Passes
variable (h : q.Typed g.definition.schema)
include h

theorem typed_after : (g.after q).Typed g.definition.schema := h.around.absorb _ _

theorem typed_told (p : Position) : (g.told q p).Typed g.definition.schema := (typed_after h).emit _

theorem typed_position {p : Position} (hp : (g.turnAt q).2.position? = some p) : g.definition.schema.Typed p.state :=
  Definition.typed_of_turn (p := q.execution.position) h.state hp

theorem typed_goes (hgoes : g.Goes q r) : r.Typed g.definition.schema := by
  obtain ⟨p, -, reached, -, rfl⟩ := hgoes.next h.around.memory
  have state : g.definition.schema.Typed p.state := typed_position h (by rw [reached]; rfl)
  refine ⟨?_, state⟩
  show (g.noted q p).Typed _
  unfold noted
  split
  · exact typed_told h p
  · exact (typed_told h p).keep ⟨_, rfl, state⟩

theorem typed_ends (hends : g.Ends q x) : x.Typed g.definition.schema := by
  have reached {p : Position} (hp : (g.turnAt q).2 = .reached p) : g.definition.schema.Typed p.state :=
    typed_position h (by rw [hp]; rfl)
  cases hends with
  | cancelled | exhausted => exact typed_fail h.around h.state _
  | completed => exact typed_complete h.around h.state
  | held => exact typed_pause h.around h.state _ _ _
  | suspended => exact typed_pause (typed_after h) h.state _ _ _
  | withdrawn => exact typed_fail (typed_after h) h.state _
  | @failed p f _ hp =>
    have state : g.definition.schema.Typed p.state := typed_position h (by rw [hp]; rfl)
    exact typed_fail (e := q.execution.arrived p) (typed_after h) state f
  | lost => exact ⟨typed_after h, fun o ho => by cases ho⟩
  | @paused p _ hp => exact typed_pause (e := q.execution.arrived p) (typed_told h p) (reached hp) _ _ _
  | @revoked p _ hp => exact typed_fail (e := q.execution.arrived p) (typed_told h p) (reached hp) _
  | unsaved _ _ _ _ save =>
    rw [save_snapshot (typed_told h _).memory] at save
    cases save

theorem typed_passes (hgoes : Relation.ReflTransGen g.Goes q r) : r.Typed g.definition.schema := by
  induction hgoes with
  | refl => exact h
  | tail _ hstep ih => exact typed_goes ih hstep

theorem typed_run : (g.run q).Typed g.definition.schema := by
  obtain ⟨r, hgoes, hends⟩ := g.run_passes q
  exact typed_ends (typed_passes h hgoes) hends

end Passes

/-! ### Requests -/

section Requests
variable (made : g.definition.schema.Made) (h : w.Typed g.definition.schema)
include made h

theorem typed_opened {input : Value} {overrides : Overrides} {config : Config}
    (opening : g.opening thread input overrides w.store = .ok (config, e)) (observers : List Observer) :
    g.definition.schema.Typed e.state ∧ (g.opened e observers w).Typed g.definition.schema := by
  obtain ⟨-, -, p, origin, rfl, -⟩ := (opening_eq_ok h.memory).mp opening
  have state : g.definition.schema.Typed p.state := Definition.typed_of_origin made origin
  have joined : (w.joined thread observers).Typed g.definition.schema := h.congr (w.store_joined thread observers)
  exact ⟨state, (joined.keep ⟨_, rfl, state⟩).emit _⟩

/-- A run that a request enters is in a typed state: a new one, or the one that was last written down. -/
theorem typed_enters (enters : g.Enters w request run a) :
    run.definition = g.definition ∧ a.Typed g.definition.schema := by
  cases enters with
  | @start thread input options config e providers opening layer =>
    obtain ⟨state, around⟩ := typed_opened made h opening options.observers
    exact ⟨rfl, around, state⟩
  | @resume thread value options r providers resumption layer =>
    obtain ⟨c, _, _, e, hc, -, -, he, -, -, -, hr⟩ := resumption_eq_ok h.memory resumption
    have state : e.state = c.state.fields := congrArg Position.state (position_ofCheckpoint he)
    have fits := h.fits thread c (List.mem_of_getLast? hc)
    have around : (reopened r thread w).Typed g.definition.schema :=
      h.congr ((Surroundings.store_emit _ _).trans (w.store_activate thread))
    refine ⟨rfl, around, ?_⟩
    show g.definition.schema.Typed r.execution.state
    rw [hr]
    exact state ▸ fits.typed_fields

theorem typed_serve (request : Request) : (g.serve w request).1.Typed g.definition.schema ∧
    ∀ o, (g.serve w request).2 = .ok (some o) → g.definition.schema.Fits o.state := by
  have memory := (serve_frame g h.memory request).1
  -- Only the records of the thread of the request can change.
  have typed (own : ∀ c ∈ (g.serve w request).1.records request.thread, g.definition.schema.Fits c.state) :
      (g.serve w request).1.Typed g.definition.schema := by
    refine ⟨memory, fun thread c hc => ?_⟩
    by_cases ht : request.thread = thread
    · exact own c (ht ▸ hc)
    · rw [(serve_frame g h.memory request).2 thread ht] at hc
      exact h.fits thread c hc
  cases g.serve_cases h.memory request with
  | idle _ records untold =>
    refine ⟨typed fun c hc => h.fits _ c (records ▸ hc), fun o ho => absurd ho (untold o)⟩
  | @begun thread input options config e f opening served =>
    rw [served]
    exact ⟨(typed_opened made h opening options.observers).2.congr rfl, fun o ho => by cases ho⟩
  | @entered _ run a enters =>
    obtain ⟨hd, entered⟩ := typed_enters made h enters
    have ended : (run.run a).Typed g.definition.schema := hd ▸ typed_run (hd.symm ▸ entered)
    rw [enters.serve_eq h.memory]
    exact ⟨ended.around.congr rfl, fun o ho => ended.answer o (ok_of_hinted ho)⟩
  | @ended thread c e last _ taken own served =>
    have state : e.state = c.state.fields := congrArg Position.state (position_ofCheckpoint taken)
    have ended : (g.fail e (.cancelled thread) w).Typed g.definition.schema :=
      typed_fail h (state ▸ (h.fits thread c (List.mem_of_getLast? last)).typed_fields) _
    rw [served]
    exact ⟨ended.around, fun o ho => ended.answer o (ok_of_map_some ho)⟩
  | deleted none untold =>
    refine ⟨typed fun c hc => ?_, fun o ho => absurd ho (untold o)⟩
    rw [Request.thread, none] at hc
    cases hc

end Requests

/-! ### Main statement -/

/-- The states that nodes and conditions are given in the run that a request enters: that of every pass whose
    node is run, and what the update of its node makes of it. -/
inductive Given (g : Engine) (w : Surroundings) (request : Request) : State → Prop
  | node {run : Engine} {a q : Pass} (enters : g.Enters w request run a)
      (goes : Relation.ReflTransGen run.Goes a q) (runs : run.Runs q) : Given g w request q.execution.state
  | condition {run : Engine} {a q : Pass} {n : Node} {values : Value} {state : State}
      (enters : g.Enters w request run a) (goes : Relation.ReflTransGen run.Goes a q) (runs : run.Runs q)
      (hn : run.definition.node? q.execution.node = some n) (hv : run.answerAt n q = .ok (.update values))
      (hs : run.definition.schema.applyValue q.execution.state values = .ok state) : Given g w request state

/-- Every state that serving a request has to do with is typed. -/
structure ServesTyped (g : Engine) (w : Surroundings) (request : Request) (s : Schema) : Prop where
  given : ∀ state, g.Given w request state → s.Typed state
  /-- Before the request, all the way through its run, and after it. -/
  before : ∀ thread, ∀ c ∈ w.records thread, s.Fits c.state
  within : ∀ run a q, g.Enters w request run a → Relation.ReflTransGen run.Goes a q →
    ∀ thread, ∀ c ∈ q.around.records thread, s.Fits c.state
  after : ∀ thread, ∀ c ∈ (g.serve w request).1.records thread, s.Fits c.state
  answer : ∀ o, (g.serve w request).2 = .ok (some o) → s.Fits o.state
  /-- What the last checkpoint of a thread tells of. -/
  outcome : ∀ thread o, g.outcome thread w = .ok o → s.Fits o.state
  state : ∀ thread v, g.state thread w = .ok v → s.Fits v

end Engine

theorem Reachable.typed {d : Definition} {w : Surroundings} (made : d.schema.Made) (h : Reachable d w) :
    w.Typed d.schema := by
  induction h with
  | empty h =>
    refine ⟨⟨[], h⟩, fun thread c hc => ?_⟩
    rw [Surroundings.records_of_store h] at hc
    cases hc
  | served _ hg request ih =>
    subst hg
    exact (Engine.typed_serve made ih request).1
  | handed _ hv ih => exact ih.congr hv

namespace Engine

/-- Whatever has been asked of engines of a graph, every state is typed that a further request has to do with,
    whatever nodes report and reducers make of it. -/
theorem typed_of_reachable {d : Definition} (made : d.schema.Made) {w : Surroundings} (h : Reachable d w)
    (g : Engine) (hg : g.definition = d) (request : Request) : g.ServesTyped w request d.schema := by
  subst hg
  have typed := h.typed made
  obtain ⟨after, answer⟩ := typed_serve made typed request
  have passes {run : Engine} {a q : Pass} (enters : g.Enters w request run a)
      (goes : Relation.ReflTransGen run.Goes a q) : run.definition = g.definition ∧ q.Typed g.definition.schema := by
    obtain ⟨hd, entered⟩ := typed_enters made typed enters
    exact ⟨hd, hd ▸ typed_passes (hd.symm ▸ entered) goes⟩
  have last {thread : String} {c : Checkpoint} (hc : g.lastCheckpoint thread w.store = .ok c) :
      g.definition.schema.Fits c.state :=
    typed.fits thread c (List.mem_of_getLast? ((lastCheckpoint_eq_ok typed.memory).mp hc).1)
  refine ⟨?_, typed.fits, fun run a q enters goes => (passes enters goes).2.around.fits, after.fits, answer, ?_, ?_⟩
  · intro state given
    cases given with
    | node enters goes => exact (passes enters goes).2.state
    | condition enters goes _ _ _ hs =>
      obtain ⟨hd, q⟩ := passes enters goes
      exact q.state.applyValue (hd ▸ hs)
  · intro thread o ho
    obtain ⟨c, hc, ho⟩ := bind_eq_ok.mp ho
    obtain ⟨_, -, ho⟩ := bind_eq_ok.mp ho
    cases ho
    exact last hc
  · intro thread v hv
    obtain ⟨c, hc, hv⟩ := bind_eq_ok.mp hv
    cases hv
    exact last hc

end Engine

/-- A note that is cleared, though it is to be a text, and a total that only takes whole numbers. -/
def Definition.clearing : Definition where
  name := "clearing"
  schema := ⟨"clearing", [⟨"note", ⟨"string", some [.str]⟩, .overrideIfDefined, .str "draft", false⟩,
    ⟨"total", ⟨"integer", some [.int]⟩, .custom "add" fun
      | .int m, .int n => .ok (.int (m + n))
      | _, v => .error (.type s!"cannot add a {v.kindName}"), .int 0, false⟩]⟩
  nodes := [{ id := "clear", logic := some fun _ _ => .done (.update (.ofFields [("total", .int 2), ("note", .null)])) }]
  edges := [.normal startMarker "clear", .normal "clear" endMarker]

theorem Definition.clearing_made : clearing.schema.Made := by
  have built : ∀ f ∈ clearing.schema.fields, f.Built := by
    simp only [clearing, List.mem_cons, List.not_mem_nil, or_false, forall_eq_or_imp, forall_eq]
    exact ⟨Field.built_of_admits nofun rfl, Field.built_of_admits nofun rfl⟩
  exact Schema.made_ofFields built rfl

/-- A total that was given adds up, an input that is no number is refused, and the cleared note is answered. -/
theorem Engine.typed_of_reachable_clearing :
    let g : Engine := { definition := .clearing }
    let w : Surroundings := g.serveAll {} [.start "t" (.ofFields [("total", .str "3")]) {}]
    let request : Request := .start "t" (.ofFields [("total", .int 3)]) {}
    ((g.serve w request).2.toOption.join.any fun o =>
      o.state.equal (.ofFields [("note", .null), ("total", .int 5)])) = true ∧
    Definition.clearing.schema.Made ∧ Reachable .clearing w ∧ g.definition = .clearing ∧
    g.ServesTyped w request Definition.clearing.schema := by
  intro g w request
  have reachable : Reachable .clearing w :=
    (Reachable.empty rfl).serveAll (g := g) rfl [.start "t" (.ofFields [("total", .str "3")]) {}]
  exact ⟨by decide +kernel, Definition.clearing_made, reachable, rfl,
    typed_of_reachable Definition.clearing_made reachable g rfl request⟩

end Workflow
