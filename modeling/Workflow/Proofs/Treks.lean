import Workflow.Proofs.Failing
import Workflow.Proofs.Laps
import Workflow.Proofs.Safety

/-! Runs that nothing breaks: no node asks for input, fails or asks for the end, and nothing pauses them. Such a run is
    completed where its walk comes to the end within the bound, and fails when it has taken as many steps as the bound
    allows otherwise (`start_measured`). In memory it is answered (`start_answered`), and its failure keeps the state in
    which the bound was reached (`start_state`). -/

namespace Workflow

/-- The walk with an input whose nodes are all entered by themselves, with providers that have served some calls:
    the position after a number of steps, and the calls that have been served by then. -/
def Definition.trek (d : Definition) (ps : Providers) (thread : String) (input : Value) (calls : CallLog) :
    Nat → Option (Position × CallLog)
  | 0 => (d.origin? input).map fun p => (p, calls)
  | n + 1 => (d.trek ps thread input calls n).bind fun (p, calls) =>
      match d.turn { providers := ps } thread p calls with
      | (effects, .reached q) => some (q, effects.calls)
      | _ => none

/-- The step from a position is taken to its end: the node neither asks for input nor for the end of the run, its
    update fits, and its edge leads on. -/
structure Definition.Smooth (d : Definition) (ps : Providers) (thread : String) (p : Position) (calls : CallLog) :
    Prop where
  cancelled : (d.turn { providers := ps } thread p calls).1.cancelled = false
  unasking : ∀ prompt, (d.turn { providers := ps } thread p calls).2 ≠ .suspended prompt
  sound : ∀ q f, (d.turn { providers := ps } thread p calls).2 ≠ .failed q f

section Treks

variable {d : Definition} {ps : Providers} {thread : String} {input : Value} {calls calls' : CallLog} {p q : Position}
  {n : Nat}

theorem Definition.step_of_trek (h : d.trek ps thread input calls n = some (p, calls')) : p.step = n := by
  induction n generalizing p calls' with
  | zero =>
    simp only [trek, origin?, Option.map_eq_some_iff, Option.bind_eq_bind, Option.bind_eq_some_iff] at h
    obtain ⟨_, ⟨node, -, state, -, hp⟩, hpair⟩ := h
    cases hpair
    cases hp
    rfl
  | succ n ih =>
    rw [trek, Option.bind_eq_some_iff] at h
    obtain ⟨⟨p', calls''⟩, hp, h⟩ := h
    dsimp only at h
    split at h
    · rename_i hturn
      cases h
      rw [(step_of_turn_reached (congrArg Prod.snd hturn)).1, ih hp]
      rfl
    · cases h

theorem Definition.trek_succ (h : d.trek ps thread input calls n = some (p, calls'))
    (hq : (d.turn { providers := ps } thread p calls').2 = .reached q) :
    d.trek ps thread input calls (n + 1) =
      some (q, (d.turn { providers := ps } thread p calls').1.calls) := by
  rw [trek, h, Option.bind_some]
  dsimp only
  generalize d.turn { providers := ps } thread p calls' = turn at hq
  obtain ⟨effects, stride⟩ := turn
  cases hq
  rfl

end Treks

namespace Surroundings

variable {w : Surroundings} {thread other : String} {effects : Action.Effects}

@[simp] theorem calls_requestCancel : (w.requestCancel thread).calls = w.calls := by
  unfold requestCancel
  split <;> rfl

@[simp] theorem calls_forget : (w.forget thread).calls = w.calls := by
  unfold forget
  split <;> rfl

@[simp] theorem calls_absorb : (w.absorb thread effects).calls = effects.calls :=
  absorb_induction (P := fun v => v.calls = effects.calls) rfl (fun h => by rwa [calls_forget]) fun _ h => by
    rwa [calls_requestCancel]

/-- Nobody asks for the end of the thread, whatever the store is made of. -/
structure Undisturbed (w : Surroundings) (thread : String) : Prop where
  uncancelled : w.isCancelled thread = false
  quiet : w.bus.Quiet

/-- What asks for an end is not in the store. -/
theorem Undisturbed.congr {v : Surroundings} (h : w.Undisturbed thread) (cancels : v.cancels = w.cancels)
    (bus : v.bus = w.bus) : v.Undisturbed thread :=
  ⟨by rw [isCancelled, cancels]; exact h.uncancelled, bus ▸ h.quiet⟩

theorem Undisturbed.emit (h : w.Undisturbed thread) (e : Event) : (w.emit e).Undisturbed thread := by
  rw [emit_of_quiet h.quiet]
  exact ⟨h.uncancelled, h.quiet.emitted e⟩

/-- A node may delete the records of its thread without asking for its end. -/
theorem Undisturbed.absorb (h : w.Undisturbed thread) (hc : effects.cancelled = false) :
    (w.absorb other effects).Undisturbed thread := by
  obtain ⟨cancels, bus⟩ := w.absorb_silent other hc
  exact h.congr cancels bus

end Surroundings

/-- The walk comes to the end after a number of steps, and not before. -/
structure Definition.EndsAfter (d : Definition) (ps : Providers) (thread : String) (input : Value) (calls : CallLog)
    (n : Nat) (p : Position) : Prop where
  walk : ∃ calls', d.trek ps thread input calls n = some (p, calls')
  ended : p.node = endMarker
  first : ∀ k < n, ∀ q calls', d.trek ps thread input calls k = some (q, calls') → q.node ≠ endMarker

/-- A start that nothing breaks and nothing pauses is completed where the walk comes to the end within the bound, and
    fails after as many steps as the bound allows otherwise. -/
structure Outcome.Measured (o : Outcome) (d : Definition) (ps : Providers) (thread : String) (input : Value)
    (calls : CallLog) (limit : Nat) : Prop where
  completed : ∀ n ≤ limit, ∀ p, d.EndsAfter ps thread input calls n p →
    o.status = .completed ∧ o.steps = n ∧ o.state = .ofFields p.state
  exhausted : (∀ n ≤ limit, ∀ p, ¬d.EndsAfter ps thread input calls n p) →
    ∃ p calls', d.trek ps thread input calls limit = some (p, calls') ∧ p.node ≠ endMarker ∧
      o.status = .failed ∧ o.error = some (.recursionLimit (.int limit) (.str p.node)) ∧ o.steps = limit

namespace Engine

variable {g run : Engine} {thread : String} {input : Value} {calls : CallLog} {p q : Position} {w v : Surroundings}
  {e : Execution} {entry : Entry} {n limit : Nat} {options : CallOptions} {t : List Attempt} {x : Ended}
  {r : Pass} {o : Outcome} {config : Config} {providers : Providers}

/-- A run has taken a number of steps of its walk and has not come to the end before, and nobody asks for its end. -/
structure Treks (g : Engine) (thread : String) (input : Value) (calls : CallLog) (n : Nat) (e : Execution)
    (w : Surroundings) : Prop where
  own : e.thread = thread
  undisturbed : w.Undisturbed thread
  walk : g.definition.trek g.providers thread input calls n = some (e.position, w.calls)
  inside : ∀ k < n, ∀ q calls', g.definition.trek g.providers thread input calls k = some (q, calls') →
    q.node ≠ endMarker

/-- No step of a walk within the bound is broken. -/
def Unbroken (g : Engine) (thread : String) (input : Value) (calls : CallLog) (limit : Nat) : Prop :=
  ∀ n < limit, ∀ p calls', g.definition.trek g.providers thread input calls n = some (p, calls') →
    p.node ≠ endMarker → g.definition.Smooth g.providers thread p calls'

/-- Where the loop of a run that nothing breaks and nothing pauses stops: at the end of the walk, or at the bound. -/
inductive Stops (g : Engine) (thread : String) (input : Value) (calls : CallLog) (limit : Nat) (e : Execution)
    (w : Surroundings) : Ended → Prop
  | ended {n : Nat} (within : n ≤ limit) (treks : g.Treks thread input calls n e w) (ended : e.node = endMarker) :
      Stops g thread input calls limit e w (g.complete e w)
  | spent (treks : g.Treks thread input calls limit e w) (inside : e.node ≠ endMarker) :
      Stops g thread input calls limit e w (g.fail e (g.exhausted e) w)

section Walking

variable (h : g.Treks thread input calls n e w) (hlimit : g.config.recursionLimit = limit)
  (unbroken : g.Unbroken thread input calls limit)
include h hlimit unbroken

theorem Treks.smooth (runs : g.Runs (g.firstPass e {} w)) :
    n < limit ∧ g.definition.Smooth g.providers e.thread e.position w.calls := by
  obtain rfl : e.thread = thread := h.own
  have left := mt left_firstPass.mpr runs.left
  have step : e.step = n := Definition.step_of_trek h.walk
  have below : n < limit := by omega
  exact ⟨below, unbroken n below _ _ h.walk runs.inside⟩

/-- A pass that goes on takes the next step of the walk. -/
theorem Treks.goes (hgoes : g.Goes (g.firstPass e {} w) r) :
    n < limit ∧ g.Treks thread input calls (n + 1) r.execution r.around := by
  obtain ⟨p, runs, hp, hr, -⟩ := hgoes.reached
  obtain ⟨below, smooth⟩ := h.smooth hlimit unbroken runs
  obtain rfl : e.thread = thread := h.own
  have disturbed : (g.after (g.firstPass e {} w)).Undisturbed e.thread := h.undisturbed.absorb smooth.cancelled
  have told : (g.told (g.firstPass e {} w) p).Undisturbed e.thread := disturbed.emit _
  have calls_told : (g.told (g.firstPass e {} w) p).calls = (g.turnAt (g.firstPass e {} w)).1.calls := by
    rw [Engine.told, Surroundings.calls_emit disturbed.quiet, after, Surroundings.calls_absorb]
  -- What is written down on the way changes the store alone.
  have around : r.around.Undisturbed e.thread ∧ r.around.calls = (g.turnAt (g.firstPass e {} w)).1.calls := by
    cases hgoes with
    | @unsaved q _ hq =>
      cases hp.symm.trans hq
      exact ⟨told, calls_told⟩
    | saved _ hq _ _ save =>
      cases hp.symm.trans hq
      have same := congrArg Prod.fst save
      subst same
      exact ⟨told.congr rfl rfl, calls_told⟩
  refine ⟨below, hr ▸ rfl, around.1, ?_, fun k hk q calls' hq => ?_⟩
  · rw [around.2, hr]
    exact Definition.trek_succ h.walk hp
  · rcases Nat.lt_succ_iff_lt_or_eq.mp hk with hk | rfl
    · exact h.inside k hk q calls' hq
    · cases h.walk.symm.trans hq
      exact runs.inside

/-- A pass that ends the call with an outcome is at the end of the walk or at the bound. -/
theorem Treks.stops (before : g.config.before = []) (free : g.config.after = []) (hn : n ≤ limit)
    (hends : g.Ends (g.firstPass e {} w) x) (ho : x.2 = .ok o) : g.Stops thread input calls limit e w x := by
  have unheld : e.node ∉ g.config.after := by
    rw [free]
    exact List.not_mem_nil
  have smooth runs := (h.smooth hlimit unbroken runs).2
  obtain rfl : e.thread = thread := h.own
  cases hends with
  | cancelled cancelled =>
    exact absurd cancelled (ne_true_of_eq_false h.undisturbed.uncancelled)
  | completed _ ended => exact .ended hn h ended
  | exhausted _ inside spent =>
    have step : e.step = n := Definition.step_of_trek h.walk
    have all := left_firstPass.mp spent
    obtain rfl : n = limit := by omega
    exact .spent h inside
  | held _ _ _ held =>
    rw [firstPass, holds, before] at held
    cases held
  | suspended runs hs => exact absurd hs ((smooth runs).unasking _)
  | withdrawn runs hs => exact absurd hs ((smooth runs).unasking _)
  | failed runs hs => exact absurd hs ((smooth runs).sound _ _)
  | lost => cases ho
  | paused _ _ held => exact absurd held unheld
  | revoked _ _ held => exact absurd held unheld
  | unsaved => cases ho

end Walking

/-- A run that nothing breaks and nothing pauses goes on along its walk to where it stops. -/
theorem Unrolls.stops (unrolls : g.Unrolls e entry w t x) (plain : entry = {})
    (h : g.Treks thread input calls n e w) (hlimit : g.config.recursionLimit = limit)
    (unbroken : g.Unbroken thread input calls limit) (before : g.config.before = []) (free : g.config.after = [])
    (hn : n ≤ limit) (ho : x.2 = .ok o) : ∃ e' w', Relation.ReflTransGen g.Goes (g.firstPass e {} w)
      (g.firstPass e' {} w') ∧ g.Stops thread input calls limit e' w' x := by
  induction unrolls generalizing n with
  | ends lap =>
    subst plain
    exact ⟨_, _, .refl, h.stops hlimit unbroken before free hn (ends_of_lap lap) ho⟩
  | goes lap _ ih =>
    subst plain
    have goes := goes_of_lap lap
    obtain ⟨below, next⟩ := h.goes hlimit unbroken goes
    obtain ⟨e', w', rest, stops⟩ := ih rfl next below ho
    exact ⟨e', w', .head goes rest, stops⟩

theorem Stops.measured (h : g.Stops thread input calls limit e w x) (hlimit : g.config.recursionLimit = limit)
    (ho : x.2 = .ok o) : o.Measured g.definition g.providers thread input calls limit := by
  cases h with
  | @ended m within treks ended =>
    obtain ⟨status, state, steps⟩ := outcome_of_complete ho
    have here : g.definition.EndsAfter g.providers thread input calls m e.position :=
      ⟨⟨_, treks.walk⟩, ended, treks.inside⟩
    refine ⟨fun n hn p ⟨⟨calls', walk⟩, hp, first⟩ => ?_, fun never => absurd here (never m within _)⟩
    -- The walk comes to the end only once.
    rcases Nat.lt_trichotomy m n with before | rfl | after
    · exact absurd ended (first m before _ _ treks.walk)
    · cases treks.walk.symm.trans walk
      exact ⟨status, steps.trans (Definition.step_of_trek treks.walk), state⟩
    · exact absurd hp (treks.inside n after _ _ walk)
  | spent treks inside =>
    obtain ⟨status, error, steps⟩ := outcome_of_fail ho
    refine ⟨fun n hn p ⟨⟨calls', walk⟩, hp, first⟩ => ?_, fun _ => ?_⟩
    · rcases Nat.lt_or_eq_of_le hn with before | rfl
      · exact absurd hp (treks.inside n before _ _ walk)
      · cases treks.walk.symm.trans walk
        exact absurd hp inside
    · refine ⟨_, _, treks.walk, inside, status, ?_, steps.trans (Definition.step_of_trek treks.walk)⟩
      rw [error, exhausted, hlimit]
      rfl

/-! ### Starts -/

section Starting

variable (undisturbed : (w.joined thread options.observers).Undisturbed thread)
  (ho : g.config.override options.overrides = .ok config)
  (layer : g.providers.layer options.providers = .ok providers)
include undisturbed ho layer

/-- A run of a new thread starts where its walk does. -/
theorem Launches.treks (h : g.Launches w (.start thread input options) run e entry v) :
    run = { g with config, providers } ∧ entry = {} ∧ run.Treks thread input w.calls 0 e v := by
  cases h with
  | @start _ _ _ config' _ providers' _ _ opening names save layer' =>
    obtain ⟨ho', p, origin, -, rfl⟩ := origin_of_opening opening
    cases ho.symm.trans ho'
    cases layer.symm.trans layer'
    obtain rfl := congrArg Prod.fst save
    have saved := undisturbed.congr
      (v := (g.save (p.running thread config.metadata) (w.joined thread options.observers)).1) rfl rfl
    have calls : (w.joined thread options.observers).calls = w.calls := Surroundings.calls_activate _ _
    refine ⟨rfl, rfl, rfl, saved.emit _, ?_, fun k hk => absurd hk (Nat.not_lt_zero k)⟩
    rw [Surroundings.calls_emit saved.quiet, Definition.trek, origin]
    exact congrArg (fun calls => some (p, calls)) calls.symm

variable (before : config.before = []) (free : config.after = []) (hlimit : config.recursionLimit = limit)
  (unbroken : Unbroken { g with config, providers } thread input w.calls limit)
  (answer : (g.start thread input options w).2 = .ok o)
include before free hlimit unbroken answer

/-- A start that is answered with an outcome has run along its walk to where it stops. -/
theorem start_stops : ∃ e v e' v' x, g.Launches w (.start thread input options) { g with config, providers } e {} v ∧
    Relation.ReflTransGen (Goes { g with config, providers }) (firstPass { g with config, providers } e {} v)
      (firstPass { g with config, providers } e' {} v') ∧
    Stops { g with config, providers } thread input w.calls limit e' v' x ∧ x.2 = .ok o := by
  have answered : (g.serve w (.start thread input options)).2 = .ok (some o) := by
    rw [serve, answer]
    rfl
  obtain ⟨run, e, entry, v, launch⟩ := exists_launch ⟨Request.noConfusion, Request.noConfusion⟩ answered
  obtain ⟨rfl, rfl, treks⟩ := launch.treks undisturbed ho layer
  obtain ⟨t, unrolls⟩ := Engine.unrolls_run { g with config, providers } e {} v
  have ends := launch.run_answered answered
  obtain ⟨e', v', goes, stops⟩ := unrolls.stops rfl treks hlimit unbroken before free (Nat.zero_le _) ends
  exact ⟨e, v, e', v', _, launch, goes, stops, ends⟩

theorem start_measured : o.Measured g.definition providers thread input w.calls limit := by
  obtain ⟨e, v, e', v', x, -, -, stops, hx⟩ := start_stops undisturbed ho layer before free hlimit unbroken answer
  exact stops.measured hlimit hx

/-- In memory, and if every step is written down, a start that fails is answered with the state in which the bound
    was reached. -/
theorem start_state (hm : w.InMemory) (fresh : w.records thread = []) (mode : config.mode = .everyStep)
    (failed : o.status = .failed)
    (walk : g.definition.trek providers thread input w.calls limit = some (p, calls)) :
    o.state = .ofFields p.state := by
  obtain ⟨e, v, e', v', x, launch, goes, stops, hx⟩ :=
    start_stops undisturbed ho layer before free hlimit unbroken answer
  have orderly : Orderly g.definition thread (w.records thread) := by
    rw [fresh]
    exact .nil
  cases stops with
  | ended =>
    rw [(outcome_of_complete hx).1] at failed
    cases failed
  | spent treks =>
    cases treks.walk.symm.trans walk
    obtain ⟨-, -, p₀, entry, u, hq, keeps, marks⟩ := (launch.enters hm).keeps hm orderly
    obtain ⟨memory, own, marks⟩ := marks.passes keeps.memory mode (hq ▸ goes)
    exact state_of_fail memory own marks hx

end Starting

/-- In memory, a start of a new thread that fits is answered with an outcome. -/
theorem start_answered (sound : g.definition.Sound) (hm : w.InMemory) (fresh : w.records thread = [])
    (ho : g.config.Accepts options.overrides config)
    (layer : g.providers.layer options.providers = .ok providers)
    (fits : ∃ state, g.definition.schema.initialState input = .ok state) :
    ∃ o, (g.start thread input options w).2 = .ok o := by
  have proper : ∀ c ∈ w.records thread, c.Proper g.definition := by
    rw [fresh]
    exact List.forall_mem_nil _
  have safe := @serve_safe g w (.start thread input options) sound hm proper
  rcases safe.2 with ⟨x, answer, -⟩ | ⟨f, -, refused⟩
  · rw [serve] at answer
    cases h : (g.start thread input options w).2 with
    | error f =>
      rw [h] at answer
      cases answer
    | ok o => exact ⟨o, rfl⟩
  · exfalso
    cases refused with
    | settings h => cases ho.override.symm.trans h
    | unordered h => cases ho.names.symm.trans h
    | providers h => cases layer.symm.trans h
    | input h =>
      obtain ⟨state, hs⟩ := fits
      cases hs.symm.trans h
    | taken h => exact h fresh

end Engine

end Workflow
