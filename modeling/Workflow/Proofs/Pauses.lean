import Workflow.Proofs.Calm
import Workflow.Proofs.Kept
import Workflow.Proofs.Sound

/-! Pauses do not show in what a run comes to. A graph mirrors another one if its nodes do the same once they
    have been given what they may ask for. Main statement: a run that is resumed until it no longer pauses
    is answered as a run of the mirrored graph that never pauses (`pursue_eq_start`). -/

namespace Workflow

/-- The answer of a call tells of a pause. -/
def IsPaused (answer : Except Fault Outcome) : Prop := ∃ o, answer = .ok o ∧ o.status = .paused

theorem isPaused_mapError {answer : Except Fault Outcome} {f : Fault → Fault} :
    IsPaused (answer.mapError f) ↔ IsPaused answer := by
  cases answer with
  | ok o => rfl
  | error e =>
    constructor
    · rintro ⟨_, ⟨⟩, _⟩
    · rintro ⟨_, ⟨⟩, _⟩

namespace Position

def completed (p : Position) (thread : String) : Outcome :=
  { thread, status := .completed, state := .ofFields p.state, steps := p.step, history := p.history.map .str }

/-- What is told of a run that fails, where `kept` is the state that was last written down. -/
def failed (p : Position) (thread : String) (kept : State) (f : Failure) : Outcome :=
  { thread, status := .failed, state := .ofFields kept, error := some f, steps := p.step
    history := p.history.map .str }

/-- What is told of a run whose node asks for input. -/
def suspended (p : Position) (thread : String) (prompt : Value) : Outcome :=
  { thread, status := .paused, state := .ofFields p.state
    interrupt := some { node := .str p.node, prompt, kind := .dynamic }
    steps := p.step, history := p.history.map .str }

end Position

namespace Definition

/-- What a run comes to that is at a position, has steps left, and pauses only where a node asks for input.
    Every step is written down. -/
def settle (d : Definition) (ps : Providers) (thread : String) (limit : Int) :
    (left : Nat) → Position → CallLog → Except Fault Outcome
  | left, p, calls =>
    if p.node = endMarker then .ok (p.completed thread)
    else
      match left with
      | 0 => .ok (p.failed thread p.state (.recursionLimit (.int limit) (.str p.node)))
      | left + 1 =>
        match d.turn { providers := ps } thread p calls with
        | (effects, .reached q) => d.settle ps thread limit left q effects.calls
        | (_, .suspended prompt) => .ok (p.suspended thread prompt)
        | (_, .failed q f) => .ok (q.failed thread p.state f)
        | (_, .lost f) => .error f

/-- The graph `d` does what `m` does, once its nodes have been given what they may ask for, and `m` runs to
    the end by itself: its nodes neither ask for input nor end or forget the thread. -/
structure Mirrors (d m : Definition) (ps : Providers) (thread : String) (given : Value → Prop) : Prop where
  schema : d.schema = m.schema
  entry : d.entryPoint? = m.entryPoint?
  /-- A node that is entered by itself does the same, or asks for input. -/
  first : ∀ p calls, d.turn { providers := ps } thread p calls = m.turn { providers := ps } thread p calls ∨
    ∃ prompt, d.turn { providers := ps } thread p calls = ({ calls }, .suspended prompt)
  /-- A node that is entered again does the same. -/
  again : ∀ v, given v → ∀ p calls, d.turn ⟨ps, { resumed := true, value := v }⟩ thread p calls =
    m.turn { providers := ps } thread p calls
  lasting : ∀ p calls, (m.turn { providers := ps } thread p calls).1.cancelled = false ∧
    (m.turn { providers := ps } thread p calls).1.forgotten = false
  unasking : ∀ p calls prompt, (m.turn { providers := ps } thread p calls).2 ≠ .suspended prompt

variable {d : Definition} {ps : Providers} {thread : String} {limit : Int} {p q : Position} {calls : CallLog}
  {left : Nat} {effects : Action.Effects}

theorem settle_end (h : p.node = endMarker) :
    d.settle ps thread limit left p calls = .ok (p.completed thread) := by
  cases left <;> rw [settle, if_pos h]

theorem settle_zero (h : p.node ≠ endMarker) : d.settle ps thread limit 0 p calls =
    .ok (p.failed thread p.state (.recursionLimit (.int limit) (.str p.node))) := by
  rw [settle, if_neg h]

theorem settle_step (h : p.node ≠ endMarker) (hl : left ≠ 0) : d.settle ps thread limit left p calls =
    match (d.turn { providers := ps } thread p calls).2 with
    | .reached q =>
      d.settle ps thread limit (left - 1) q (d.turn { providers := ps } thread p calls).1.calls
    | .suspended prompt => .ok (p.suspended thread prompt)
    | .failed q f => .ok (q.failed thread p.state f)
    | .lost f => .error f := by
  obtain ⟨n, rfl⟩ := Nat.exists_eq_succ_of_ne_zero hl
  rw [settle, if_neg h]
  obtain ⟨effects, stride⟩ := d.turn { providers := ps } thread p calls
  cases stride <;> rfl

/-- A run of a sound graph comes to an outcome. -/
theorem Sound.settle_isOk (hd : d.Sound) (hp : d.IsPlace p.node) :
    ∃ o, d.settle ps thread limit left p calls = .ok o := by
  induction left generalizing p calls with
  | zero =>
    by_cases h : p.node = endMarker
    · exact ⟨_, settle_end h⟩
    · exact ⟨_, settle_zero h⟩
  | succ left ih =>
    by_cases h : p.node = endMarker
    · exact ⟨_, settle_end h⟩
    rw [settle_step h (Nat.succ_ne_zero left)]
    rcases hd.turn_cases (hp.resolve_right h) { providers := ps } thread calls with
      ⟨prompt, hs⟩ | ⟨q, f, hs, -⟩ | ⟨q, hs, hq⟩ <;> rw [hs]
    · exact ⟨_, rfl⟩
    · exact ⟨_, rfl⟩
    · exact ih hq

theorem Mirrors.plain {m : Definition} {given : Value → Prop} (h : d.Mirrors m ps thread given) :
    m.Mirrors m ps thread fun _ => False :=
  ⟨rfl, rfl, fun _ _ => Or.inl rfl, fun _ h => h.elim, h.lasting, h.unasking⟩

/-- Where a graph loses its way, the fault is none of the store. -/
theorem withHint_of_lost {i : Invocation} {f : Fault} (h : (d.turn i thread p calls).2 = .lost f) (other : String) :
    Engine.withHint other f = f := by
  unfold turn at h
  split at h
  · cases h
    rfl
  · dsimp only at h
    unfold stride at h
    split at h
    · cases h
    · cases h
    · split at h
      · cases h
      · split at h
        · cases h
          rfl
        · split at h <;> cases h
          rfl

end Definition

namespace Engine

/-! ### Passes towards an answer -/

/-- How far a run is from its end: it takes the steps that are left, and may ask for input before each. -/
def rank (limit : Int) (p : Position) (entry : Entry) : Nat :=
  2 * (limit - p.step).toNat + if entry.resumed then 0 else 1

/-- A run at a position heads for the answer that `m` comes to: nobody asks for its end, its state is written
    down, and its node is entered by itself or with a value that it may be given. -/
structure Heads (g : Engine) (m : Definition) (given : Value → Prop) (thread : String)
    (goal : Except Fault Outcome) (p : Position) (entry : Entry) (w : Surroundings) : Prop where
  calm : w.Calm thread
  nonneg : 0 ≤ p.step
  entered : entry = {} ∨ ∃ v, given v ∧ entry = { resumed := true, value := v }
  written : ∃ c, (w.records thread).getLast? = some c ∧ c.state = .ofFields p.state
  settles : m.settle g.providers thread g.config.recursionLimit
    (g.config.recursionLimit - p.step).toNat p w.calls = goal

/-- A thread waits at a position: nobody asks for its end, and its last record tells of a pause there. -/
structure Waits (g : Engine) (limit : Int) (thread : String) (p : Position) (kind : InterruptKind)
    (w : Surroundings) : Prop where
  calm : w.Calm thread
  nonneg : 0 ≤ p.step
  last : ∃ (c : Config) (node : String) (prompt id timestamp : Value), c.recursionLimit = limit ∧
    c.mode = .everyStep ∧ (w.records thread).getLast? =
      some (((p.running thread c.metadata).paused node kind prompt).checkpoint g.definition.name id timestamp)

/-- What a call leaves that pauses on the way to an answer, nearer to it than `bound`. -/
structure Halts (g : Engine) (m : Definition) (thread : String) (goal : Except Fault Outcome) (bound : Nat)
    (x : Ended) : Prop where
  paused : IsPaused x.2
  pos : 0 < g.config.recursionLimit
  waits : ∃ p kind, g.Waits g.config.recursionLimit thread p kind x.1 ∧
    m.settle g.providers thread g.config.recursionLimit (g.config.recursionLimit - p.step).toNat p x.1.calls = goal ∧
    rank g.config.recursionLimit p (entryAfter kind .null) < bound

variable {g : Engine} {m : Definition} {given : Value → Prop} {thread : String} {goal : Except Fault Outcome}
  {p q : Position} {entry : Entry} {w : Surroundings} {x : Ended} {r : Pass}

section Heading

variable (hm : g.definition.Mirrors m g.providers thread given) (h : g.Heads m given thread goal p entry w)
include hm h

/-- A node does what the mirrored one does, or asks for input that it was not given. -/
theorem Heads.turn_eq : g.turnAt (g.passAt thread p entry w) = m.turn { providers := g.providers } thread p w.calls ∨
    entry = {} ∧ ∃ prompt, g.turnAt (g.passAt thread p entry w) = ({ calls := w.calls }, .suspended prompt) := by
  rw [turnAt_passAt]
  rcases h.entered with rfl | ⟨v, hv, rfl⟩
  · rcases hm.first p w.calls with heq | hsus
    · exact Or.inl heq
    · exact Or.inr ⟨rfl, hsus⟩
  · exact Or.inl (hm.again v hv p w.calls)

theorem Heads.turn_of_ne (hn : ∀ prompt, (g.turnAt (g.passAt thread p entry w)).2 ≠ .suspended prompt) :
    g.turnAt (g.passAt thread p entry w) = m.turn { providers := g.providers } thread p w.calls := by
  rcases h.turn_eq hm with heq | ⟨-, prompt, heq⟩
  · exact heq
  · exact absurd (congrArg Prod.snd heq) (hn prompt)

theorem Heads.lasting : (g.turnAt (g.passAt thread p entry w)).1.cancelled = false ∧
    (g.turnAt (g.passAt thread p entry w)).1.forgotten = false := by
  rcases h.turn_eq hm with heq | ⟨-, prompt, heq⟩
  · rw [heq]
    exact hm.lasting p w.calls
  · rw [heq]
    exact ⟨rfl, rfl⟩

theorem Heads.after_eq : g.after (g.passAt thread p entry w) =
    { w with calls := (g.turnAt (g.passAt thread p entry w)).1.calls
             trace := w.trace ++ (g.turnAt (g.passAt thread p entry w)).1.trace } :=
  Surroundings.absorb_of_calm (h.lasting hm).1 (h.lasting hm).2

theorem Heads.calm_after : (g.after (g.passAt thread p entry w)).Calm thread := by
  rw [h.after_eq hm]
  exact ⟨h.calm.memory, h.calm.uncancelled, h.calm.quiet⟩

theorem Heads.calls_after : (g.after (g.passAt thread p entry w)).calls =
    (g.turnAt (g.passAt thread p entry w)).1.calls := by
  rw [h.after_eq hm]

theorem Heads.records_after : (g.after (g.passAt thread p entry w)).records thread = w.records thread := by
  rw [h.after_eq hm]
  rfl

theorem Heads.calm_told : (g.told (g.passAt thread p entry w) q).Calm thread := (h.calm_after hm).emit _

theorem Heads.calls_told : (g.told (g.passAt thread p entry w) q).calls =
    (g.turnAt (g.passAt thread p entry w)).1.calls := by
  rw [told, Surroundings.calls_emit (h.calm_after hm).quiet, h.calls_after hm]

/-- What a step of a node that was not asked for input leaves to come to. -/
theorem Heads.settles_step (runs : g.Runs (g.passAt thread p entry w))
    (hn : ∀ prompt, (g.turnAt (g.passAt thread p entry w)).2 ≠ .suspended prompt) :
    goal = match (g.turnAt (g.passAt thread p entry w)).2 with
      | .reached q =>
        m.settle g.providers thread g.config.recursionLimit ((g.config.recursionLimit - p.step).toNat - 1) q
          (g.turnAt (g.passAt thread p entry w)).1.calls
      | .suspended prompt => .ok (p.suspended thread prompt)
      | .failed q f => .ok (q.failed thread p.state f)
      | .lost f => .error f := by
  have inside : p.node ≠ endMarker := runs.inside
  have left : (g.config.recursionLimit - p.step).toNat ≠ 0 := runs.left
  rw [← h.settles, Definition.settle_step inside left, h.turn_of_ne hm hn]

theorem Heads.settles_reached (runs : g.Runs (g.passAt thread p entry w))
    (hq : (g.turnAt (g.passAt thread p entry w)).2 = .reached q) :
    m.settle g.providers thread g.config.recursionLimit (g.config.recursionLimit - q.step).toNat q
      (g.turnAt (g.passAt thread p entry w)).1.calls = goal := by
  have hstep : q.step = p.step + 1 := (Definition.step_of_turn_reached hq).1
  have hleft : (g.config.recursionLimit - q.step).toNat = (g.config.recursionLimit - p.step).toNat - 1 := by
    omega
  have hgoal := h.settles_step hm runs fun prompt hs => by rw [hq] at hs; cases hs
  rw [hq] at hgoal
  rw [hleft, hgoal]

/-- A pass that heads for an answer goes on to one that heads for it too and is nearer to it. -/
theorem Heads.goes (mode : g.config.mode = .everyStep) (hgoes : g.Goes (g.passAt thread p entry w) r) :
    ∃ q w', r = g.passAt thread q {} w' ∧ g.Heads m given thread goal q {} w' ∧
      rank g.config.recursionLimit q {} < rank g.config.recursionLimit p entry := by
  obtain ⟨q, runs, hq, rfl⟩ := hgoes.next_passAt h.calm.memory
  have hstep : q.step = p.step + 1 := (Definition.step_of_turn_reached hq).1
  have left : (g.config.recursionLimit - p.step).toNat ≠ 0 := runs.left
  have hnoted : g.noted (g.passAt thread p entry w) q = (g.told (g.passAt thread p entry w) q).keep
      (g.snapshot (q.running thread g.config.metadata) (g.told (g.passAt thread p entry w) q)) := by
    rw [noted, mode]
    rfl
  refine ⟨q, _, rfl, ⟨?_, hstep ▸ Int.le_add_one h.nonneg, Or.inl rfl, ?_, ?_⟩, ?_⟩
  · rw [hnoted]
    exact (h.calm_told hm).keep _
  · have own : (g.snapshot (q.running thread g.config.metadata)
        (g.told (g.passAt thread p entry w) q)).thread = .str thread := rfl
    rw [hnoted, Surroundings.records_keep_self (h.calm_told hm).memory own]
    exact ⟨_, List.getLast?_concat, rfl⟩
  · rw [hnoted, Surroundings.calls_keep, h.calls_told hm]
    exact h.settles_reached hm runs hq
  · unfold rank
    dsimp only
    split <;> omega

end Heading

/-! ### Where a call ends on the way to an answer -/

theorem complete_running {v : Surroundings} (hv : v.InMemory) (metadata : Value) :
    (g.complete (q.running thread metadata) v).2 = .ok (q.completed thread) := by
  rw [complete_eq hv]
  rfl

/-- A failure is told of with the state that was last written down. -/
theorem fail_running {f : Failure} {v : Surroundings} {s : State} (hv : v.InMemory)
    (written : ∃ c, (v.records thread).getLast? = some c ∧ c.state = .ofFields s) (metadata : Value) :
    (g.fail (q.running thread metadata) f v).2 = .ok (q.failed thread s f) := by
  obtain ⟨c, hc, hs⟩ := written
  have hverdict : (g.verdict (q.running thread metadata) f v).state = .ofFields s := by
    unfold verdict
    rw [show (v.records (q.running thread metadata).thread).getLast? = some c from hc]
    exact hs
  rw [fail_eq hv, hverdict]
  rfl

theorem halts_pause {v : Surroundings} {node : String} {kind : InterruptKind} {prompt : Value} {bound : Nat}
    (hv : v.Calm thread) (nonneg : 0 ≤ q.step) (mode : g.config.mode = .everyStep)
    (pos : 0 < g.config.recursionLimit)
    (hs : m.settle g.providers thread g.config.recursionLimit (g.config.recursionLimit - q.step).toNat q v.calls =
      goal) (hlt : rank g.config.recursionLimit q (entryAfter kind .null) < bound) :
    g.Halts m thread goal bound (g.pause (q.running thread g.config.metadata) node kind prompt v) := by
  have own : (g.snapshot ((q.running thread g.config.metadata).paused node kind prompt) v).thread = .str thread := rfl
  rw [pause_eq hv.memory]
  refine ⟨⟨_, rfl, rfl⟩, pos, q, kind, ⟨(hv.keep _).emit _, nonneg, g.config, node, prompt,
    Surroundings.drawnId v.drawn, .int v.drawn, rfl, mode, ?_⟩, ?_, hlt⟩
  · rw [Surroundings.records_emit, Surroundings.records_keep_self hv.memory own]
    exact List.getLast?_concat
  · rw [Surroundings.calls_emit (hv.keep _).quiet]
    exact hs

/-- Whatever may make a run of the engine pause. -/
def Pauses (g : Engine) (thread : String) : Prop :=
  g.config.before ≠ [] ∨ g.config.after ≠ [] ∨
    ∃ p calls prompt, (g.definition.turn { providers := g.providers } thread p calls).2 = .suspended prompt

section Ending

variable (hm : g.definition.Mirrors m g.providers thread given) (h : g.Heads m given thread goal p entry w)
include hm h

theorem Heads.settles_failed (runs : g.Runs (g.passAt thread p entry w)) {f : Failure}
    (hf : (g.turnAt (g.passAt thread p entry w)).2 = .failed q f) :
    goal = .ok (q.failed thread p.state f) := by
  have hgoal := h.settles_step hm runs fun prompt hs => by rw [hf] at hs; cases hs
  rw [hf] at hgoal
  exact hgoal

theorem Heads.settles_lost (runs : g.Runs (g.passAt thread p entry w)) {f : Fault}
    (hf : (g.turnAt (g.passAt thread p entry w)).2 = .lost f) : goal = .error f := by
  have hgoal := h.settles_step hm runs fun prompt hs => by rw [hf] at hs; cases hs
  rw [hf] at hgoal
  exact hgoal

/-- A call that heads for an answer ends with it, or pauses nearer to it. -/
theorem Heads.ends (mode : g.config.mode = .everyStep) (hends : g.Ends (g.passAt thread p entry w) x) :
    (¬IsPaused x.2 ∧ x.2.mapError (withHint thread) = goal) ∨
    (g.Halts m thread goal (rank g.config.recursionLimit p entry) x ∧ g.Pauses thread) := by
  have answered : ∀ {y : Except Fault Outcome} {o : Outcome}, y = .ok o → o.status ≠ .paused → goal = .ok o →
      ¬IsPaused y ∧ y.mapError (withHint thread) = goal := by
    rintro _ o rfl hs rfl
    refine ⟨?_, rfl⟩
    rintro ⟨_, ⟨⟩, hp⟩
    exact hs hp
  -- A call that pauses has steps left.
  have bounded : (g.passAt thread p entry w).left ≠ 0 → 0 < g.config.recursionLimit := fun left => by
    have left : (g.config.recursionLimit - p.step).toNat ≠ 0 := left
    have := h.nonneg
    omega
  cases hends with
  | cancelled hc => exact absurd hc (ne_true_of_eq_false h.calm.uncancelled)
  | completed _ hend =>
    exact Or.inl (answered (complete_running h.calm.memory _) RunStatus.noConfusion
      (h.settles.symm.trans (Definition.settle_end hend)))
  | exhausted _ inside hleft =>
    have hzero : (g.config.recursionLimit - p.step).toNat = 0 := hleft
    have hgoal := h.settles
    rw [hzero, Definition.settle_zero inside] at hgoal
    exact Or.inl (answered (fail_running h.calm.memory h.written _) RunStatus.noConfusion hgoal.symm)
  | held _ _ left hholds =>
    -- The pause takes no step, but the node is entered again, which is nearer to the end.
    obtain ⟨hentry, hmem⟩ := Bool.and_eq_true_iff.mp hholds
    have hresumed : entry.resumed = false := (Bool.not_eq_true' _).mp hentry
    refine Or.inr ⟨halts_pause h.calm h.nonneg mode (bounded left) h.settles ?_, Or.inl ?_⟩
    · rw [rank, rank, hresumed]
      exact Nat.lt_succ_self _
    · exact List.ne_nil_of_mem (List.contains_iff_mem.mp hmem)
  | @suspended prompt runs hs _ =>
    -- The mirrored node asks for nothing, so this one was entered by itself.
    rcases h.turn_eq hm with heq | ⟨rfl, prompt', heq⟩
    · rw [heq] at hs
      exact absurd hs (hm.unasking p w.calls prompt)
    · refine Or.inr ⟨halts_pause (h.calm_after hm) h.nonneg mode (bounded runs.left) ?_ ?_,
        Or.inr (Or.inr ⟨p, w.calls, prompt, hs⟩)⟩
      · rw [h.calls_after hm, heq]
        exact h.settles
      · exact Nat.lt_succ_self _
  | withdrawn _ _ hc => exact absurd hc (ne_true_of_eq_false (h.calm_after hm).uncancelled)
  | failed runs hf =>
    have written := h.written
    rw [← h.records_after hm] at written
    exact Or.inl (answered (fail_running (h.calm_after hm).memory written _) RunStatus.noConfusion
      (h.settles_failed hm runs hf))
  | @lost f runs hf =>
    refine Or.inl ⟨?_, ?_⟩
    · rintro ⟨_, ⟨⟩, _⟩
    · rw [h.settles_lost hm runs hf]
      exact congrArg Except.error (Definition.withHint_of_lost hf thread)
  | @paused q runs hq hheld _ =>
    have hstep : q.step = p.step + 1 := (Definition.step_of_turn_reached hq).1
    have left : (g.config.recursionLimit - p.step).toNat ≠ 0 := runs.left
    refine Or.inr ⟨halts_pause (h.calm_told hm) (hstep ▸ Int.le_add_one h.nonneg) mode (bounded runs.left) ?_ ?_,
      Or.inr (Or.inl (List.ne_nil_of_mem hheld))⟩
    · rw [h.calls_told hm]
      exact h.settles_reached hm runs hq
    · unfold rank entryAfter
      dsimp only
      split <;> omega
  | revoked _ _ _ hc => exact absurd hc (ne_true_of_eq_false (h.calm_told hm).uncancelled)
  | unsaved _ _ _ _ save =>
    rw [save_snapshot (h.calm_told hm).memory] at save
    cases save

theorem Heads.run (mode : g.config.mode = .everyStep) :
    (¬IsPaused (g.run (g.passAt thread p entry w)).2 ∧
      (g.run (g.passAt thread p entry w)).2.mapError (withHint thread) = goal) ∨
    (g.Halts m thread goal (rank g.config.recursionLimit p entry) (g.run (g.passAt thread p entry w)) ∧
      g.Pauses thread) := by
  obtain ⟨r, hgoes, hends⟩ := g.run_passes (g.passAt thread p entry w)
  generalize g.run (g.passAt thread p entry w) = x at hends ⊢
  have reached : ∃ q e v, r = g.passAt thread q e v ∧ g.Heads m given thread goal q e v ∧
      rank g.config.recursionLimit q e ≤ rank g.config.recursionLimit p entry := by
    clear hends
    induction hgoes with
    | refl => exact ⟨p, entry, w, rfl, h, Nat.le_refl _⟩
    | tail _ hstep ih =>
      obtain ⟨q, e, v, rfl, hq, hle⟩ := ih
      obtain ⟨q', v', rfl, hq', hlt⟩ := hq.goes hm mode hstep
      exact ⟨q', {}, v', rfl, hq', Nat.le_of_lt (Nat.lt_of_lt_of_le hlt hle)⟩
  obtain ⟨q, e, v, rfl, hq, hle⟩ := reached
  rcases hq.ends hm mode hends with hdone | ⟨⟨hpaused, hpos, q', kind, hw, hs, hlt⟩, hwhy⟩
  · exact Or.inl hdone
  · exact Or.inr ⟨⟨hpaused, hpos, q', kind, hw, hs, Nat.lt_of_lt_of_le hlt hle⟩, hwhy⟩

end Ending

/-! ### Calls that resume a thread -/

/-- How a call of the thread ends whose loop is `x`. -/
def ended (thread : String) (x : Ended) : Ended := (x.1.release thread, x.2.mapError (withHint thread))

/-- How the last of `n` calls ends that resume a thread one after another with values, where `x` is how the
    call before them ended. -/
def pursue (g : Engine) (thread : String) : (values : Nat → Value) → (x : Ended) → (n : Nat) → Ended
  | _, x, 0 => x
  | values, x, n + 1 => g.pursue thread (fun k => values (k + 1)) (g.resume thread (values 0) {} x.1) n

theorem rank_entryAfter (limit : Int) (p : Position) (kind : InterruptKind) (v : Value) :
    rank limit p (entryAfter kind v) = rank limit p (entryAfter kind .null) := by
  cases kind <;> rfl

/-- A waiting thread goes on where it paused, under the bound and in the mode that it was started with. -/
theorem Waits.resumption_eq {limit : Int} {kind : InterruptKind} (h : g.Waits limit thread p kind w)
    (pos : 0 < limit) : ∃ c i, c.recursionLimit = limit ∧ c.mode = .everyStep ∧ i.kind = kind ∧
      g.resumption thread {} w.store = .ok ⟨c, p.running thread c.metadata, i⟩ := by
  obtain ⟨c, node, prompt, id, timestamp, rfl, mode, hlast⟩ := h.last
  exact ⟨g.config.keeping c, ⟨.str node, prompt, kind⟩, rfl, mode, rfl,
    resumption_of_paused pos ((Surroundings.load_eq h.calm.memory thread).trans (congrArg Except.ok hlast))⟩

theorem Waits.resume_eq {limit : Int} {kind : InterruptKind} (h : g.Waits limit thread p kind w)
    (pos : 0 < limit) (v : Value) : ∃ c w', c.recursionLimit = limit ∧ c.mode = .everyStep ∧
      w'.Calm thread ∧ w'.calls = w.calls ∧ w'.records thread = w.records thread ∧
      g.resume thread v {} w = ended thread
        (run { g with config := c } (passAt { g with config := c } thread p (entryAfter kind v) w')) := by
  obtain ⟨c, i, hlimit, mode, rfl, hres⟩ := h.resumption_eq pos
  refine ⟨c, reopened ⟨c, p.running thread c.metadata, i⟩ thread w, hlimit, mode, calm_reopened h.calm,
    calls_reopened h.calm, records_reopened, ?_⟩
  rw [Engine.resume, hres]
  rfl

/-- A thread that is resumed until it no longer pauses is answered with what it was headed for. -/
theorem Waits.pursue (hm : g.definition.Mirrors m g.providers thread given) {limit : Int} {kind : InterruptKind}
    {values : Nat → Value} (hv : ∀ k, given (values k)) (pos : 0 < limit) (h : g.Waits limit thread p kind x.1)
    (hp : IsPaused x.2) (hs : m.settle g.providers thread limit (limit - p.step).toNat p x.1.calls = goal) :
    ∃ n, (∀ k < n, IsPaused (g.pursue thread values x k).2) ∧ ¬IsPaused (g.pursue thread values x n).2 ∧
      (g.pursue thread values x n).2 = goal := by
  -- Every call that pauses again comes nearer to the end of the run.
  induction hn : rank limit p (entryAfter kind .null) using Nat.strongRecOn generalizing p kind x values with
  | ind n ih =>
    obtain ⟨c, w', rfl, mode, hcalm, hcalls, hrec, hres⟩ := h.resume_eq pos (values 0)
    have heads : Heads { g with config := c } m given thread goal p (entryAfter kind (values 0)) w' := by
      refine ⟨hcalm, h.nonneg, ?_, ?_, by rw [hcalls]; exact hs⟩
      · cases kind with
        | after => exact Or.inl rfl
        | dynamic | before => exact Or.inr ⟨values 0, hv 0, rfl⟩
      · obtain ⟨_, _, _, _, _, -, -, hlast⟩ := h.last
        exact ⟨_, by rw [hrec, hlast], rfl⟩
    rcases Heads.run (g := { g with config := c }) hm heads mode with
      ⟨hnot, hgoal⟩ | ⟨⟨hpaused, -, q, kind', hw, hsq, hlt⟩, -⟩
    · refine ⟨1, fun k hk => ?_, ?_, ?_⟩
      · rw [Nat.lt_one_iff.mp hk]
        exact hp
      · show ¬IsPaused (g.resume thread (values 0) {} x.1).2
        rw [hres]
        exact mt isPaused_mapError.mp hnot
      · show (g.resume thread (values 0) {} x.1).2 = goal
        rw [hres]
        exact hgoal
    · have nearer : rank c.recursionLimit q (entryAfter kind' .null) < n := by
        rw [← hn, ← rank_entryAfter c.recursionLimit p kind (values 0)]
        exact hlt
      obtain ⟨n', hbefore, hnot, hgoal⟩ := ih _ nearer (x := g.resume thread (values 0) {} x.1)
        (fun k => hv (k + 1)) (by rw [hres]; exact ⟨hw.calm.release, hw.nonneg, hw.last⟩)
        (by rw [hres]; exact isPaused_mapError.mpr hpaused) (by rw [hres]; exact hsq) rfl
      refine ⟨n' + 1, fun k hk => ?_, hnot, hgoal⟩
      cases k with
      | zero => exact hp
      | succ k => exact hbefore k (Nat.lt_of_succ_lt_succ hk)

/-! ### A thread from its start -/

variable {input : Value} {o : Overrides} {c : Config}

/-- What a start is refused for, or the run that it begins, where the thread is new. -/
theorem opening_of_fresh (input : Value) (hw : w.InMemory) (fresh : w.records thread = [])
    (ho : g.config.override o = .ok c) :
    g.opening thread input o w.store =
      match g.definition.schema.initialState input, g.definition.entryPoint? with
      | .error f, _ => .error f
      | .ok _, none => .error (.plain .assertion "")
      | .ok state, some node => .ok (c, { thread, node, state, metadata := c.metadata }) := by
  rw [opening, ho, Surroundings.load_eq hw, fresh]
  cases g.definition.schema.initialState input with
  | error f => rfl
  | ok state => cases g.definition.entryPoint? <;> rfl

/-- A start of a new thread heads for what the mirrored graph comes to. -/
theorem heads_opened (given : Value → Prop) (hw : w.Calm thread) (p : Position) (hp : p.step = 0)
    (metadata : Value) :
    g.Heads m given thread
      (m.settle g.providers thread g.config.recursionLimit g.config.recursionLimit.toNat p w.calls) p {}
      (g.opened (p.running thread metadata) [] w) := by
  have hrec := records_opened (g := g) (e := p.running thread metadata) hw.memory []
  have hlast : ((g.opened (p.running thread metadata) [] w).records thread).getLast? =
      some (g.snapshot (p.running thread metadata) (w.joined thread [])) := by
    rw [show (g.opened (p.running thread metadata) [] w).records thread = _ from hrec]
    exact List.getLast?_concat
  refine ⟨g.calm_opened hw, hp ▸ Int.le_refl 0, Or.inl rfl, ⟨_, hlast, rfl⟩, ?_⟩
  rw [g.calls_opened hw, hp, Int.sub_zero]

theorem start_of_refused {f : Fault} (h : g.opening thread input o w.store = .error f) :
    g.start thread input { overrides := o } w = (w, .error f) := by
  rw [start, h]

theorem start_of_opened (hw : w.InMemory) (names : o.checkNames = .ok ())
    (h : g.opening thread input o w.store = .ok (c, p.running thread c.metadata)) :
    g.start thread input { overrides := o } w = ended thread (run { g with config := c }
      (passAt { g with config := c } thread p {} (g.opened (p.running thread c.metadata) [] w))) := by
  have h' : g.opening thread input (CallOptions.mk o [] []).overrides w.store =
      .ok (c, p.running thread c.metadata) := h
  rw [start_of_opening hw h' names]
  rfl

/-- A run without pauses before and after nodes, of a graph whose nodes ask for nothing, comes to what the
    graph comes to. -/
theorem start_plain (hm : g.definition.Mirrors g.definition g.providers thread given) (hw : w.Calm thread)
    (names : o.checkNames = .ok ()) (mode : c.mode = .everyStep) (before : c.before = []) (after : c.after = [])
    (hp : p.step = 0) (h : g.opening thread input o w.store = .ok (c, p.running thread c.metadata)) :
    (g.start thread input { overrides := o } w).2 =
      g.definition.settle g.providers thread c.recursionLimit c.recursionLimit.toNat p w.calls := by
  have heads := heads_opened (g := { g with config := c }) (m := g.definition) given hw p hp c.metadata
  rw [start_of_opened hw.memory names h]
  rcases Heads.run (g := { g with config := c }) hm heads mode with ⟨-, hgoal⟩ | ⟨-, hwhy⟩
  · exact hgoal
  · rcases hwhy with hb | ha | ⟨p, calls, prompt, hs⟩
    · exact absurd before hb
    · exact absurd after ha
    · exact absurd hs (hm.unasking p calls prompt)

/-- Such a run of a sound graph has an outcome if its input fits. -/
theorem start_plain_isOk (hd : g.definition.Sound)
    (hm : g.definition.Mirrors g.definition g.providers thread given) (hw : w.Calm thread)
    (fresh : w.records thread = []) (ho : g.config.Accepts o c) (mode : c.mode = .everyStep)
    (before : c.before = []) (after : c.after = [])
    (fits : ∃ state, g.definition.schema.initialState input = .ok state) :
    ∃ outcome, (g.start thread input { overrides := o } w).2 = .ok outcome := by
  obtain ⟨node, he, hplace⟩ := hd.entry
  obtain ⟨state, hs⟩ := fits
  have h := opening_of_fresh input hw.memory fresh ho.override
  rw [hs, he] at h
  rw [start_plain (p := ⟨node, state, 0, []⟩) hm hw ho.names mode before after rfl h]
  exact hd.settle_isOk hplace

/-- A started run that is resumed until it no longer pauses is answered with what the mirrored graph comes to. -/
theorem pursue_opened (hm : g.definition.Mirrors m g.providers thread given) (hw : w.Calm thread)
    (names : o.checkNames = .ok ()) (mode : c.mode = .everyStep) (hp : p.step = 0) {values : Nat → Value} (hv : ∀ k, given (values k))
    (h : g.opening thread input o w.store = .ok (c, p.running thread c.metadata)) :
    ∃ n, (∀ k < n, IsPaused (g.pursue thread values (g.start thread input { overrides := o } w) k).2) ∧
      ¬IsPaused (g.pursue thread values (g.start thread input { overrides := o } w) n).2 ∧
      (g.pursue thread values (g.start thread input { overrides := o } w) n).2 =
        m.settle g.providers thread c.recursionLimit c.recursionLimit.toNat p w.calls := by
  have heads := heads_opened (g := { g with config := c }) (m := m) given hw p hp c.metadata
  rw [start_of_opened hw.memory names h]
  rcases Heads.run (g := { g with config := c }) hm heads mode with
    ⟨hnot, hgoal⟩ | ⟨⟨hpaused, pos, q, kind, hq, hsq, -⟩, -⟩
  · exact ⟨0, fun k hk => absurd hk (Nat.not_lt_zero k), mt isPaused_mapError.mp hnot, hgoal⟩
  · exact Waits.pursue hm hv pos ⟨hq.calm.release, hq.nonneg, hq.last⟩ (isPaused_mapError.mpr hpaused) hsq

/-- A run that is resumed until it no longer pauses takes finitely many resumptions, and is answered as a run
    of the mirrored graph that never pauses. -/
theorem pursue_eq_start (hm : g.definition.Mirrors m g.providers thread given) (hw : w.Calm thread)
    (fresh : w.records thread = []) (input : Value) {o' : Overrides} (ho : g.config.Accepts o c)
    (mode : c.mode = .everyStep) (ho' : g.config.Accepts o' { c with before := [], after := [] })
    {values : Nat → Value} (hv : ∀ k, given (values k)) :
    ∃ n, (∀ k < n, IsPaused (g.pursue thread values (g.start thread input { overrides := o } w) k).2) ∧
      ¬IsPaused (g.pursue thread values (g.start thread input { overrides := o } w) n).2 ∧
      (g.pursue thread values (g.start thread input { overrides := o } w) n).2 =
        (start { g with definition := m } thread input { overrides := o' } w).2 := by
  have ho₁ := opening_of_fresh (g := g) input hw.memory fresh ho.override
  have ho₂ := opening_of_fresh (g := { g with definition := m }) input hw.memory fresh ho'.override
  rw [hm.schema, hm.entry] at ho₁
  -- Both graphs refuse the same inputs, and then there is nothing to resume.
  have refused : ∀ f, g.opening thread input o w.store = .error f →
      opening { g with definition := m } thread input o' w.store = .error f →
      ¬IsPaused (g.start thread input { overrides := o } w).2 ∧ (g.start thread input { overrides := o } w).2 =
        (start { g with definition := m } thread input { overrides := o' } w).2 := by
    intro f h₁ h₂
    rw [start_of_refused h₁, start_of_refused h₂]
    refine ⟨?_, rfl⟩
    rintro ⟨_, ⟨⟩, _⟩
  cases hs : m.schema.initialState input with
  | error f =>
    rw [hs] at ho₁
    exact ⟨0, fun k hk => absurd hk (Nat.not_lt_zero k), refused f ho₁ (by rw [ho₂, hs])⟩
  | ok state =>
    cases he : m.entryPoint? with
    | none =>
      rw [hs, he] at ho₁
      exact ⟨0, fun k hk => absurd hk (Nat.not_lt_zero k), refused _ ho₁ (by rw [ho₂, hs, he])⟩
    | some node =>
      rw [hs, he] at ho₁ ho₂
      have plain := start_plain (g := { g with definition := m }) (c := { c with before := [], after := [] })
        (p := ⟨node, state, 0, []⟩) hm.plain hw ho'.names mode rfl rfl rfl ho₂
      rw [plain]
      exact pursue_opened (p := ⟨node, state, 0, []⟩) hm hw ho.names mode rfl hv ho₁

end Engine

end Workflow
