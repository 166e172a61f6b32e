import Workflow.Engine.Loop

/-! The walk of a graph: where a run goes, without stores, observers, pauses and bounds. One step runs a
    node in a state, merges its update and takes its edge. Main statement: what an engine does at a node
    is what the step of the walk says (`visit_eq`). -/

namespace Workflow

/-- Where a walk has come to: the node that runs next, and the steps and nodes before it. -/
structure Position where
  node : String
  state : State
  step : Int := 0
  history : List String := []

/-- What the step from a position comes to: the next position, a request for input, a failure with how far the
    step came, or a node or an edge that the graph does not have. -/
inductive Stride where
  | reached (p : Position)
  | suspended (prompt : Value)
  | failed (p : Position) (f : Failure)
  | lost (f : Fault)

/-- The providers that a node is run with, and how it is entered. -/
structure Invocation where
  providers : Providers
  entry : Entry := {}

/-- What the logic of a node is told. -/
def Position.context (p : Position) (thread : String) (entry : Entry) : NodeContext :=
  { node := p.node
    thread
    step := p.step
    resumeValue := entry.value
    resumed := entry.resumed }

namespace Execution

/-- How far the run has come. -/
def position (e : Execution) : Position := ⟨e.node, e.state, e.step, e.history⟩

/-- The run when it has come to a position. -/
def arrived (e : Execution) (p : Position) : Execution :=
  { e with node := p.node, state := p.state, step := p.step, history := p.history }

end Execution

namespace Definition

/-- What the answer of the node at a position makes of the step. -/
def stride (d : Definition) (p : Position) (answer : Except Failure StepOutcome) : Stride :=
  match answer with
  | .error f => .failed p f
  | .ok (.suspend prompt) => .suspended prompt
  | .ok (.update values) =>
    match d.schema.applyValue p.state values with
    | .error f => .failed p (Execution.invalidUpdate p.node f)
    | .ok state =>
      let next : Position := { node := p.node, state, step := p.step + 1, history := p.history ++ [p.node] }
      match d.outgoing? p.node with
      | none => .lost (.key (.str p.node))
      | some edge =>
        match edge.next? state with
        | none => .lost (.plain .assertion "")
        | some (.error f) => .failed next f
        | some (.ok target) => .reached { next with node := target }

/-- The step from a position, after the calls that providers served before, with what the node does to
    its surroundings. -/
def turn (d : Definition) (i : Invocation) (thread : String) (p : Position) (calls : CallLog := []) :
    Action.Effects × Stride :=
  match d.node? p.node with
  | none => ({ calls }, .lost (.key (.str p.node)))
  | some n =>
    let (effects, answer) := n.run i.providers p.state (p.context thread i.entry) { calls }
    (effects, d.stride p answer)

/-- Where a walk with an input starts. -/
def origin? (d : Definition) (input : Value) : Option Position := do
  let node ← d.entryPoint?
  let state ← (d.schema.initialState input).toOption
  return { node, state }

/-- The position after a number of steps of the walk with an input, where `invocations` tells how the node
    of each step is run. `none` if the walk comes to an end before. -/
def walk (d : Definition) (thread : String) (input : Value) (invocations : Nat → Invocation) :
    Nat → Option Position
  | 0 => d.origin? input
  | n + 1 => (d.walk thread input invocations n).bind fun p =>
      match (d.turn (invocations n) thread p).2 with
      | .reached q => some q
      | _ => none

variable {d : Definition} {thread : String} {input : Value} {i j : Nat → Invocation} {p q : Position}
  {n : Nat}

/-- A stride that reaches a position has run the node of the position that it started from. -/
theorem step_of_reached {answer : Except Failure StepOutcome} (h : d.stride p answer = .reached q) :
    q.step = p.step + 1 ∧ q.history = p.history ++ [p.node] := by
  unfold stride at h
  split at h
  · cases h
  · cases h
  · split at h
    · cases h
    · dsimp only at h
      split at h
      · cases h
      · split at h <;> cases h
        exact ⟨rfl, rfl⟩

theorem step_of_turn_reached {k : Invocation} {calls : CallLog} (h : (d.turn k thread p calls).2 = .reached q) :
    q.step = p.step + 1 ∧ q.history = p.history ++ [p.node] := by
  unfold turn at h
  split at h
  · cases h
  · exact step_of_reached h

theorem stride_unfit {values : Value} {f : Fault} (h : d.schema.applyValue p.state values = .error f) :
    d.stride p (.ok (.update values)) = .failed p (Execution.invalidUpdate p.node f) := by
  unfold stride
  dsimp only
  rw [h]

theorem stride_astray {values : Value} {state : State} {e : Edge} {f : Failure}
    (hs : d.schema.applyValue p.state values = .ok state) (he : d.outgoing? p.node = some e)
    (h : e.next? state = some (.error f)) : d.stride p (.ok (.update values)) =
      .failed { node := p.node, state, step := p.step + 1, history := p.history ++ [p.node] } f := by
  unfold stride
  dsimp only
  rw [hs]
  dsimp only
  rw [he]
  dsimp only
  rw [h]

theorem walk_succ (h : d.walk thread input i n = some p) (hq : (d.turn (i n) thread p).2 = .reached q) :
    d.walk thread input i (n + 1) = some q := by
  rw [walk, h, Option.bind_some, hq]

/-- A walk of `n` steps has run `n` nodes. -/
theorem length_of_walk (h : d.walk thread input i n = some p) : p.history.length = n ∧ p.step = n := by
  induction n generalizing p with
  | zero =>
    simp only [walk, origin?, Option.bind_eq_bind, Option.bind_eq_some_iff, Option.pure_def,
      Option.some.injEq] at h
    obtain ⟨node, -, state, -, rfl⟩ := h
    exact ⟨rfl, rfl⟩
  | succ n ih =>
    rw [walk, Option.bind_eq_some_iff] at h
    obtain ⟨r, hr, h⟩ := h
    obtain ⟨hlen, hstep⟩ := ih hr
    split at h
    · rename_i q hq
      cases h
      obtain ⟨h1, h2⟩ := step_of_turn_reached hq
      rw [h1, h2, List.length_append, List.length_singleton, hlen, hstep]
      exact ⟨rfl, by simp⟩
    · cases h

/-- The first `n` steps depend on the first `n` invocations. -/
theorem walk_congr (h : ∀ m < n, i m = j m) : d.walk thread input i n = d.walk thread input j n := by
  induction n with
  | zero => rfl
  | succ n ih => rw [walk, walk, ih fun m hm => h m (Nat.lt_succ_of_lt hm), h n (Nat.lt_succ_self n)]

end Definition

namespace Engine

/-! ### What an engine does -/

/-- How an engine goes on after a step. -/
def follow (g : Engine) (e : Execution) (w : Surroundings) : Stride → Surroundings × Visit
  | .reached p => g.move e.node p.node (e.arrived p) w
  | .suspended prompt =>
    if w.isCancelled e.thread then (w, .fail e (.cancelled e.thread))
    else (w, .pause e e.node .dynamic prompt)
  | .failed p f => (w, .fail (e.arrived p) f)
  | .lost f => (w, .raise f)

/-- A static pause keeps the node from being run. -/
def holds (g : Engine) (e : Execution) (entry : Entry) : Bool :=
  !entry.resumed && g.config.before.contains e.node

theorem advance_eq (g : Engine) (e : Execution) (values : Value) (w : Surroundings) :
    g.advance e values w = g.follow e w (g.definition.stride e.position (.ok (.update values))) := by
  simp only [advance, Execution.merged, Definition.stride, Execution.position]
  cases g.definition.schema.applyValue e.state values with
  | error f => rfl
  | ok state =>
    dsimp only
    cases g.definition.outgoing? e.node with
    | none => rfl
    | some edge =>
      dsimp only
      cases edge.next? state with
      | none => rfl
      | some r => cases r <;> rfl

/-- What an engine does at a node is what the step of the walk says, unless the run pauses there. -/
theorem visit_eq (g : Engine) (e : Execution) (entry : Entry) (w : Surroundings) :
    g.visit e entry w =
      if g.holds e entry then (w, .pause e e.node .before .null)
      else
        let (effects, stride) := g.definition.turn ⟨g.providers, entry⟩ e.thread e.position w.calls
        g.follow e (w.absorb e.thread effects) stride := by
  unfold visit holds
  split
  · rfl
  · unfold Definition.turn
    simp only [Execution.position]
    cases g.definition.node? e.node with
    | none => simp [Surroundings.absorb, follow]
    | some n =>
      simp only [Surroundings.perform, context, Position.context]
      generalize n.run g.providers e.state _ { calls := w.calls } = r
      obtain ⟨effects, answer⟩ := r
      cases answer with
      | error f => rfl
      | ok o =>
        cases o with
        | update values => exact advance_eq g e values _
        | suspend prompt => rfl

end Engine

end Workflow
