import Workflow.Proofs.Pauses

/-! Plain logic, which does not look at how its node is entered, asks for nothing, and neither ends nor
    forgets its thread. Main statement: where all logic is plain, a run that pauses before and after nodes
    and is resumed until it no longer pauses is answered as one that never pauses (`pursue_eq_unpaused`). -/

namespace Workflow

/-! ### What actions may answer -/

namespace Action

variable {α β : Type} {P : α → Prop} {Q : β → Prop}

/-- Whatever the action is told, it neither ends nor forgets its thread, and what it answers is as `P` says. -/
def Answers (P : α → Prop) : Action α → Prop
  | .done a => P a
  | .raise _ => True
  | .call _ _ _ next => ∀ r, (next r).Answers P
  | .resolve _ next => ∀ k, (next k).Answers P
  | .enabled _ next => ∀ b, (next b).Answers P
  | .cancel _ | .forget _ => False
  | .log _ next => next.Answers P

theorem Answers.bind {a : Action α} {f : α → Action β} (ha : a.Answers P) (hf : ∀ x, P x → (f x).Answers Q) :
    (a.bind f).Answers Q := by
  induction a with
  | done x => exact hf x ha
  | raise => trivial
  | call _ _ _ next ih => exact fun r => ih r (ha r)
  | resolve _ next ih => exact fun k => ih k (ha k)
  | enabled _ next ih => exact fun b => ih b (ha b)
  | cancel | forget => exact ha.elim
  | log _ next ih => exact ih ha

theorem answers_ofExcept {r : Except Fault α} (h : ∀ x, r = .ok x → P x) : (ofExcept r).Answers P := by
  cases r with
  | ok x => exact h x rfl
  | error => trivial

/-- What an action does to its surroundings, and what it answers. -/
theorem Answers.run {a : Action α} (ha : a.Answers P) (ps : Providers) (flags : CapabilityFlags) (e : Effects) :
    (a.run ps flags e).1.cancelled = e.cancelled ∧ (a.run ps flags e).1.forgotten = e.forgotten ∧
      ∀ x, (a.run ps flags e).2 = .ok x → P x := by
  induction a generalizing e with
  | done x =>
    refine ⟨rfl, rfl, ?_⟩
    rintro _ ⟨⟩
    exact ha
  | raise =>
    refine ⟨rfl, rfl, ?_⟩
    rintro _ ⟨⟩
  | call _ _ _ next ih => exact ih _ (ha _) _
  | resolve _ next ih => exact ih _ (ha _) _
  | enabled _ next ih => exact ih _ (ha _) _
  | cancel | forget => exact ha.elim
  | log _ next ih => exact ih ha _

end Action

/-! ### Plain logic -/

/-- The answer asks for nothing. -/
def Reply.Final (r : Reply) : Prop := ∀ prompt, r ≠ .suspend prompt

/-- The step comes to no request for input. -/
def StepOutcome.Final (o : StepOutcome) : Prop := ∀ prompt, o ≠ .suspend prompt

/-- Logic that is a function of the state and of the names of its node and thread and the number of its step,
    asks for nothing, and neither ends nor forgets its thread. -/
structure Logic.Plain (l : Logic) : Prop where
  context : ∀ s (c c' : NodeContext), c.node = c'.node → c.thread = c'.thread → c.step = c'.step → l s c = l s c'
  final : ∀ s c, (l s c).Answers Reply.Final

namespace Node

variable {n : Node} {s : State} {b c : NodeContext}

def Plain (n : Node) : Prop := ∀ l, n.logic = some l → l.Plain

theorem final_outcome {r : Reply} (hr : r.Final) {o : StepOutcome} (h : n.outcome r = .ok o) : o.Final := by
  cases r with
  | nothing | update =>
    cases h
    exact fun _ => StepOutcome.noConfusion
  | suspend prompt => exact absurd rfl (hr prompt)
  | unfit => cases h

/-- A function node asks for input only if its logic does. -/
theorem answers_runLogic {l : Logic} (hl : n.logic = some l) (h : (l s c).Answers Reply.Final) :
    (n.runLogic s c).Answers StepOutcome.Final := by
  rw [runLogic, hl]
  exact h.bind fun r hr => Action.answers_ofExcept fun o ho => final_outcome hr ho

theorem answers_serveAll (index : Nat) (calls : List Value) :
    (ToolCall.serveAll index calls).Answers fun _ => True := by
  have serve : ∀ i call, (ToolCall.serve i call).Answers fun _ => True := by
    intro i call
    unfold ToolCall.serve
    split
    · trivial
    · refine Action.Answers.bind (P := fun _ => True) ?_ fun _ _ => trivial
      intro k
      cases k with
      | none => trivial
      | some k =>
        dsimp only
        unfold Action.invoke
        split
        · exact fun _ => trivial
        · trivial
  induction calls generalizing index with
  | nil => trivial
  | cons call calls ih =>
    exact (serve index call).bind fun _ _ => (ih (index + 1)).bind fun _ _ => trivial

theorem answers_runTools (n : Node) (s : State) : (n.runTools s).Answers StepOutcome.Final := by
  unfold runTools
  dsimp only
  split
  · trivial
  · exact fun _ => StepOutcome.noConfusion
  · exact (answers_serveAll 0 _).bind fun _ _ => fun _ => StepOutcome.noConfusion

theorem Plain.answers_action (h : n.Plain) (s : State) (c : NodeContext) :
    (n.action s c).Answers StepOutcome.Final := by
  unfold action
  split
  · cases hl : n.logic with
    | none =>
      rw [runLogic, hl]
      trivial
    | some l => exact answers_runLogic hl ((h l hl).final s c)
  · exact n.answers_runTools s

/-- A plain node does the same however it is entered. -/
theorem Plain.action_eq (h : n.Plain) (hn : c.node = b.node) (ht : c.thread = b.thread) (hs : c.step = b.step) :
    n.action s c = n.action s b := by
  unfold action
  split
  · cases hl : n.logic with
    | none => rw [runLogic, runLogic, hl]
    | some l =>
      rw [runLogic, runLogic, hl]
      dsimp only
      rw [(h l hl).context s c b hn ht hs]
  · rfl

theorem run_of_answers (h : (n.action s c).Answers StepOutcome.Final) (ps : Providers)
    (effects : Action.Effects) : (n.run ps s c effects).1.cancelled = effects.cancelled ∧
      (n.run ps s c effects).1.forgotten = effects.forgotten ∧
      ∀ prompt, (n.run ps s c effects).2 ≠ .ok (.suspend prompt) := by
  obtain ⟨hc, hf, ho⟩ := h.run ps n.flags effects
  refine ⟨hc, hf, fun prompt hp => ?_⟩
  unfold run at hp
  dsimp only at hp
  cases hr : ((n.action s c).run ps n.flags effects).2 with
  | error f =>
    rw [hr] at hp
    cases hp
  | ok o =>
    rw [hr] at hp
    cases hp
    exact ho _ hr prompt rfl

end Node

namespace Definition

variable {d : Definition} {ps : Providers} {thread : String} {p : Position} {calls : CallLog} {entry : Entry}

def Plain (d : Definition) : Prop := ∀ n ∈ d.nodes, n.Plain

theorem stride_ne_suspended {answer : Except Failure StepOutcome} (h : ∀ prompt, answer ≠ .ok (.suspend prompt))
    (prompt : Value) : d.stride p answer ≠ .suspended prompt := by
  intro hs
  unfold stride at hs
  split at hs
  · cases hs
  · exact h _ rfl
  · split at hs
    · cases hs
    · dsimp only at hs
      split at hs
      · cases hs
      · split at hs <;> cases hs

/-- What a step of a node comes to whose action asks for nothing. -/
theorem turn_of_answers {n : Node} (hn : d.node? p.node = some n)
    (h : (n.action p.state (p.context thread entry)).Answers StepOutcome.Final) :
    (d.turn ⟨ps, entry⟩ thread p calls).1.cancelled = false ∧
      (d.turn ⟨ps, entry⟩ thread p calls).1.forgotten = false ∧
      ∀ prompt, (d.turn ⟨ps, entry⟩ thread p calls).2 ≠ .suspended prompt := by
  obtain ⟨hc, hf, hs⟩ := Node.run_of_answers h ps { calls }
  rw [turn, hn]
  exact ⟨hc, hf, stride_ne_suspended hs⟩

/-- A plain graph mirrors itself, whatever its nodes are given. -/
theorem Plain.mirrors (h : d.Plain) (ps : Providers) (thread : String) (given : Value → Prop) :
    d.Mirrors d ps thread given := by
  have asks : ∀ p calls, (d.turn { providers := ps } thread p calls).1.cancelled = false ∧
      (d.turn { providers := ps } thread p calls).1.forgotten = false ∧
      ∀ prompt, (d.turn { providers := ps } thread p calls).2 ≠ .suspended prompt := by
    intro p calls
    cases hn : d.node? p.node with
    | none =>
      rw [turn, hn]
      exact ⟨rfl, rfl, fun _ => Stride.noConfusion⟩
    | some n => exact turn_of_answers hn ((h n (List.mem_of_find?_eq_some hn)).answers_action _ _)
  refine ⟨rfl, rfl, fun _ _ => Or.inl rfl, fun v _ p calls => ?_, fun p calls => ?_, fun p calls => ?_⟩
  · unfold turn
    cases hn : d.node? p.node with
    | none => rfl
    | some n =>
      have haction := (h n (List.mem_of_find?_eq_some hn)).action_eq (s := p.state)
        (c := p.context thread { resumed := true, value := v }) (b := p.context thread {}) rfl rfl rfl
      simp only [Node.run, haction]
  · exact ⟨(asks p calls).1, (asks p calls).2.1⟩
  · exact (asks p calls).2.2

theorem gathering_plain {l : Logic} (h : l.Plain) : (gathering l).Plain := by
  intro n hn l' hl
  rw [List.mem_singleton.mp hn] at hl
  cases hl
  exact h

end Definition

namespace Engine

/-- Where all logic is plain, pauses before and after nodes do not show: a run that is resumed, with whatever
    values, until it no longer pauses takes finitely many resumptions, and is answered as one that never
    pauses. Where the input fits, the answer is an outcome. -/
theorem pursue_eq_unpaused (g : Engine) (compiled : g.definition.Compiled) (plain : g.definition.Plain)
    {w : Surroundings} {thread : String} (calm : w.Calm thread) (fresh : w.records thread = []) (input : Value)
    {o o' : Overrides} {c : Config} (ho : g.config.Accepts o c) (mode : c.mode = .everyStep)
    (ho' : g.config.Accepts o' { c with before := [], after := [] }) (values : Nat → Value) :
    ∃ n, (∀ k < n, IsPaused (g.pursue thread values (g.start thread input { overrides := o } w) k).2) ∧
      ¬IsPaused (g.pursue thread values (g.start thread input { overrides := o } w) n).2 ∧
      (g.pursue thread values (g.start thread input { overrides := o } w) n).2 =
        (g.start thread input { overrides := o' } w).2 ∧
      ((∃ state, g.definition.schema.initialState input = .ok state) →
        ∃ outcome, (g.start thread input { overrides := o' } w).2 = .ok outcome) := by
  have hm := plain.mirrors g.providers thread fun _ => True
  obtain ⟨n, hbefore, hnot, heq⟩ := pursue_eq_start hm calm fresh input ho mode ho' fun k => trivial
  exact ⟨n, hbefore, hnot, heq, fun fits => start_plain_isOk compiled.sound hm calm fresh ho' mode rfl rfl fits⟩

/-- A run that is to pause before and after its only node, which gathers a word each time. -/
theorem pursue_eq_unpaused_gathering :
    let g : Engine := { definition := .gathering fun _ _ => .done (.update (.ofFields [("words", .str "tick")])) }
    let o : Overrides := Config.kept { before := ["ask"], after := ["ask"] }
    let start : Ended := g.start "t" .null { overrides := o } {}
    start.2.toOption.map Outcome.status = some .paused ∧ g.definition.Compiled ∧ g.definition.Plain ∧
    ∃ n, (∀ k < n, IsPaused (g.pursue "t" (fun _ => .null) start k).2) ∧
      ¬IsPaused (g.pursue "t" (fun _ => .null) start n).2 ∧
      (g.pursue "t" (fun _ => .null) start n).2 = (g.start "t" .null {} {}).2 ∧
      ((∃ state, g.definition.schema.initialState .null = .ok state) →
        ∃ outcome, (g.start "t" .null {} {}).2 = .ok outcome) := by
  intro g o start
  have compiled : g.definition.Compiled := Definition.gathering_compiled _
  have plain : g.definition.Plain := Definition.gathering_plain
    ⟨fun _ _ _ _ _ _ => rfl, fun _ _ _ => Reply.noConfusion⟩
  exact ⟨by decide +kernel, compiled, plain, g.pursue_eq_unpaused compiled plain (Surroundings.calm_empty "t") rfl
    .null ⟨Config.override_kept _ (by decide), rfl⟩ rfl ⟨rfl, rfl⟩ fun _ => .null⟩

end Engine

end Workflow
