import Workflow.Proofs.Plain

/-! Nodes that ask. A node asks for input whenever it is entered by itself, and acts when it is entered again.
    Main statement: a run of a graph that asks at one node, resumed with the same value until it no longer
    pauses, is answered as a run of the graph whose node acts on that value at once
    (`pursue_eq_answered`). -/

namespace Workflow

namespace Definition

/-- The graph with other logic in the node of an id. -/
def withLogic (d : Definition) (id : String) (l : Logic) : Definition :=
  { d with nodes := d.nodes.map fun n => if n.id = id then { n with logic := some l } else n }

/-- The function node of an id asks for input before it acts, and all other logic is plain. -/
structure AsksAt (d : Definition) (id : String) (prompt : State → Value) (act : State → Value → Action Reply) :
    Prop where
  node : ∃ n, d.node? id = some n ∧ n.kind = .function ∧ n.logic = some (.asking prompt act)
  others : ∀ n ∈ d.nodes, n.id ≠ id → n.Plain

variable {d : Definition} {id x : String} {l : Logic} {n : Node} {ps : Providers} {thread : String}
  {p : Position} {calls : CallLog} {entry entry' : Entry} {prompt : State → Value}
  {act : State → Value → Action Reply} {v : Value}

theorem nodeIds_withLogic (d : Definition) (id : String) (l : Logic) : (d.withLogic id l).nodeIds = d.nodeIds := by
  simp only [nodeIds, withLogic, List.map_map]
  refine List.map_congr_left fun n _ => ?_
  by_cases h : n.id = id
  · rw [Function.comp_apply, if_pos h]
  · rw [Function.comp_apply, if_neg h]

theorem node?_withLogic (d : Definition) (id x : String) (l : Logic) : (d.withLogic id l).node? x =
    (d.node? x).map fun n => if n.id = id then { n with logic := some l } else n := by
  have same : ((fun n : Node => n.id == x) ∘ fun n => if n.id = id then { n with logic := some l } else n) =
      fun n => n.id == x := by
    funext n
    by_cases h : n.id = id
    · rw [Function.comp_apply, if_pos h]
    · rw [Function.comp_apply, if_neg h]
  simp only [node?, withLogic, List.find?_map, same]

theorem node?_withLogic_self (h : d.node? id = some n) :
    (d.withLogic id l).node? id = some { n with logic := some l } := by
  rw [node?_withLogic, h, Option.map_some, if_pos (id_of_node? h)]

theorem node?_withLogic_of_ne (h : x ≠ id) : (d.withLogic id l).node? x = d.node? x := by
  rw [node?_withLogic]
  cases hn : d.node? x with
  | none => rfl
  | some n => rw [Option.map_some, if_neg (id_of_node? hn ▸ h)]

theorem Sound.withLogic (h : d.Sound) (id : String) (l : Logic) : (d.withLogic id l).Sound where
  entry := by
    obtain ⟨s, hs, hplace⟩ := h.entry
    exact ⟨s, hs, by rw [IsPlace, nodeIds_withLogic]; exact hplace⟩
  leaves x hx := by
    rw [nodeIds_withLogic] at hx
    obtain ⟨e, he, hleads⟩ := h.leaves x hx
    refine ⟨e, he, fun state => ?_⟩
    obtain ⟨r, hr, hplace⟩ := hleads state
    exact ⟨r, hr, fun t ht => by rw [IsPlace, nodeIds_withLogic]; exact hplace t ht⟩

/-! ### Turns of the two graphs -/

/-- A function node whose logic is replaced does the same where both logics do. -/
theorem run_replaced {k : Logic} {s : State} {b c : NodeContext} (hk : n.kind = .function)
    (hl : n.logic = some k) (heq : k s c = l s b) (effects : Action.Effects) :
    n.run ps s c effects = ({ n with logic := some l } : Node).run ps s b effects := by
  obtain ⟨id, kind, logic, flags, messagesKey, metadata⟩ := n
  cases hk
  cases hl
  have haction : (Node.mk id .function (some k) flags messagesKey metadata).action s c =
      (Node.mk id .function (some l) flags messagesKey metadata).action s b :=
    congrArg (fun a : Action Reply => a.bind fun r =>
      .ofExcept ((Node.mk id .function none flags messagesKey metadata).outcome r)) heq
  have hwrap : (Node.mk id .function (some k) flags messagesKey metadata).wrap =
      (Node.mk id .function (some l) flags messagesKey metadata).wrap := rfl
  simp only [Node.run, haction, hwrap]

namespace AsksAt

variable (h : d.AsksAt id prompt act)
include h

/-- At its node, a graph that asks does what the graph does that acts at once, if it is entered with the value. -/
theorem turn_again (ps : Providers) (thread : String) (v : Value) (p : Position) (calls : CallLog) :
    d.turn ⟨ps, { resumed := true, value := v }⟩ thread p calls =
      (d.withLogic id fun s _ => act s v).turn { providers := ps } thread p calls := by
  obtain ⟨n, hn, hk, hl⟩ := h.node
  by_cases hp : p.node = id
  · subst hp
    rw [turn, turn, hn, node?_withLogic_self hn]
    dsimp only
    rw [run_replaced hk hl (l := fun s _ => act s v) (b := p.context thread {}) rfl]
    rfl
  · rw [turn, turn, node?_withLogic_of_ne hp]
    cases hn' : d.node? p.node with
    | none => rfl
    | some n' =>
      have plain := h.others n' (List.mem_of_find?_eq_some hn') (by rw [id_of_node? hn']; exact hp)
      have haction := plain.action_eq (s := p.state) (c := p.context thread { resumed := true, value := v })
        (b := p.context thread {}) rfl rfl rfl
      simp only [Node.run, haction]
      rfl

/-- Entered by itself, the node asks; all others do the same in both graphs. -/
theorem turn_first (ps : Providers) (thread : String) (v : Value) (p : Position) (calls : CallLog) :
    d.turn { providers := ps } thread p calls =
      (d.withLogic id fun s _ => act s v).turn { providers := ps } thread p calls ∨
    ∃ question, d.turn { providers := ps } thread p calls = ({ calls }, .suspended question) := by
  obtain ⟨n, hn, hk, hl⟩ := h.node
  by_cases hp : p.node = id
  · subst hp
    right
    refine ⟨prompt p.state, ?_⟩
    have haction : n.action p.state (p.context thread {}) = .done (.suspend (prompt p.state)) := by
      rw [Node.action, hk]
      dsimp only
      rw [Node.runLogic, hl]
      rfl
    rw [turn, hn]
    simp only [Node.run, haction]
    rfl
  · left
    rw [turn, turn, node?_withLogic_of_ne hp]
    rfl

/-- A graph that asks mirrors the one that acts on the value at once. -/
theorem mirrors (final : ∀ s, (act s v).Answers Reply.Final) (ps : Providers) (thread : String) :
    d.Mirrors (d.withLogic id fun s _ => act s v) ps thread (· = v) := by
  have asks : ∀ p calls,
      ((d.withLogic id fun s _ => act s v).turn { providers := ps } thread p calls).1.cancelled = false ∧
      ((d.withLogic id fun s _ => act s v).turn { providers := ps } thread p calls).1.forgotten = false ∧
      ∀ question, ((d.withLogic id fun s _ => act s v).turn { providers := ps } thread p calls).2 ≠
        .suspended question := by
    intro p calls
    by_cases hp : p.node = id
    · subst hp
      obtain ⟨n, hn, hk, -⟩ := h.node
      refine turn_of_answers (node?_withLogic_self hn) ?_
      rw [Node.action, show ({ n with logic := some fun s _ => act s v } : Node).kind = .function from hk]
      exact Node.answers_runLogic rfl (final p.state)
    · cases hn : d.node? p.node with
      | none =>
        rw [turn, node?_withLogic_of_ne hp, hn]
        exact ⟨rfl, rfl, fun _ => Stride.noConfusion⟩
      | some n =>
        have plain := h.others n (List.mem_of_find?_eq_some hn) (by rw [id_of_node? hn]; exact hp)
        exact turn_of_answers (by rw [node?_withLogic_of_ne hp, hn]) (plain.answers_action _ _)
  refine ⟨rfl, rfl, h.turn_first ps thread v, ?_, fun p calls => ⟨(asks p calls).1, (asks p calls).2.1⟩,
    fun p calls => (asks p calls).2.2⟩
  rintro _ rfl p calls
  exact h.turn_again ps thread _ p calls

end AsksAt

theorem inquiry_asks : inquiry.AsksAt "ask" (fun _ => .str "Which word?") fun _ v =>
    .done (.update (.ofFields [("words", v)])) where
  node := ⟨_, rfl, rfl, rfl⟩
  others n hn hne := by
    rw [List.mem_singleton.mp hn] at hne
    exact absurd rfl hne

end Definition

namespace Engine

/-- Where one node asks for input and all other logic is plain, the pauses do not show: a run that is resumed
    with one value until it no longer pauses takes finitely many resumptions, and is answered as one of the
    graph whose node acts on that value at once. Where the input fits, the answer is an outcome. -/
theorem pursue_eq_answered (g : Engine) (compiled : g.definition.Compiled) {id : String} {prompt : State → Value}
    {act : State → Value → Action Reply} (asks : g.definition.AsksAt id prompt act) (v : Value)
    (final : ∀ s, (act s v).Answers Reply.Final) {w : Surroundings} {thread : String} (calm : w.Calm thread)
    (fresh : w.records thread = []) (input : Value) {o : Overrides} {c : Config}
    (ho : g.config.Accepts o c) (mode : c.mode = .everyStep) (before : c.before = [])
    (after : c.after = []) :
    let answered : Engine := { g with definition := g.definition.withLogic id fun s _ => act s v }
    ∃ n, (∀ k < n, IsPaused (g.pursue thread (fun _ => v) (g.start thread input { overrides := o } w) k).2) ∧
      ¬IsPaused (g.pursue thread (fun _ => v) (g.start thread input { overrides := o } w) n).2 ∧
      (g.pursue thread (fun _ => v) (g.start thread input { overrides := o } w) n).2 =
        (answered.start thread input { overrides := o } w).2 ∧
      ((∃ state, g.definition.schema.initialState input = .ok state) →
        ∃ outcome, (answered.start thread input { overrides := o } w).2 = .ok outcome) := by
  intro answered
  have hm := asks.mirrors final g.providers thread
  have ho' : g.config.Accepts o { c with before := [], after := [] } := by
    cases c
    cases before
    cases after
    exact ho
  obtain ⟨n, hbefore, hnot, heq⟩ := pursue_eq_start hm calm fresh input ho mode ho' fun _ => rfl
  refine ⟨n, hbefore, hnot, heq, fun fits => ?_⟩
  exact start_plain_isOk (g := answered) (compiled.sound.withLogic id _) hm.plain calm fresh ho' mode rfl rfl fits

/-- A run that asks for two words. -/
theorem pursue_eq_answered_inquiry :
    let g : Engine := { definition := .inquiry }
    let act : Logic := fun _ _ => .done (.update (.ofFields [("words", .str "yes")]))
    let answered : Engine := { g with definition := g.definition.withLogic "ask" act }
    let start : Ended := g.start "t" .null {} {}
    start.2.toOption.map Outcome.status = some .paused ∧ g.definition.Compiled ∧
    ∃ n, (∀ k < n, IsPaused (g.pursue "t" (fun _ => .str "yes") start k).2) ∧
      ¬IsPaused (g.pursue "t" (fun _ => .str "yes") start n).2 ∧
      (g.pursue "t" (fun _ => .str "yes") start n).2 = (answered.start "t" .null {} {}).2 ∧
      ((∃ state, g.definition.schema.initialState .null = .ok state) →
        ∃ outcome, (answered.start "t" .null {} {}).2 = .ok outcome) := by
  intro g act answered start
  have compiled : g.definition.Compiled := Definition.gathering_compiled _
  exact ⟨by decide +kernel, compiled, g.pursue_eq_answered compiled Definition.inquiry_asks (.str "yes")
    (fun _ _ => Reply.noConfusion) (Surroundings.calm_empty "t") rfl .null ⟨rfl, rfl⟩ rfl rfl rfl⟩

end Engine

end Workflow
