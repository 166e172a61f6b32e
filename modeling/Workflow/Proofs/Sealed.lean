import Workflow.Proofs.Fleet

/-! # Sealed capabilities

A node asks providers only for kinds that its flags allow. Which kinds it asks for is kept by the run itself, among its
effects: all of them are allowed, only their providers are called, and the run depends on no other provider
(`Action.asks_run`). So what an engine answers does not depend on providers of kinds that none of its nodes may use
(`sealed_capabilities`). -/

namespace Workflow

namespace Providers

variable {ps qs : Providers} {kind other : CapabilityKind} {flags : CapabilityFlags}

/-- The tables have the same providers of the kinds. -/
def AgreeOn (kinds : CapabilityKind → Prop) (ps qs : Providers) : Prop := ∀ k, kinds k → ps.get? k = qs.get? k

def serves (ps : Providers) (tool : String) (kind : CapabilityKind) : Bool :=
  ((ps.get? kind).map fun p => p.supports tool).getD false

theorem mem_of_mem_sought {tool : String} {kinds : List CapabilityKind} (h : kind ∈ ps.sought tool kinds) :
    kind ∈ kinds := by
  induction kinds with
  | nil => exact h
  | cons k ks ih =>
    simp only [sought, List.mem_cons] at h ⊢
    rcases h with h | h
    · exact .inl h
    · split at h
      · cases h
      · exact .inr (ih h)

theorem sought_cons (ps : Providers) (tool : String) (k : CapabilityKind) (ks : List CapabilityKind) :
    ps.sought tool (k :: ks) = k :: if ps.serves tool k then [] else ps.sought tool ks := rfl

/-- A search looks at no provider but those it asks. -/
theorem find?_serves_congr {tool : String} {kinds : List CapabilityKind} (h : AgreeOn (· ∈ ps.sought tool kinds) ps qs) :
    kinds.find? (ps.serves tool) = kinds.find? (qs.serves tool) ∧ ps.sought tool kinds = qs.sought tool kinds := by
  induction kinds with
  | nil => exact ⟨rfl, rfl⟩
  | cons k ks ih =>
    have here : ps.serves tool k = qs.serves tool k := by
      rw [serves, serves, h k List.mem_cons_self]
    rw [sought_cons] at h
    rw [List.find?_cons, List.find?_cons, sought_cons, sought_cons, ← here]
    cases served : ps.serves tool k with
    | true => exact ⟨rfl, rfl⟩
    | false =>
      rw [served, if_neg Bool.false_ne_true] at h
      obtain ⟨found, same⟩ := ih fun k' hk' => h k' (List.mem_cons_of_mem k hk')
      exact ⟨found, congrArg (k :: ·) same⟩

theorem resolve_eq (ps : Providers) (flags : CapabilityFlags) (tool : String) :
    ps.resolve flags tool = flags.toolKinds.find? (ps.serves tool) := rfl

theorem allows_of_mem_toolKinds (h : kind ∈ flags.toolKinds) : flags.allows kind = true := (List.mem_filter.mp h).2

theorem get?_set_of_ne (ps : Providers) (p : Provider) (h : other ≠ kind) :
    (ps.set kind p).get? other = ps.get? other := by
  induction ps with
  | nil => simp [set, get?, h]
  | cons q ps ih =>
    obtain ⟨k, r⟩ := q
    simp only [get?] at ih
    by_cases hk : k = kind
    · subst hk
      have differs : (other == k) = false := beq_false_of_ne h
      simp [set, get?, List.lookup_cons, differs]
    · simp only [set, if_neg hk, get?, List.lookup_cons, ih]

/-- Tables that agree do so with one more provider in both. -/
theorem AgreeOn.set {kinds : CapabilityKind → Prop} (h : AgreeOn kinds ps qs) (kind : CapabilityKind) (p : Provider) :
    AgreeOn kinds (ps.set kind p) (qs.set kind p) := by
  intro k hk
  by_cases same : k = kind
  · rw [same, get?_set_self, get?_set_self]
  · rw [get?_set_of_ne ps p same, get?_set_of_ne qs p same, h k hk]

/-- The providers of a call are refused for both tables, or make tables of them that agree. -/
theorem AgreeOn.layer {kinds : CapabilityKind → Prop} (h : AgreeOn kinds ps qs) (added : List (String × Provider)) :
    (∃ f, ps.layer added = .error f ∧ qs.layer added = .error f) ∨
      ∃ ps' qs', ps.layer added = .ok ps' ∧ qs.layer added = .ok qs' ∧ AgreeOn kinds ps' qs' := by
  induction added generalizing ps qs with
  | nil => exact .inr ⟨ps, qs, rfl, rfl, h⟩
  | cons a added ih =>
    obtain ⟨name, p⟩ := a
    simp only [Providers.layer]
    cases CapabilityKind.parse (.str name) with
    | error f => exact .inl ⟨f, rfl, rfl⟩
    | ok kind => exact ih (h.set kind p)

end Providers

/-! ### What an action asks for -/

namespace Action

variable {α : Type} {ps qs : Providers} {flags : CapabilityFlags} {a : Action α} {e : Effects}

theorem dispatch_congr {kind : CapabilityKind} (h : flags.allows kind = true → ps.get? kind = qs.get? kind)
    (log : CallLog) (c : Call) (callId : Value) :
    ps.dispatch flags log kind c callId = qs.dispatch flags log kind c callId := by
  unfold Providers.dispatch
  cases allowed : flags.allows kind with
  | false => rfl
  | true => rw [h allowed]

theorem enabled_congr {kind : CapabilityKind} (h : flags.allows kind = true → ps.get? kind = qs.get? kind) :
    ps.enabled flags kind = qs.enabled flags kind := by
  unfold Providers.enabled
  cases allowed : flags.allows kind with
  | false => rfl
  | true => rw [h allowed]

theorem mem_lookedUp {k kind : CapabilityKind} :
    k ∈ Providers.lookedUp flags kind ↔ k = kind ∧ flags.allows kind = true := by
  rw [Providers.lookedUp]
  split
  · rename_i h
    simp [h]
  · rename_i h
    simp [h]

/-- A run of the action from the effects asks for the kinds, in this order. All of them are allowed; what is served are
    calls of their providers; and with whatever other table that has the same providers of these kinds, the action does
    and answers the same. -/
structure Asks (ps : Providers) (flags : CapabilityFlags) (a : Action α) (e : Effects) (asked : List CapabilityKind) :
    Prop where
  told : (a.run ps flags e).1.asked = e.asked ++ asked
  allowed : ∀ k ∈ asked, flags.allows k = true
  served : ∃ served, (a.run ps flags e).1.calls = e.calls ++ served ∧
    ∀ x ∈ served, ∃ k ∈ asked, ∃ p, ps.get? k = some p ∧ x.1 = p.mark
  congr : ∀ qs, Providers.AgreeOn (· ∈ asked) ps qs → a.run ps flags e = a.run qs flags e

/-- A request is served by the provider of its kind, if the kind is allowed and has one. -/
theorem served_dispatch (ps : Providers) (flags : CapabilityFlags) (log : CallLog) (kind : CapabilityKind) (c : Call)
    (callId : Value) : ∃ served, (ps.dispatch flags log kind c callId).1 = log ++ served ∧
      ∀ x ∈ served, ∃ k ∈ Providers.lookedUp flags kind, ∃ p, ps.get? k = some p ∧ x.1 = p.mark := by
  have unserved : (ps.dispatch flags log kind c callId).1 = log → ∃ served,
      (ps.dispatch flags log kind c callId).1 = log ++ served ∧
        ∀ x ∈ served, ∃ k ∈ Providers.lookedUp flags kind, ∃ p, ps.get? k = some p ∧ x.1 = p.mark :=
    fun same => ⟨[], by rw [same, List.append_nil], fun x hx => absurd hx List.not_mem_nil⟩
  cases allowed : flags.allows kind with
  | false => exact unserved (Providers.dispatch_of_not_allows allowed)
  | true =>
    cases hp : ps.get? kind with
    | none => exact unserved (by simp [Providers.dispatch, allowed, hp])
    | some p =>
      refine ⟨[(p.mark, c)], by simp [Providers.dispatch, allowed, hp], fun x hx => ?_⟩
      rw [List.mem_singleton.mp hx]
      exact ⟨kind, mem_lookedUp.mpr ⟨rfl, allowed⟩, p, hp, rfl⟩

theorem asks_run (ps : Providers) (flags : CapabilityFlags) (a : Action α) (e : Effects) :
    ∃ asked, Asks ps flags a e asked := by
  induction a generalizing e with
  | done | raise =>
    exact ⟨[], (List.append_nil _).symm, fun _ h => absurd h List.not_mem_nil,
      ⟨[], (List.append_nil _).symm, fun _ h => absurd h List.not_mem_nil⟩, fun _ _ => rfl⟩
  | call kind c callId next ih =>
    obtain ⟨asked, told, allowed, ⟨later, calls, from'⟩, congr⟩ := ih (ps.dispatch flags e.calls kind c callId).2
      { e with
        calls := (ps.dispatch flags e.calls kind c callId).1, asked := e.asked ++ Providers.lookedUp flags kind }
    obtain ⟨now, more, fromNow⟩ := served_dispatch ps flags e.calls kind c callId
    refine ⟨Providers.lookedUp flags kind ++ asked, ?_, fun k hk => ?_, ⟨now ++ later, ?_, fun x hx => ?_⟩, fun qs agree => ?_⟩
    · rw [run, told, List.append_assoc]
    · exact (List.mem_append.mp hk).elim (fun h => (mem_lookedUp.mp h).1 ▸ (mem_lookedUp.mp h).2) (allowed k)
    · rw [run, calls, more, List.append_assoc]
    · rcases List.mem_append.mp hx with hx | hx
      · obtain ⟨k, hk, asked⟩ := fromNow x hx
        exact ⟨k, List.mem_append_left _ hk, asked⟩
      · obtain ⟨k, hk, asked⟩ := from' x hx
        exact ⟨k, List.mem_append_right _ hk, asked⟩
    · have same := dispatch_congr
        (fun allowed => agree kind (List.mem_append_left _ (mem_lookedUp.mpr ⟨rfl, allowed⟩))) e.calls c callId
      simp only [run, ← same]
      exact congr qs fun k hk => agree k (List.mem_append_right _ hk)
  | resolve tool next ih =>
    obtain ⟨asked, told, allowed, ⟨later, calls, from'⟩, congr⟩ := ih (ps.resolve flags tool)
      { e with asked := e.asked ++ ps.sought tool flags.toolKinds }
    refine ⟨ps.sought tool flags.toolKinds ++ asked, ?_, fun k hk => ?_, ⟨later, calls, fun x hx => ?_⟩,
      fun qs agree => ?_⟩
    · rw [run, told, List.append_assoc]
    · exact (List.mem_append.mp hk).elim
        (fun h => Providers.allows_of_mem_toolKinds (Providers.mem_of_mem_sought h)) (allowed k)
    · obtain ⟨k, hk, asked⟩ := from' x hx
      exact ⟨k, List.mem_append_right _ hk, asked⟩
    · obtain ⟨found, same⟩ := Providers.find?_serves_congr fun k hk => agree k (List.mem_append_left _ hk)
      simp only [run, Providers.resolve_eq, ← found, ← same]
      exact congr qs fun k hk => agree k (List.mem_append_right _ hk)
  | enabled kind next ih =>
    obtain ⟨asked, told, allowed, ⟨later, calls, from'⟩, congr⟩ := ih (ps.enabled flags kind)
      { e with asked := e.asked ++ Providers.lookedUp flags kind }
    refine ⟨Providers.lookedUp flags kind ++ asked, ?_, fun k hk => ?_, ⟨later, calls, fun x hx => ?_⟩, fun qs agree => ?_⟩
    · rw [run, told, List.append_assoc]
    · exact (List.mem_append.mp hk).elim (fun h => (mem_lookedUp.mp h).1 ▸ (mem_lookedUp.mp h).2) (allowed k)
    · obtain ⟨k, hk, asked⟩ := from' x hx
      exact ⟨k, List.mem_append_right _ hk, asked⟩
    · have same := enabled_congr fun allowed =>
        agree kind (List.mem_append_left _ (mem_lookedUp.mpr ⟨rfl, allowed⟩))
      simp only [run, ← same]
      exact congr qs fun k hk => agree k (List.mem_append_right _ hk)
  | cancel next ih =>
    obtain ⟨asked, told, allowed, served, congr⟩ := ih { e with cancelled := true }
    exact ⟨asked, told, allowed, served, congr⟩
  | forget next ih =>
    obtain ⟨asked, told, allowed, served, congr⟩ := ih { e with forgotten := true }
    exact ⟨asked, told, allowed, served, congr⟩
  | log v next ih =>
    obtain ⟨asked, told, allowed, served, congr⟩ := ih { e with trace := e.trace ++ [v] }
    exact ⟨asked, told, allowed, served, congr⟩

end Action

/-- A node of the graph may use the kind. -/
def Definition.Uses (d : Definition) (kind : CapabilityKind) : Prop := ∃ n ∈ d.nodes, n.flags.allows kind = true

/-- The run of a node depends on no provider of a kind that its flags do not allow. -/
theorem Node.run_congr (n : Node) {ps qs : Providers} (state : State) (context : NodeContext)
    (effects : Action.Effects) (h : Providers.AgreeOn (fun k => n.flags.allows k = true) ps qs) :
    n.run ps state context effects = n.run qs state context effects := by
  obtain ⟨asked, asks⟩ := Action.asks_run ps n.flags (n.action state context) effects
  unfold Node.run
  rw [asks.congr qs fun k hk => h k (asks.allowed k hk)]

/-- The step from a position depends on no provider of a kind that no node may use. -/
theorem Definition.turn_congr {d : Definition} {ps qs : Providers} (h : Providers.AgreeOn d.Uses ps qs) (entry : Entry)
    (thread : String) (p : Position) (calls : CallLog) :
    d.turn ⟨ps, entry⟩ thread p calls = d.turn ⟨qs, entry⟩ thread p calls := by
  unfold turn
  cases hn : d.node? p.node with
  | none => rfl
  | some n =>
    have mem : n ∈ d.nodes := List.mem_of_find?_eq_some hn
    have same := n.run_congr p.state (p.context thread entry) { calls } fun k hk => h k ⟨n, mem, hk⟩
    dsimp only
    rw [same]

/-! ### Engines with other providers -/

namespace Engine

variable {g : Engine} {qs : Providers} {e : Execution} {w : Surroundings}

section Calls

variable (h : Providers.AgreeOn g.definition.Uses g.providers qs)
include h

theorem visit_congr (entry : Entry) : { g with providers := qs }.visit e entry w = g.visit e entry w := by
  rw [visit_eq, visit_eq, Definition.turn_congr h]
  rfl

theorem loop_congr (left : Nat) (entry : Entry) :
    { g with providers := qs }.loop left e entry w = g.loop left e entry w := by
  induction left generalizing e entry w with
  | zero =>
    unfold loop
    rfl
  | succ left ih =>
    unfold loop
    rw [visit_congr h]
    rcases g.visit e entry w with ⟨v, e' | ⟨e', node, kind, prompt⟩ | ⟨e', f⟩ | f⟩
    · dsimp only
      rw [ih]
      rfl
    · rfl
    · rfl
    · rfl

theorem proceed_congr (config : Config) (providers : List (String × Provider)) (entry : Entry) :
    { g with providers := qs }.proceed config providers e entry w = g.proceed config providers e entry w := by
  unfold proceed forCall
  rcases h.layer providers with ⟨f, hp, hq⟩ | ⟨ps', qs', hp, hq, agree⟩
  · rw [hp, hq]
  · rw [hp, hq]
    have same := loop_congr (g := { g with config, providers := ps' }) (e := e) (w := w) agree
      ({ g with config, providers := ps' }.stepsLeft e) entry
    show (drive { g with config, providers := qs' } e entry w) = drive { g with config, providers := ps' } e entry w
    unfold drive
    dsimp only
    rw [← same]
    rfl

theorem start_congr (thread : String) (input : Value) (options : CallOptions) :
    { g with providers := qs }.start thread input options w = g.start thread input options w := by
  unfold start begin
  simp only [proceed_congr h]
  rfl

theorem resume_congr (thread : String) (value : Value) (options : CallOptions) :
    { g with providers := qs }.resume thread value options w = g.resume thread value options w := by
  unfold resume
  simp only [proceed_congr h]
  rfl

theorem answer_congr (a : Ask) : { g with providers := qs }.answer w a = g.answer w a := by
  cases a with
  | request r =>
    cases r with
    | start thread input options => simp only [answer, serve, start_congr h]
    | resume thread value options => simp only [answer, serve, resume_congr h]
    | cancel | delete => rfl
  | state | outcome | history => rfl

end Calls

/-- What is asked of an engine, one after another, and what it answers. -/
def answerAll (g : Engine) : Surroundings → List Ask → Surroundings × List Answer
  | w, [] => (w, [])
  | w, a :: asks =>
    let x := g.answer w a
    let y := g.answerAll x.1 asks
    (y.1, x.2 :: y.2)

theorem answerAll_congr (h : Providers.AgreeOn g.definition.Uses g.providers qs) (asks : List Ask) :
    { g with providers := qs }.answerAll w asks = g.answerAll w asks := by
  induction asks generalizing w with
  | nil => rfl
  | cons a asks ih => rw [answerAll, answerAll, answer_congr h, ih]

/-- A node asks only providers of kinds that its flags allow, and only their calls are served: whatever other table
    has the same providers of these kinds, it does and answers the same with it. So engines whose providers are the
    same of all kinds that some node may use give the same answers to whatever they are asked, and leave the same. -/
theorem sealed_capabilities :
    (∀ (n : Node) (ps : Providers) (state : State) (context : NodeContext) (effects : Action.Effects), ∃ asked,
      (n.run ps state context effects).1.asked = effects.asked ++ asked ∧
      (∀ k ∈ asked, n.flags.allows k = true) ∧
      (∃ served, (n.run ps state context effects).1.calls = effects.calls ++ served ∧
        ∀ x ∈ served, ∃ k ∈ asked, ∃ p, ps.get? k = some p ∧ x.1 = p.mark) ∧
      (∀ qs, Providers.AgreeOn (· ∈ asked) ps qs →
        n.run ps state context effects = n.run qs state context effects) ∧
      ∀ qs, Providers.AgreeOn (fun k => n.flags.allows k = true) ps qs →
        n.run ps state context effects = n.run qs state context effects) ∧
    ∀ (g : Engine) (qs : Providers), Providers.AgreeOn g.definition.Uses g.providers qs →
      ∀ (w : Surroundings) (asks : List Ask), { g with providers := qs }.answerAll w asks = g.answerAll w asks := by
  constructor
  · intro n ps state context effects
    obtain ⟨asked, told, allowed, served, congr⟩ :=
      Action.asks_run ps n.flags (n.action state context) effects
    refine ⟨asked, told, allowed, served, fun qs agree => ?_, fun qs agree => n.run_congr state context effects agree⟩
    rw [Node.run, congr qs agree, Node.run]
  · intro g qs agree w asks
    exact answerAll_congr agree asks

/-- Logic that tries every way to a provider of a kind, and tells which of them led to one. -/
def probing : Logic := fun _ _ =>
  .enabled .mcp fun usable => .resolve "search" fun kind => .call .mcp ⟨"search", []⟩ .null fun r =>
    .done (.update (.ofFields [("words", .list [.bool usable, .bool kind.isSome, .bool r.isOk])]))

/-- A provider that would serve everything is found in no way by a node that may not use it. -/
theorem sealed_capabilities_probing :
    let g : Engine := { definition := .gathering probing }
    let n : Node := { id := "ask", logic := some probing }
    let context : NodeContext := { node := "ask", thread := "t", step := 0 }
    let eager : Provider := { mark := 7, answer := fun _ _ => .ok (.str "found") }
    let qs : Providers := [(.mcp, eager)]
    let asks : List Ask := [.request (.start "t" .null { providers := [("Skills ", eager)] }), .outcome "t"]
    let words : Value := .ofFields [("words", .list [.bool false, .bool false, .bool false])]
    let told : Answer → Bool := fun | .outcome (.ok (some o)) => o.state.equal words | _ => false
    Providers.AgreeOn (fun k => n.flags.allows k = true) [] qs ∧ Providers.AgreeOn g.definition.Uses g.providers qs ∧
    n.run [] [] context = n.run qs [] context ∧
    { g with providers := qs }.answerAll {} asks = g.answerAll {} asks ∧
    ({ g with providers := qs }.answerAll {} asks).2.map told = [true, true] := by
  intro g n context eager qs asks words told
  have closed : Providers.AgreeOn (fun k => n.flags.allows k = true) [] qs := by
    intro k hk
    cases k <;> first | rfl | cases hk
  have agree : Providers.AgreeOn g.definition.Uses g.providers qs := by
    rintro k ⟨n', hn, hk⟩
    rw [List.mem_singleton.mp hn] at hk
    exact closed k hk
  refine ⟨closed, agree, ?_, sealed_capabilities.2 g qs agree {} asks, by decide +kernel⟩
  obtain ⟨-, -, -, -, -, same⟩ := sealed_capabilities.1 n [] [] context {}
  exact same qs closed

end Engine

end Workflow
