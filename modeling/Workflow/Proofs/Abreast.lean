import Workflow.Proofs.Running

/-! # Engines abreast

Two engines of one graph run a thread side by side. What stands between them is a bond: how their surroundings
are related, the settings that they keep with runs, their configurations, and what they answer of failed runs.
A bond has to be kept by what a run does to its surroundings, a write, an event or the step of a node at a time
(`Level`, `Abreast`); then it is kept by whole loops and calls, and the answers are alike (`Abreast.loop`,
`Partners.start`, `Partners.resume`, `Partners.cancel`). The surroundings may have room for only so many
checkpoints; what is said holds while there is room. -/

namespace Workflow

/-- Related answers, or the same fault. -/
inductive Both {α β : Type} (S : α → β → Prop) : Except Fault α → Except Fault β → Prop
  | ok {a : α} {b : β} (h : S a b) : Both S (.ok a) (.ok b)
  | error (f : Fault) : Both S (.error f) (.error f)

namespace Both

variable {α β γ δ : Type} {S : α → β → Prop} {T : γ → δ → Prop} {x : Except Fault α} {y : Except Fault β}

theorem refl {S : α → α → Prop} (h : ∀ a, S a a) (x : Except Fault α) : Both S x x := by
  cases x with
  | ok a => exact .ok (h a)
  | error f => exact .error f

theorem imp (h : Both S x y) {S' : α → β → Prop} (weaker : ∀ {a b}, S a b → S' a b) : Both S' x y := by
  cases h with
  | ok h => exact .ok (weaker h)
  | error f => exact .error f

theorem bind (h : Both S x y) {f : α → Except Fault γ} {g : β → Except Fault δ}
    (next : ∀ {a b}, S a b → Both T (f a) (g b)) : Both T (x >>= f) (y >>= g) := by
  cases h with
  | ok h => exact next h
  | error f => exact .error f

theorem map (h : Both S x y) {f : α → γ} {g : β → δ} (next : ∀ {a b}, S a b → T (f a) (g b)) :
    Both T (x.map f) (y.map g) := by
  cases h with
  | ok h => exact .ok (next h)
  | error f => exact .error f

theorem mapError (h : Both S x y) (f : Fault → Fault) : Both S (x.mapError f) (y.mapError f) := by
  cases h with
  | ok h => exact .ok h
  | error e => exact .error (f e)

theorem eq {y : Except Fault α} (h : Both Eq x y) : x = y := by
  cases h with
  | ok h => rw [h]
  | error => rfl

end Both

/-- What stands between two engines that run a thread: how their surroundings are related, the settings that they
    keep with runs, their configurations, and what they tell of the states of failed runs. -/
structure Bond where
  thread : String
  around : Surroundings → Surroundings → Prop
  /-- How the surroundings are related while a call runs the thread. -/
  inside : Surroundings → Surroundings → Prop := around
  settings : Value → Value → Prop := Eq
  configs : Config → Config → Prop := Eq
  states : Value → Value → Prop := Eq
  /-- The run goes on as the bond needs it to. -/
  going : Execution → Prop := fun _ => True
  /-- The surroundings can take what was drawn up. -/
  room : Surroundings → Prop := fun _ => True

variable {b : Bond}

/-- The executions are the same but for their settings, which are related. -/
structure Execution.Alike (b : Bond) (e e' : Execution) : Prop where
  same : e' = { e with metadata := e'.metadata }
  kept : b.settings e.metadata e'.metadata
  own : e.thread = b.thread

/-- The checkpoints tell the same of a run, under other marks and with related settings. -/
structure Checkpoint.Twin (b : Bond) (c c' : Checkpoint) : Prop where
  same : c' = { c with metadata := c'.metadata, id := c'.id, timestamp := c'.timestamp }
  kept : b.settings c.metadata c'.metadata
  own : c.thread.text = b.thread

/-- The last checkpoints of a thread are twins, unless its run has failed. -/
structure Checkpoint.Alike (b : Bond) (c c' : Checkpoint) : Prop where
  graph : c'.graph = c.graph
  status : c'.status = c.status
  twin : c.status ≠ .failed → c.Twin b c'

/-- The outcomes are the same but for the state of a failed run. -/
inductive Outcome.Alike (b : Bond) : Outcome → Outcome → Prop
  | same (o : Outcome) : Alike b o o
  | failed {o : Outcome} {state : Value} (status : o.status = .failed) (h : b.states o.state state) :
      Alike b o { o with state }

theorem Execution.Alike.eq {e e' : Execution} (h : e.Alike b e')
    (settings : ∀ {m m'}, b.settings m m' → m = m') : e' = e := by
  have same := h.same
  rw [← settings h.kept] at same
  exact same

theorem Outcome.Alike.eq {o o' : Outcome} (h : o.Alike b o') (states : ∀ {v v'}, b.states v v' → v = v') :
    o = o' := by
  cases h with
  | same => rfl
  | failed _ same => rw [← states same]

inductive Visit.Alike (b : Bond) : Visit → Visit → Prop
  | moved {e e' : Execution} (h : e.Alike b e') (going : b.going e) : Alike b (.moved e) (.moved e')
  | pause {e e' : Execution} (h : e.Alike b e') (node : String) (kind : InterruptKind) (prompt : Value) :
      Alike b (.pause e node kind prompt) (.pause e' node kind prompt)
  | fail {e e' : Execution} (h : e.Alike b e') (f : Failure) : Alike b (.fail e f) (.fail e' f)
  | raise (f : Fault) : Alike b (.raise f) (.raise f)

namespace Surroundings

section Pairs
variable {α β γ δ : Type} {around : Surroundings → Surroundings → Prop} {S : α → β → Prop} {T : γ → δ → Prop}
  {x : Surroundings × Except Fault α} {y : Surroundings × Except Fault β}

/-- Goes on with an answer, unless it is a fault. -/
def chain (x : Surroundings × Except Fault α) (f : Surroundings → α → Surroundings × Except Fault γ) :
    Surroundings × Except Fault γ :=
  match x with
  | (w, .error e) => (w, .error e)
  | (w, .ok a) => f w a

/-- Related surroundings are left, and the answers are related. -/
structure Paired (around : Surroundings → Surroundings → Prop) (S : α → β → Prop)
    (x : Surroundings × Except Fault α) (y : Surroundings × Except Fault β) : Prop where
  around : around x.1 y.1
  answer : Both S x.2 y.2

theorem Paired.cases (h : Paired around S x y) :
    (∃ w v f, x = (w, .error f) ∧ y = (v, .error f) ∧ around w v) ∨
      ∃ w v a b, x = (w, .ok a) ∧ y = (v, .ok b) ∧ around w v ∧ S a b := by
  obtain ⟨w, r⟩ := x
  obtain ⟨v, r'⟩ := y
  obtain ⟨related, answer⟩ := h
  cases answer with
  | ok h => exact .inr ⟨w, v, _, _, rfl, rfl, related, h⟩
  | error f => exact .inl ⟨w, v, f, rfl, rfl, related⟩

theorem Paired.map (h : Paired around S x y) {f : α → γ} {g : β → δ} (next : ∀ {a b}, S a b → T (f a) (g b)) :
    Paired around T (x.1, x.2.map f) (y.1, y.2.map g) :=
  ⟨h.around, h.answer.map next⟩

theorem Paired.mapError (h : Paired around S x y) (f : Fault → Fault) :
    Paired around S (x.1, x.2.mapError f) (y.1, y.2.mapError f) :=
  ⟨h.around, h.answer.mapError f⟩

/-- Chains are paired link by link, as far as there is room at their end. -/
theorem Paired.chain {room : Surroundings → Prop} {f : Surroundings → α → Surroundings × Except Fault γ}
    {g : Surroundings → β → Surroundings × Except Fault δ} (first : room x.1 → Paired around S x y)
    (next : ∀ {w v a b}, around w v → S a b → room (f w a).1 → Paired around T (f w a) (g v b))
    (back : ∀ {w a}, room (f w a).1 → room w) (h : room (chain x f).1) : Paired around T (chain x f) (chain y g) := by
  obtain ⟨w, e | a⟩ := x
  · rcases (first h).cases with ⟨_, v, _, ⟨⟩, rfl, related⟩ | ⟨_, _, _, _, ⟨⟩, -⟩
    exact ⟨related, .error e⟩
  · rcases (first (back h)).cases with ⟨_, _, _, ⟨⟩, -⟩ | ⟨_, v, _, b, ⟨⟩, rfl, related, answers⟩
    exact next related answers h

end Pairs

end Surroundings

namespace Engine

open Surroundings (Paired Stable chain)

/-! ### What engines do, link by link -/

section Links
variable (g : Engine) (e : Execution) (w : Surroundings)

/-- Writes a run down that goes on, if every step is. -/
def note : Surroundings × Except Fault Unit :=
  match g.config.mode with
  | .interruptsOnly => (w, .ok ())
  | .everyStep => chain (g.save e w) fun w _ => (w, .ok ())

/-- The event of a step that reached a position. -/
def stepEvent (e : Execution) (p : Position) : Event :=
  { kind := .stepCompleted, thread := e.thread, node := e.node, step := p.step
    data := [("next_node", .str p.node)] }

theorem follow_note (p : Position) : g.follow e w (.reached p) =
    let told := w.emit (stepEvent e p)
    if g.config.after.contains e.node then
      if told.isCancelled e.thread then (told, .fail (e.arrived p) (.cancelled e.thread))
      else (told, .pause (e.arrived p) e.node .after .null)
    else
      match g.note (e.arrived p) told with
      | (w, .error f) => (w, .raise f)
      | (w, .ok _) => (w, .moved (e.arrived p)) := by
  unfold follow move note
  dsimp only
  split
  · rfl
  · cases g.config.mode with
    | interruptsOnly => rfl
    | everyStep =>
      unfold Execution.arrived stepEvent
      dsimp only
      generalize g.save _ _ = x
      obtain ⟨v, f | c⟩ := x <;> rfl

theorem pause_chain (node : String) (kind : InterruptKind) (prompt : Value) : g.pause e node kind prompt w =
    chain (g.save (e.paused node kind prompt) w) fun w _ =>
      (w.emit { kind := .interrupted, thread := e.thread, node, step := e.step
                data := [("interrupt", Interrupt.toValue { node := .str node, prompt, kind })] },
        .ok (e.paused node kind prompt).outcome) := by
  unfold pause Execution.paused
  dsimp only
  generalize g.save _ w = x
  obtain ⟨v, f | c⟩ := x <;> rfl

theorem complete_chain : g.complete e w =
    chain (g.save e.completed w) fun w _ =>
      (w.emitLast { kind := .completed, thread := e.thread, step := e.step, data := [("steps", .int e.step)] },
        .ok e.completed.outcome) := by
  unfold complete Execution.completed
  dsimp only
  generalize g.save _ w = x
  obtain ⟨v, f | c⟩ := x <;> rfl

theorem fail_chain (f : Failure) : g.fail e f w =
    chain (g.record (e.failed f) f w) fun w c =>
      (w.emitLast { kind := .failed, thread := e.thread, node := e.node, step := e.step
                    data := [("error", f.toValue)] },
        .ok { (e.failed f).outcome with state := c.state }) := by
  unfold fail Execution.failed
  dsimp only
  generalize g.record _ f w = x
  obtain ⟨v, f | c⟩ := x <;> rfl

theorem begin_chain (config : Config) (providers : List (String × Provider)) : g.begin config providers e w =
    chain (g.save e w) fun w _ => g.proceed config providers e {} (w.emit {
      kind := .runStarted, thread := e.thread, node := e.node
      data := [("graph", .str g.definition.name)] }) := by
  unfold begin
  generalize g.save e w = x
  obtain ⟨v, f | c⟩ := x <;> rfl

end Links

/-! ### Bonds of loops -/

/-- Both engines write and tell alike in related surroundings, as far as there is room. -/
structure Level (b : Bond) (related : Surroundings → Surroundings → Prop) (g g' : Engine) : Prop where
  definition : g'.definition = g.definition
  /-- Room that was used up does not come back. -/
  full : ∀ thread, Stable g.definition.name thread fun w => ¬ b.room w
  emit : ∀ {w v e}, e.thread = b.thread → related w v → related (w.emit e) (v.emit e)
  emitLast : ∀ {w v e}, e.thread = b.thread → related w v → related (w.emitLast e) (v.emitLast e)
  save : ∀ {w v e e'}, e.Alike b e' → e.status ≠ .running → e.status ≠ .failed → related w v → b.room (g.save e w).1 →
    Paired related (fun _ _ => True) (g.save e w) (g'.save e' v)
  record : ∀ {w v} {e e' : Execution} {f}, e.Alike b e' → related w v → b.room (g.record (e.failed f) f w).1 →
    Paired related (fun c c' => b.states c.state c'.state) (g.record (e.failed f) f w) (g'.record (e'.failed f) f v)

/-- What the step at a position does and comes to in surroundings. -/
def turnIn (g : Engine) (thread : String) (entry : Entry) (p : Position) (w : Surroundings) : Surroundings × Stride :=
  let x := g.definition.turn ⟨g.providers, entry⟩ thread p w.calls
  (w.absorb thread x.1, x.2)

/-- Both engines run the thread alike, step by step. -/
structure Abreast (b : Bond) (g g' : Engine) : Prop extends Level b b.inside g g' where
  limit : g'.config.recursionLimit = g.config.recursionLimit
  before : g'.config.before = g.config.before
  after : g'.config.after = g.config.after
  cancelled : ∀ {w v}, b.inside w v → w.isCancelled b.thread = v.isCancelled b.thread
  turn : ∀ {w v} entry p, b.inside w v →
    b.inside (g.turnIn b.thread entry p w).1 (g'.turnIn b.thread entry p v).1 ∧
      (g.turnIn b.thread entry p w).2 = (g'.turnIn b.thread entry p v).2
  going : ∀ {e p}, b.going e → p.step = e.step + 1 → b.going (e.arrived p)
  note : ∀ {w v e e' p}, e.Alike b e' → b.going e → p.step = e.step + 1 → b.inside w v →
    b.room (g.note (e.arrived p) w).1 →
      Paired b.inside (fun _ _ => True) (g.note (e.arrived p) w) (g'.note (e'.arrived p) v)

variable {g g' : Engine} {w v : Surroundings} {e e' : Execution} {left : Nat}

theorem visit_turnIn (g : Engine) (e : Execution) (entry : Entry) (w : Surroundings) : g.visit e entry w =
    if g.holds e entry then (w, .pause e e.node .before .null)
    else g.follow e (g.turnIn e.thread entry e.position w).1 (g.turnIn e.thread entry e.position w).2 :=
  g.visit_eq e entry w

namespace Level

variable {related : Surroundings → Surroundings → Prop} (h : Level b related g g')
include h

theorem room_emit {e : Event} (room : b.room (w.emit e)) : b.room w :=
  Classical.byContradiction fun full => (h.full _).emit e rfl full room

theorem room_emitLast {e : Event} (room : b.room (w.emitLast e)) : b.room w :=
  Classical.byContradiction fun full => (h.full _).emitLast e rfl full room

variable (he : e.Alike b e') (hw : related w v)
include he hw

theorem pause {node : String} {kind : InterruptKind} {prompt : Value}
    (room : b.room (g.pause e node kind prompt w).1) :
    Paired related (Outcome.Alike b) (g.pause e node kind prompt w) (g'.pause e' node kind prompt v) := by
  obtain ⟨same, kept, own⟩ := he
  rw [same] at kept ⊢
  rw [pause_chain] at room
  rw [pause_chain, pause_chain]
  refine Paired.chain (fun room => h.save ⟨rfl, kept, own⟩ RunStatus.noConfusion RunStatus.noConfusion hw room) ?_
    h.room_emit room
  intro w v _ _ hw _ _
  exact ⟨h.emit own hw, .ok (.same _)⟩

theorem complete (room : b.room (g.complete e w).1) :
    Paired related (Outcome.Alike b) (g.complete e w) (g'.complete e' v) := by
  obtain ⟨same, kept, own⟩ := he
  rw [same] at kept ⊢
  rw [complete_chain] at room
  rw [complete_chain, complete_chain]
  refine Paired.chain (fun room => h.save ⟨rfl, kept, own⟩ RunStatus.noConfusion RunStatus.noConfusion hw room) ?_
    h.room_emitLast room
  intro w v _ _ hw _ _
  exact ⟨h.emitLast own hw, .ok (.same _)⟩

theorem fail {f : Failure} (room : b.room (g.fail e f w).1) :
    Paired related (Outcome.Alike b) (g.fail e f w) (g'.fail e' f v) := by
  obtain ⟨same, kept, own⟩ := he
  rw [same] at kept ⊢
  rw [fail_chain] at room
  rw [fail_chain, fail_chain]
  refine Paired.chain (fun room => h.record ⟨rfl, kept, own⟩ hw room) ?_ h.room_emitLast room
  intro w v c c' hw states _
  exact ⟨h.emitLast own hw, .ok (.failed rfl states)⟩

end Level

namespace Abreast

theorem arrived (he : e.Alike b e') (p : Position) : (e.arrived p).Alike b (e'.arrived p) := by
  obtain ⟨same, kept, own⟩ := he
  rw [same] at kept ⊢
  exact ⟨rfl, kept, own⟩

variable (h : Abreast b g g') (he : e.Alike b e') (going : b.going e) (hw : b.inside w v)
include h he going hw

/-- Both engines go on alike after a step. -/
theorem follow {stride : Stride} (steps : ∀ p, stride = .reached p → p.step = e.step + 1)
    (room : b.room (g.follow e w stride).1) : b.inside (g.follow e w stride).1 (g'.follow e' v stride).1 ∧
      (g.follow e w stride).2.Alike b (g'.follow e' v stride).2 := by
  have own := he.own
  have thread : e'.thread = e.thread := by rw [he.same]
  have node : e'.node = e.node := by rw [he.same]
  cases stride with
  | lost f => exact ⟨hw, .raise f⟩
  | failed p f => exact ⟨hw, .fail (arrived he p) f⟩
  | suspended prompt =>
    simp only [Engine.follow, thread, node, own, h.cancelled hw]
    split
    · exact ⟨hw, .fail he _⟩
    · exact ⟨hw, .pause he _ _ _⟩
  | reached p =>
    have event : stepEvent e' p = stepEvent e p := by rw [stepEvent, stepEvent, thread, node]
    have told := h.emit (e := stepEvent e p) own hw
    rw [follow_note] at room
    rw [follow_note, follow_note, event, h.after, node]
    dsimp only at room ⊢
    rw [thread, own, ← h.cancelled told]
    by_cases held : g.config.after.contains e.node = true
    · rw [if_pos held, if_pos held]
      split
      · exact ⟨told, .fail (arrived he p) _⟩
      · exact ⟨told, .pause (arrived he p) _ _ _⟩
    · rw [if_neg held] at room
      rw [if_neg held, if_neg held]
      have noted : b.room (g.note (e.arrived p) (w.emit (stepEvent e p))).1 := by
        revert room
        rcases g.note (e.arrived p) (w.emit (stepEvent e p)) with ⟨x, f | c⟩ <;> exact id
      rcases (h.note he going (steps p rfl) told noted).cases with
        ⟨x, y, f, hx, hy, related⟩ | ⟨x, y, _, _, hx, hy, related, -⟩
      · rw [hx, hy]
        exact ⟨related, .raise f⟩
      · rw [hx, hy]
        exact ⟨related, .moved (arrived he p) (h.going going (steps p rfl))⟩

theorem visit {entry : Entry} (room : b.room (g.visit e entry w).1) :
    b.inside (g.visit e entry w).1 (g'.visit e' entry v).1 ∧ (g.visit e entry w).2.Alike b (g'.visit e' entry v).2 := by
  have own := he.own
  have thread : e'.thread = e.thread := by rw [he.same]
  have node : e'.node = e.node := by rw [he.same]
  have position : e'.position = e.position := by rw [he.same]; rfl
  have holds : g'.holds e' entry = g.holds e entry := by rw [holds, Engine.holds, h.before, node]
  rw [visit_turnIn] at room
  rw [visit_turnIn, visit_turnIn, holds, node, thread, position]
  split at room
  · rename_i held
    rw [if_pos held, if_pos held]
    exact ⟨hw, .pause he _ _ _⟩
  · rename_i free
    rw [if_neg free, if_neg free]
    obtain ⟨related, same⟩ := h.turn entry e.position hw
    rw [own] at room ⊢
    rw [← same]
    refine h.follow he going related (fun p hp => ?_) room
    exact (Definition.step_of_turn_reached hp).1

end Abreast

/-- A pass ends alike if the loops do that may follow it. -/
theorem Abreast.pass (h : Abreast b g g') (he : e.Alike b e') (going : b.going e) (hw : b.inside w v) {entry : Entry}
    (later : ∀ {n e e' w v}, left = n + 1 → e.Alike b e' → b.going e → b.inside w v → b.room (g.run ⟨n, e, {}, w⟩).1 →
      Paired b.inside (Outcome.Alike b) (g.run ⟨n, e, {}, w⟩) (g'.run ⟨n, e', {}, v⟩))
    (room : b.room (g.run ⟨left, e, entry, w⟩).1) :
    Paired b.inside (Outcome.Alike b) (g.run ⟨left, e, entry, w⟩) (g'.run ⟨left, e', entry, v⟩) := by
  have node : e'.node = e.node := by rw [he.same]
  have thread : e'.thread = e.thread := by rw [he.same]
  have exhausted : g'.exhausted e' = g.exhausted e := by rw [Engine.exhausted, Engine.exhausted, node, h.limit]
  rw [run_eq] at room
  rw [run_eq, run_eq]
  dsimp only at room ⊢
  rw [node, thread, he.own, ← h.cancelled hw, exhausted]
  rw [he.own] at room
  by_cases cancelled : w.isCancelled b.thread = true
  · rw [if_pos cancelled] at room
    rw [if_pos cancelled, if_pos cancelled]
    exact h.fail he hw room
  rw [if_neg cancelled] at room
  rw [if_neg cancelled, if_neg cancelled]
  by_cases ended : e.node = endMarker
  · rw [if_pos ended] at room
    rw [if_pos ended, if_pos ended]
    exact h.complete he hw room
  rw [if_neg ended] at room
  rw [if_neg ended, if_neg ended]
  cases left with
  | zero => exact h.fail he hw room
  | succ n =>
    dsimp only at room ⊢
    -- What the visit leaves has room, since what follows it does not win any back.
    have visited : b.room (g.visit e entry w).1 := by
      refine Classical.byContradiction fun full => ?_
      revert room
      rcases hx : g.visit e entry w with ⟨x, e₁ | ⟨e₁, node, kind, prompt⟩ | ⟨e₁, f⟩ | f⟩ <;> rw [hx] at full <;>
        dsimp only
      · exact run_stable (q := ⟨n, e₁, {}, x⟩) (h.full _) full
      · exact stable_pause (h.full _) full node kind prompt
      · exact stable_fail (h.full _) full f
      · exact full
    obtain ⟨related, alike⟩ := h.visit he going hw visited
    rcases hx : g.visit e entry w with ⟨x, visit⟩
    rcases hy : g'.visit e' entry v with ⟨y, visit'⟩
    rw [hx] at related alike room
    rw [hy] at related alike
    cases alike with
    | moved alike going => exact later rfl alike going related room
    | pause alike node kind prompt => exact h.pause alike related room
    | fail alike f => exact h.fail alike related room
    | raise f => exact ⟨related, .error f⟩

/-- Loops end alike, as far as there is room. -/
theorem Abreast.run (h : Abreast b g g') (he : e.Alike b e') (going : b.going e) (hw : b.inside w v) {entry : Entry}
    (room : b.room (g.run ⟨left, e, entry, w⟩).1) :
    Paired b.inside (Outcome.Alike b) (g.run ⟨left, e, entry, w⟩) (g'.run ⟨left, e', entry, v⟩) := by
  induction left generalizing e e' entry w v with
  | zero => exact h.pass he going hw (fun none => nomatch none) room
  | succ left ih =>
    refine h.pass he going hw (fun same he going hw room => ?_) room
    cases same
    exact ih he going hw room

theorem Abreast.drive (h : Abreast b g g') (he : e.Alike b e') (going : b.going e) (hw : b.inside w v) {entry : Entry}
    (room : b.room (g.drive e entry w).1) :
    Paired b.inside (Outcome.Alike b) (g.drive e entry w) (g'.drive e' entry v) := by
  have left : g'.stepsLeft e' = g.stepsLeft e := by rw [stepsLeft, stepsLeft, he.same, h.limit]
  have thread : e'.thread = e.thread := by rw [he.same]
  unfold Engine.drive
  rw [left, thread]
  exact (h.run he going hw room).mapError _

/-! ### Bonds of calls -/

/-- The configuration with which a run goes on that kept settings. -/
def settled (g : Engine) (settings : Value) (overrides : Overrides) : Except Fault Config := do
  let stored ← Overrides.ofMetadata settings
  let config ← (← g.config.override stored).override overrides
  (overrides.onto stored).checkNames
  return config

/-- Both engines are called with options that come to the same. -/
structure Partners (b : Bond) (g g' : Engine) (o o' : CallOptions) : Prop extends Level b b.around g g' where
  begun : Level b b.inside g g'
  settings : ∀ {c c'}, b.configs c c' → b.settings c.metadata c'.metadata
  names : o'.overrides.checkNames = o.overrides.checkNames
  runs : Both (fun ps ps' => ∀ c c', b.configs c c' →
      Abreast b { g with config := c, providers := ps } { g' with config := c', providers := ps' })
    (g.providers.layer o.providers) (g'.providers.layer o'.providers)
  begins : ∀ {e}, e.status = .running → e.step = 0 → b.going e
  first : ∀ {w v e e'}, e.Alike b e' → e.status = .running → e.step = 0 → b.around w v → b.room (g.save e w).1 →
    Paired b.inside (fun _ _ => True) (g.save e w) (g'.save e' v)
  enter : ∀ {w v r}, g.resumption b.thread o.overrides w.store = .ok r → b.around w v →
    b.inside (w.activate b.thread) (v.activate b.thread)
  release : ∀ {w v}, b.inside w v → b.around (w.release b.thread) (v.release b.thread)
  released : ∀ {w}, b.room (w.release b.thread) → b.room w

namespace Partners

variable {o o' : CallOptions} {input value : Value} {entry : Entry} {config config' : Config} {r r' : Resumption}

/-- What stores tell of the last checkpoint of the thread. -/
abbrev Tell (b : Bond) (w v : Surroundings) : Prop :=
  Both (Option.Rel (Checkpoint.Alike b)) (w.store.load b.thread) (v.store.load b.thread)

/-- Runs are started with related configurations, or are refused. -/
abbrev Chosen (b : Bond) (g g' : Engine) (o o' : CallOptions) : Prop :=
  Both b.configs (g.config.override o.overrides) (g'.config.override o'.overrides)

/-- Runs are resumed with related configurations, or are refused. -/
abbrev Settled (b : Bond) (g g' : Engine) (o o' : CallOptions) : Prop :=
  ∀ m m', b.settings m m' → Both b.configs (g.settled m o.overrides) (g'.settled m' o'.overrides)

variable (h : Partners b g g' o o')
include h

theorem proceed (hc : b.configs config config') (he : e.Alike b e') (going : b.going e) (hw : b.inside w v)
    (room : b.room (g.proceed config o.providers e entry w).1) :
    Paired b.inside (Outcome.Alike b) (g.proceed config o.providers e entry w)
      (g'.proceed config' o'.providers e' entry v) := by
  have runs := h.runs
  unfold Engine.proceed forCall at room ⊢
  generalize g.providers.layer o.providers = x at runs room ⊢
  generalize g'.providers.layer o'.providers = y at runs ⊢
  cases runs with
  | error f => exact ⟨hw, .error f⟩
  | ok runs => exact (runs config config' hc).drive he going hw room

theorem opening (input : Value) (chosen : Chosen b g g' o o') (loads : Tell b w v) :
    Both (fun x x' => b.configs x.1 x'.1 ∧ x.2.Alike b x'.2 ∧ x.2.status = .running ∧ x.2.step = 0)
      (g.opening b.thread input o.overrides w.store) (g'.opening b.thread input o'.overrides v.store) := by
  unfold Engine.opening
  rw [h.definition]
  refine chosen.bind fun {c c'} hc => ?_
  cases g.definition.schema.initialState input with
  | error f => exact .error f
  | ok state =>
    refine loads.bind fun {x y} same => ?_
    cases same with
    | some => exact .error _
    | none =>
      cases g.definition.entryPoint? with
      | none => exact .error _
      | some node => exact .ok ⟨hc, ⟨rfl, h.settings hc, rfl⟩, rfl, rfl⟩

theorem lastCheckpoint (loads : Tell b w v) :
    Both (Checkpoint.Alike b) (g.lastCheckpoint b.thread w.store) (g'.lastCheckpoint b.thread v.store) := by
  unfold Engine.lastCheckpoint
  rw [h.definition]
  refine loads.bind fun {x y} same => ?_
  cases same with
  | none => exact .error _
  | @some c c' alike =>
    show Both _ (if c.graph.equal _ then _ else _) (if c'.graph.equal _ then _ else _)
    rw [alike.graph]
    split
    · exact .ok alike
    · exact .error _

omit h in
/-- Twins are taken up alike. -/
theorem takenUp {c c' : Checkpoint} (twin : c.Twin b c') :
    Both (Execution.Alike b) (Execution.ofCheckpoint c) (Execution.ofCheckpoint c') := by
  obtain ⟨same, kept, own⟩ := twin
  rw [same] at kept ⊢
  unfold Execution.ofCheckpoint
  show Both _ (c.failure? >>= _) (c.failure? >>= _)
  cases c.failure? with
  | error f => exact .error f
  | ok error => exact .ok ⟨rfl, kept, own⟩

omit h in
theorem settled_bind {α : Type} (m : Value) (overrides : Overrides) (k : Config → Except Fault α) :
    (Overrides.ofMetadata m >>= fun stored => g.config.override stored >>= fun kept =>
        kept.override overrides >>= fun config => (overrides.onto stored).checkNames >>= fun _ => k config) =
      g.settled m overrides >>= k := by
  simp only [Engine.settled, bind_assoc, pure_bind]

theorem resumption (settled : Settled b g g' o o') (loads : Tell b w v) :
    Both (fun r r' => b.configs r.config r'.config ∧ r.execution.Alike b r'.execution ∧ r'.interrupt = r.interrupt)
      (g.resumption b.thread o.overrides w.store) (g'.resumption b.thread o'.overrides v.store) := by
  unfold Engine.resumption
  refine (h.lastCheckpoint loads).bind fun {c c'} alike => ?_
  have status := alike.status
  by_cases paused : c.status = .paused
  · have twin := alike.twin (by rw [paused]; exact RunStatus.noConfusion)
    have interrupt : c'.interrupt = c.interrupt := by rw [twin.same]
    rw [status, interrupt, paused]
    cases c.interrupt with
    | none => exact .error _
    | some i =>
      refine (takenUp twin).bind fun {e e'} he => ?_
      rw [settled_bind, settled_bind]
      refine (settled _ _ he.kept).bind fun {config config'} hc => .ok ⟨hc, ?_, rfl⟩
      exact ⟨by rw [he.same], h.settings hc, he.own⟩
  · rw [status]
    generalize c.status = status at paused
    cases status with
    | paused => exact absurd rfl paused
    | running | completed | failed => exact .error _

/-- Starts end alike, as far as there is room. -/
theorem start (chosen : Chosen b g g' o o') (loads : Tell b w v) (hw : b.around w v)
    (attended : b.around (w.attended b.thread o.observers) (v.attended b.thread o'.observers))
    (joined : b.around (w.joined b.thread o.observers) (v.joined b.thread o'.observers))
    (room : b.room (g.start b.thread input o w).1) :
    Paired b.around (Outcome.Alike b) (g.start b.thread input o w) (g'.start b.thread input o' v) := by
  have opening := h.opening input chosen loads
  unfold Engine.start at room ⊢
  generalize g.opening b.thread input o.overrides w.store = x at opening room ⊢
  generalize g'.opening b.thread input o'.overrides v.store = y at opening ⊢
  cases opening with
  | error f => exact ⟨hw, .error f⟩
  | @ok x y related =>
    obtain ⟨config, e⟩ := x
    obtain ⟨config', e'⟩ := y
    obtain ⟨hc, he, running, step⟩ := related
    dsimp only at hc he running step
    rw [h.names]
    cases names : o.overrides.checkNames with
    | error f => exact ⟨attended, .error f⟩
    | ok =>
    simp only [names] at room
    have begun : b.room (g.begin config o.providers e (w.joined b.thread o.observers)).1 := h.released room
    have same : e'.thread = e.thread ∧ e'.node = e.node := by rw [he.same]; exact ⟨rfl, rfl⟩
    suffices h' : Paired b.inside (Outcome.Alike b) (g.begin config o.providers e (w.joined b.thread o.observers))
        (g'.begin config' o'.providers e' (v.joined b.thread o'.observers)) from ⟨h.release h'.around, h'.answer⟩
    rw [begin_chain] at begun
    rw [begin_chain, begin_chain, same.1, same.2, h.definition]
    refine Paired.chain (fun room => h.first he running step joined room) ?_ ?_ begun
    · intro w v _ _ related _ room
      exact h.proceed hc he (h.begins running step) (h.begun.emit he.own related) room
    · intro w _ room
      exact Classical.byContradiction fun full =>
        stable_proceed (h.full _) ((h.full _).emit _ rfl full) _ _ _ room

/-- Resumptions end alike, as far as there is room. -/
theorem resume (settled : Settled b g g' o o') (loads : Tell b w v) (hw : b.around w v)
    (going : ∀ r, g.resumption b.thread o.overrides w.store = .ok r → b.going r.execution)
    (room : b.room (g.resume b.thread value o w).1) :
    Paired b.around (Outcome.Alike b) (g.resume b.thread value o w) (g'.resume b.thread value o' v) := by
  have resumption := h.resumption settled loads
  have enter : ∀ {r}, g.resumption b.thread o.overrides w.store = .ok r → b.inside _ _ := fun hr => h.enter hr hw
  unfold Engine.resume at room ⊢
  generalize g.resumption b.thread o.overrides w.store = x at resumption going enter room ⊢
  generalize g'.resumption b.thread o'.overrides v.store = y at resumption ⊢
  cases resumption with
  | error f => exact ⟨hw, .error f⟩
  | @ok r r' related =>
    obtain ⟨hc, he, interrupt⟩ := related
    have same : r'.execution.thread = r.execution.thread ∧ r'.execution.step = r.execution.step := by
      rw [he.same]
      exact ⟨rfl, rfl⟩
    dsimp only at room ⊢
    rw [same.1, same.2, interrupt]
    have resumed := h.begun.emit (e := {
      kind := .resumed, thread := r.execution.thread, node := Failure.textOf? r.interrupt.node
      step := r.execution.step, data := [("kind", .str r.interrupt.kind.name)] }) he.own (enter rfl)
    have ended := h.proceed hc he (going r rfl) resumed (h.released room)
    exact ⟨h.release ended.around, ended.answer⟩

/-- Cancels end alike, as far as there is room. -/
theorem cancel (loads : Tell b w v) (hw : b.around w v)
    (active : w.active.contains b.thread = v.active.contains b.thread)
    (asked : b.around (w.requestCancel b.thread) (v.requestCancel b.thread))
    (room : b.room (g.cancel b.thread w).1) :
    Paired b.around (Option.Rel (Outcome.Alike b)) (g.cancel b.thread w) (g'.cancel b.thread v) := by
  have paused := (h.lastCheckpoint loads).bind (T := Option.Rel (Execution.Alike b))
    (f := fun c => if c.status = .paused then do return some (← Execution.ofCheckpoint c) else return none)
    (g := fun c => if c.status = .paused then do return some (← Execution.ofCheckpoint c) else return none)
    fun {c c'} alike => by
      rw [alike.status]
      split
      · rename_i status
        refine (takenUp (alike.twin ?_)).bind fun he => .ok (.some he)
        rw [status]
        exact RunStatus.noConfusion
      · exact .ok .none
  unfold Engine.cancel at room ⊢
  rw [← active]
  by_cases running : w.active.contains b.thread = true
  · rw [if_pos running, if_pos running]
    exact ⟨asked, .ok .none⟩
  · rw [if_neg running] at room
    rw [if_neg running, if_neg running]
    dsimp only at paused room ⊢
    generalize (g.lastCheckpoint b.thread w.store >>= _ : Except Fault (Option Execution)) = x at paused room ⊢
    generalize (g'.lastCheckpoint b.thread v.store >>= _ : Except Fault (Option Execution)) = y at paused ⊢
    cases paused with
    | error f => exact ⟨hw, .error f⟩
    | ok he =>
      cases he with
      | none => exact ⟨hw, .ok .none⟩
      | some he => exact (h.fail he hw room).map fun alike => .some alike

end Partners

end Engine

end Workflow
