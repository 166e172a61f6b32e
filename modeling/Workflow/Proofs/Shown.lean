import Mathlib.Data.List.Forall2
import Workflow.Proofs.Abreast
import Workflow.Proofs.Views

/-! # What is shown of calls

An engine in use and what a view shows of it are abreast: what calls share between threads, the store above all, is
related (`Share`), and what is asked of a thread that is shown is answered alike, in the surroundings and in what is
shown of them (`use_viewed`). -/

namespace Workflow

variable {l : View}

/-! ### Calls in view -/

/-- What the caller chooses for what is asked. -/
def Ask.options : Ask → CallOptions
  | .request r => r.options
  | .state _ | .outcome _ | .history _ => {}

def Use.options : Use → CallOptions
  | .ask a => a.options
  | .subscribe _ _ _ => {}

/-- The same answers, but for histories, whose checkpoints are related. -/
inductive Answer.Alike (R : Checkpoint → Checkpoint → Prop) : Answer → Answer → Prop
  | same (a : Answer) : Alike R a a
  | history {r r' : Except Fault (List Checkpoint)} (h : Both (List.Forall₂ R) r r') :
    Alike R (.history r) (.history r')

/-- How what calls share is related, by stocks and by checkpoints, as far as there is room for the latter. -/
structure Share where
  stocks : Stock → Stock → Prop
  records : Checkpoint → Checkpoint → Prop
  room : Surroundings → Prop := fun _ => True

/-- The checkpoints are the same but for their ids and times. -/
def Checkpoint.Marked (c c' : Checkpoint) : Prop := c' = { c with id := c'.id, timestamp := c'.timestamp }

/-- A view shows these surroundings of others, and what calls share is related. -/
structure Surroundings.Shows (l : View) (s : Share) (w v : Surroundings) : Prop where
  seen : w.Seen l v
  stocks : s.stocks w.stock v.stock

/-- What a run of the thread does to what calls share keeps it related, as far as there is room. -/
structure Share.Keeps (s : Share) (thread : String) : Prop where
  full : ∀ graph other, Surroundings.Stable graph other fun w => ¬ s.room w
  released : ∀ {w other}, s.room (w.release other) → s.room w
  records : ∀ {c c'}, s.records c c' → c.Marked c'
  own : ∀ {w v : Surroundings} {c}, s.stocks w.stock v.stock → w.store.load thread = .ok (some c) →
    c.thread = .str thread
  load : ∀ {w v : Surroundings}, s.stocks w.stock v.stock →
    Both (Option.Rel s.records) (w.store.load thread) (v.store.load thread)
  list : ∀ {w v : Surroundings}, s.stocks w.stock v.stock →
    Both (List.Forall₂ s.records) (w.store.list thread) (v.store.list thread)
  delete : ∀ {w v : Surroundings}, s.stocks w.stock v.stock →
    Both (fun x y => s.stocks { w.stock with store := x.1 } { v.stock with store := y.1 } ∧ x.2 = y.2)
      (w.store.delete thread) (v.store.delete thread)
  draw : ∀ {w v : Surroundings} {e : Execution} {graph : String}, e.thread = thread → s.stocks w.stock v.stock →
    s.room (w.save (e.checkpoint graph)).1 →
      Surroundings.Paired (fun w v => s.stocks w.stock v.stock) (fun c c' => c.state = c'.state)
        (w.save (e.checkpoint graph)) (v.save (e.checkpoint graph))
  redraw : ∀ {w v : Surroundings} {c c' : Checkpoint} {error : Value}, w.store.load thread = .ok (some c) →
    s.records c c' → s.stocks w.stock v.stock → s.room (w.save (c.failed error)).1 →
      Surroundings.Paired (fun w v => s.stocks w.stock v.stock) (fun c c' => c.state = c'.state)
        (w.save (c.failed error)) (v.save (c'.failed error))

/-- Nodes that run in the thread with the providers come to the same, and keep what calls share related. -/
def Share.Runs (s : Share) (d : Definition) (ps : Providers) (thread : String) : Prop :=
  ∀ {w v : Surroundings} (entry : Entry) (p : Position), s.stocks w.stock v.stock →
    let x := d.turn ⟨ps, entry⟩ thread p w.calls
    let y := d.turn ⟨ps, entry⟩ thread p v.calls
    x.2 = y.2 ∧ x.1.forgotten = y.1.forgotten ∧ x.1.cancelled = y.1.cancelled ∧
      s.stocks (w.absorb thread x.1).stock (v.absorb thread y.1).stock

namespace Engine

open Surroundings (Paired Shows)

variable {g : Engine} {s : Share} {w v : Surroundings} {thread : String} {e e' : Execution}

/-- An engine in use, and in what is shown of it. -/
def viewed (l : View) (s : Share) (thread : String) : Bond where
  thread
  around := Shows l s
  room := s.room

theorem Shows.save {snapshot snapshot' : (id timestamp : Value) → Checkpoint} {S : Checkpoint → Checkpoint → Prop}
    (h : w.Seen l v) (saved : Paired (fun w v => s.stocks w.stock v.stock) S (w.save snapshot) (v.save snapshot')) :
    Paired (Shows l s) S (w.save snapshot) (v.save snapshot') :=
  ⟨⟨⟨h.divided, h.bus, h.deliveries, h.active, h.cancels⟩, saved.around⟩, saved.answer⟩

theorem level_viewed (h : s.Keeps thread) (sees : l.sees thread = true) (g : Engine) :
    Level (viewed l s thread) (Shows l s) g g where
  definition := rfl
  full := h.full _
  emit own hw := ⟨hw.seen.emit (own ▸ sees), by rw [Surroundings.stock_emit, Surroundings.stock_emit]; exact hw.stocks⟩
  emitLast own hw :=
    ⟨hw.seen.emitLast (own ▸ sees), by rw [Surroundings.stock_emitLast, Surroundings.stock_emitLast]; exact hw.stocks⟩
  save {w v e e'} he _ _ hw room := by
    obtain rfl := he.eq id
    have saved := Shows.save hw.seen (h.draw he.own hw.stocks room)
    exact ⟨saved.around, saved.answer.imp fun _ => trivial⟩
  record {w v e e' f} he hw room := by
    obtain rfl := he.eq id
    have own : (e'.failed f).thread = thread := he.own
    have loads := h.load hw.stocks
    unfold record at room ⊢
    rw [own] at room ⊢
    generalize load : w.store.load thread = x at loads room ⊢
    generalize v.store.load thread = y at loads ⊢
    cases loads with
    | error f => exact ⟨hw, .error f⟩
    | ok last =>
      cases last with
      | none => exact Shows.save hw.seen (h.draw own hw.stocks room)
      | some last => exact Shows.save hw.seen (h.redraw load last hw.stocks room)

theorem abreast_viewed (h : s.Keeps thread) (sees : l.sees thread = true)
    (runs : s.Runs g.definition g.providers thread) : Abreast (viewed l s thread) g g where
  toLevel := level_viewed h sees g
  limit := rfl
  before := rfl
  after := rfl
  cancelled hw := hw.seen.isCancelled sees
  turn entry p hw := by
    obtain ⟨same, forgotten, cancelled, stocks⟩ := runs entry p hw.stocks
    exact ⟨⟨hw.seen.absorb forgotten cancelled sees, stocks⟩, same⟩
  going _ _ := trivial
  note {w v e e' p} he _ _ hw room := by
    obtain rfl := he.eq id
    unfold note at room ⊢
    generalize g.config.mode = mode at room ⊢
    cases mode with
    | interruptsOnly => exact ⟨hw, .ok trivial⟩
    | everyStep =>
      refine Paired.chain (fun room => Shows.save hw.seen (h.draw (e := e'.arrived p) he.own hw.stocks room)) ?_ id room
      exact fun hw _ _ => ⟨hw, .ok trivial⟩

theorem partners_viewed (h : s.Keeps thread) (sees : l.sees thread = true) {o : CallOptions}
    (runs : ∀ ps, g.providers.layer o.providers = .ok ps → s.Runs g.definition ps thread) :
    Partners (viewed l s thread) g g o (l.options thread o) where
  toLevel := level_viewed h sees g
  begun := level_viewed h sees g
  settings {c c'} same := by
    obtain rfl : c = c' := same
    rfl
  names := rfl
  runs := by
    show Both _ (g.providers.layer o.providers) (g.providers.layer o.providers)
    cases hl : g.providers.layer o.providers with
    | error f => exact .error f
    | ok ps =>
      refine .ok fun c c' same => ?_
      obtain rfl : c = c' := same
      exact abreast_viewed (g := { g with config := c, providers := ps }) h sees (runs ps hl)
  begins _ _ := trivial
  first he _ _ hw room := by
    obtain rfl := he.eq id
    have saved := Shows.save hw.seen (h.draw he.own hw.stocks room)
    exact ⟨saved.around, saved.answer.imp fun _ => trivial⟩
  enter _ hw := ⟨hw.seen.activate _, by rw [Surroundings.stock_activate, Surroundings.stock_activate]; exact hw.stocks⟩
  release hw := ⟨hw.seen.release _, hw.stocks⟩
  released := h.released

/-! ### Answers in view -/

theorem tell_viewed (h : s.Keeps thread) (hw : Shows l s w v) : Partners.Tell (viewed l s thread) w v := by
  have loads := h.load hw.stocks
  have owned : ∀ {c}, w.store.load thread = .ok (some c) → c.thread = .str thread := h.own hw.stocks
  unfold Partners.Tell
  show Both _ (w.store.load thread) (v.store.load thread)
  generalize w.store.load thread = x at loads owned ⊢
  generalize v.store.load thread = y at loads ⊢
  cases loads with
  | error f => exact .error f
  | ok related =>
    cases related with
    | none => exact .ok .none
    | some related =>
      have marked := h.records related
      rw [Checkpoint.Marked] at marked
      refine .ok (.some ⟨by rw [marked], by rw [marked], fun _ => ⟨?_, ?_, by rw [owned rfl]; rfl⟩⟩)
      · exact marked.trans (by rw [marked])
      · rw [marked]
        rfl

theorem lastCheckpoint_viewed (h : s.Keeps thread) (hw : Shows l s w v) :
    Both s.records (g.lastCheckpoint thread w.store) (g.lastCheckpoint thread v.store) := by
  unfold lastCheckpoint
  refine (h.load hw.stocks).bind fun {x y} related => ?_
  cases related with
  | none => exact .error _
  | @some c c' related =>
    have graph : c'.graph = c.graph := by rw [h.records related]
    show Both _ (if c.graph.equal _ then _ else _) (if c'.graph.equal _ then _ else _)
    rw [graph]
    split
    · exact .ok related
    · exact .error _

variable {a : Ask}

/-- What is asked of a thread that is shown is answered alike, as far as there is room. -/
theorem answer_viewed (h : s.Keeps a.thread) (sees : l.sees a.thread = true)
    (runs : ∀ ps, g.providers.layer a.options.providers = .ok ps → s.Runs g.definition ps a.thread)
    (aside : ∀ o ∈ a.observers, o.Aside l a.thread) (hw : Shows l s w v) (room : s.room (g.answer w a).1) :
    Shows l s (g.answer w a).1 (g.answer v (l.ask a)).1 ∧
      Answer.Alike s.records (g.answer w a).2 (g.answer v (l.ask a)).2 := by
  have served : ∀ {x y : Surroundings × Except Fault (Option Outcome)},
      Paired (Shows l s) (Option.Rel (Outcome.Alike (viewed l s a.thread))) x y →
        Shows l s x.1 y.1 ∧ Answer.Alike s.records (.outcome x.2) (.outcome y.2) := by
    intro x y paired
    have same : Both Eq x.2 y.2 := paired.answer.imp fun {a b} alike => by
      cases alike with
      | none => rfl
      | some alike => rw [alike.eq id]
    exact ⟨paired.around, same.eq ▸ .same _⟩
  cases a with
  | request r =>
    have partners := partners_viewed (g := g) h sees runs
    have loads : Partners.Tell (viewed l s r.thread) w v := tell_viewed h hw
    cases r with
    | start t input o =>
      have attended : Shows l s (w.attended t o.observers) (v.attended t (l.options t o).observers) :=
        ⟨hw.seen.attended aside, hw.stocks⟩
      have joined : Shows l s (w.joined t o.observers) (v.joined t (l.options t o).observers) :=
        ⟨hw.seen.joined aside, by rw [Surroundings.stock_joined, Surroundings.stock_joined]; exact hw.stocks⟩
      exact served ((partners.start (Both.refl (fun _ => rfl) _) loads hw attended joined room).map .some)
    | resume t value o =>
      have settled : Partners.Settled (viewed l s t) g g o (l.options t o) := by
        rintro m _ ⟨⟩
        exact Both.refl (fun _ => rfl) _
      exact served ((partners.resume settled loads hw (fun _ _ => trivial) room).map .some)
    | cancel t =>
      have asked : Shows l s (w.requestCancel t) (v.requestCancel t) := by
        refine ⟨hw.seen.requestCancel sees, ?_⟩
        rw [Surroundings.stock_requestCancel, Surroundings.stock_requestCancel]
        exact hw.stocks
      exact served (partners.cancel loads hw (hw.seen.isActive sees) asked room)
    | delete t =>
      have deleted := h.delete hw.stocks
      change Both _ (w.store.delete t) (v.store.delete t) at deleted
      simp only [answer, View.ask, View.request, delete]
      generalize w.store.delete t = x at deleted ⊢
      generalize v.store.delete t = y at deleted ⊢
      cases deleted with
      | error f => exact ⟨hw, .same _⟩
      | ok related =>
        obtain ⟨stocks, same⟩ := related
        dsimp only
        rw [same]
        have cleared := hw.seen.clear t
        exact ⟨⟨⟨cleared.divided, cleared.bus, cleared.deliveries, cleared.active, cleared.cancels⟩, stocks⟩, .same _⟩
  | state t =>
    refine ⟨hw, ?_⟩
    have same : g.state t w = g.state t v := by
      refine ((lastCheckpoint_viewed (g := g) h hw).bind (T := Eq) fun {c c'} related => .ok ?_).eq
      rw [h.records related]
    simp only [answer, View.ask, same]
    exact .same _
  | outcome t =>
    refine ⟨hw, ?_⟩
    have same : g.outcome t w = g.outcome t v := by
      refine ((lastCheckpoint_viewed (g := g) h hw).bind (T := Eq) fun {c c'} related => ?_).eq
      rw [h.records related]
      exact Both.refl (fun _ => rfl) _
    simp only [answer, View.ask, same]
    exact .same _
  | history t => exact ⟨hw, .history (h.list hw.stocks)⟩

/-- What is done with a thread that is shown comes to the same in what is shown of it. -/
theorem use_viewed {u : Use} (h : s.Keeps u.thread) (sees : l.sees u.thread = true)
    (runs : ∀ ps, g.providers.layer u.options.providers = .ok ps → s.Runs g.definition ps u.thread)
    (aside : u.Aside l) (hw : Shows l s w v) (room : s.room (g.use w u).1) :
    Shows l s (g.use w u).1 (g.useAll v (l.use? u).toList).1 ∧
      List.Forall₂ (fun x y => x.1 = y.1 ∧ Answer.Alike s.records x.2 y.2)
        ((g.use w u).2.toList.map fun a => (u.thread, a)) (g.useAll v (l.use? u).toList).2 := by
  cases u with
  | ask a =>
    obtain ⟨shows, alike⟩ := answer_viewed h sees runs aside hw room
    have shown : l.use? (.ask a) = some (.ask (l.ask a)) := if_pos sees
    rw [shown]
    refine ⟨shows, .cons ⟨?_, alike⟩ .nil⟩
    show a.thread = (l.ask a).thread
    cases a with
    | request r => cases r <;> rfl
    | state | outcome | history => rfl
  | subscribe handle t o =>
    obtain ⟨divided, seen⟩ := hw.seen.divided.subscribeAs aside.1 aside.2
    have shows : ∀ {b : Bus}, b = (w.bus.subscribeAs handle t o).seen l →
        Shows l s { w with bus := w.bus.subscribeAs handle t o } { v with bus := b } := fun same =>
      ⟨⟨divided, same, hw.seen.deliveries, hw.seen.active, hw.seen.cancels⟩, hw.stocks⟩
    rw [View.use?]
    cases shown : l.shows t o.name with
    | true =>
      rw [shown, if_pos rfl, ← hw.seen.bus] at seen
      exact ⟨shows seen.symm, .nil⟩
    | false =>
      rw [shown, if_neg Bool.false_ne_true, ← hw.seen.bus] at seen
      exact ⟨shows seen.symm, .nil⟩

end Engine

end Workflow
