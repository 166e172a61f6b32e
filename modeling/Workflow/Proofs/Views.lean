import Workflow.Proofs.Fleet

/-! # Views

A view of an engine in use shows some threads, and of those who follow them some observers (`View`). What it shows of
surroundings can be surroundings by itself (`Surroundings.Seen`): events of the threads it shows go to the observers
that it shows alike, and calls of others leave it as it is, as long as those that it does not show do nothing about
the threads that it shows (`Bus.Divided`). What calls share besides is their `Stock`. -/

namespace Workflow

/-! ### Engines in use -/

/-- What is done with an engine: something is asked of it, or an observer is to follow a thread. -/
inductive Use where
  | ask (a : Ask)
  | subscribe (handle thread : String) (observer : Observer)

def Ask.thread : Ask → String
  | .request r => r.thread
  | .state t | .outcome t | .history t => t

def Use.thread : Use → String
  | .ask a => a.thread
  | .subscribe _ t _ => t

namespace Engine

def use (g : Engine) (w : Surroundings) : Use → Surroundings × Option Answer
  | .ask a => let x := g.answer w a; (x.1, some x.2)
  | .subscribe handle thread observer => ({ w with bus := w.bus.subscribeAs handle thread observer }, none)

/-- The surroundings after an engine has been used, and what was answered, each for its thread. -/
def useAll (g : Engine) : Surroundings → List Use → Surroundings × List (String × Answer)
  | w, [] => (w, [])
  | w, u :: us =>
    let x := g.use w u
    let y := g.useAll x.1 us
    (y.1, (x.2.toList.map fun a => (u.thread, a)) ++ y.2)

theorem useAll_append (g : Engine) (w : Surroundings) (us us' : List Use) : g.useAll w (us ++ us') =
    ((g.useAll (g.useAll w us).1 us').1, (g.useAll w us).2 ++ (g.useAll (g.useAll w us).1 us').2) := by
  induction us generalizing w with
  | nil => rfl
  | cons u us ih => simp only [List.cons_append, useAll, ih, List.append_assoc]

/-- What calls of a thread keep is kept by all that is asked of it. -/
theorem stable_answer {g : Engine} {P : Surroundings → Prop} {a : Ask} {w : Surroundings}
    (h : Surroundings.StableCalls g.definition.name a.thread a.observers P) (hw : P w) : P (g.answer w a).1 := by
  cases a with
  | request r =>
    have served : P (g.serve w r).1 := stable_serve h hw
    cases r <;> exact served
  | state | outcome | history => exact hw

end Engine

/-! ### Views of buses -/

/-- What is shown: some threads, and of those who follow them observers of some names. These are registered under
    handles of their own. -/
structure View where
  sees : String → Bool
  shows : (thread name : String) → Bool
  holds : String → Bool
  unseen : ∀ {thread}, sees thread = false → ∀ name, shows thread name = false

variable {l : View}

namespace View

def ofRegistration (l : View) (r : Registration) : Bool := l.shows r.thread r.observer.name

def ofDelivery (l : View) (d : Delivery) : Bool := l.shows d.event.thread d.observer

def observers (l : View) (thread : String) (os : List Observer) : List Observer :=
  os.filter fun o => l.shows thread o.name

/-- The options of a call, with those of its observers who are shown. -/
def options (l : View) (thread : String) (o : CallOptions) : CallOptions :=
  { o with observers := l.observers thread o.observers }

def request (l : View) : Request → Request
  | .start t input o => .start t input (l.options t o)
  | .resume t value o => .resume t value (l.options t o)
  | r => r

def ask (l : View) : Ask → Ask
  | .request r => .request (l.request r)
  | a => a

/-- What is shown of a use. -/
def use? (l : View) : Use → Option Use
  | .ask a => if l.sees a.thread then some (.ask (l.ask a)) else none
  | .subscribe h t o => if l.shows t o.name then some (.subscribe h t o) else none

theorem observers_unseen {thread : String} (unseen : l.sees thread = false) (os : List Observer) :
    l.observers thread os = [] :=
  List.filter_eq_nil_iff.mpr fun o _ => by rw [l.unseen unseen]; exact Bool.false_ne_true

end View

/-- Those who are not shown do nothing about the threads that are. -/
structure Observer.Aside (l : View) (thread : String) (o : Observer) : Prop where
  still : l.sees thread = true → l.shows thread o.name = false → ∀ e, o.react e = []
  spares : l.sees thread = false → ∀ e h, .unsubscribe h ∈ o.react e → l.holds h = false

/-- Those whom the use brings and who are not shown do nothing about what is, and have handles of their own. -/
def Use.Aside (l : View) : Use → Prop
  | .ask a => ∀ o ∈ a.observers, o.Aside l a.thread
  | .subscribe h t o => o.Aside l t ∧ l.holds h = l.shows t o.name

/-- The view is of those who are registered under its handles, and the others keep aside. -/
structure Bus.Divided (l : View) (b : Bus) : Prop where
  handles : ∀ h r, (h, r) ∈ b.handles → l.holds h = l.ofRegistration r
  aside : ∀ r ∈ b.registrations, r.observer.Aside l r.thread

/-- What a view shows of a bus. -/
def Bus.seen (b : Bus) (l : View) : Bus :=
  { enabled := b.enabled
    registrations := b.registrations.filter l.ofRegistration
    handles := b.handles.filter fun h => l.holds h.1 }

theorem filter_eraseP {α : Type} {p q : α → Bool} (xs : List α) (h : ∀ x ∈ xs, q x = true → p x = true) :
    (xs.eraseP q).filter p = (xs.filter p).eraseP q := by
  induction xs with
  | nil => rfl
  | cons x xs ih =>
    have rest := ih fun y hy => h y (List.mem_cons_of_mem x hy)
    rw [List.eraseP_cons, List.filter_cons]
    cases hx : q x with
    | true => rw [h x List.mem_cons_self hx, if_pos rfl, List.eraseP_cons, hx, cond_true, cond_true]
    | false =>
      rw [cond_false, List.filter_cons, rest]
      split
      · rw [List.eraseP_cons, hx, cond_false]
      · rfl

theorem filter_eraseP_of_not {α : Type} {p q : α → Bool} (xs : List α) (h : ∀ x ∈ xs, q x = true → p x = false) :
    (xs.eraseP q).filter p = xs.filter p := by
  induction xs with
  | nil => rfl
  | cons x xs ih =>
    have rest := ih fun y hy => h y (List.mem_cons_of_mem x hy)
    rw [List.eraseP_cons, List.filter_cons]
    cases hx : q x with
    | true => rw [h x List.mem_cons_self hx, cond_true, if_neg Bool.false_ne_true]
    | false => rw [cond_false, List.filter_cons, rest]

theorem lookup_filter {α β : Type} [BEq α] [LawfulBEq α] {p : α → Bool} (xs : List (α × β)) (a : α) :
    (xs.filter fun x => p x.1).lookup a = if p a then xs.lookup a else none := by
  induction xs with
  | nil => simp
  | cons x xs ih =>
    obtain ⟨b, v⟩ := x
    rw [List.filter_cons, List.lookup_cons]
    by_cases same : a = b
    · subst same
      cases h : p a with
      | true => simp
      | false => simpa [h] using ih
    · have differs : (a == b) = false := beq_false_of_ne same
      rw [differs]
      dsimp only
      rw [← ih]
      cases h : p b with
      | true => rw [if_pos rfl, List.lookup_cons, differs]
      | false => rw [if_neg Bool.false_ne_true]

namespace Bus

variable {b : Bus} {e : Event} {thread : String}

theorem matches_shown {r s : Registration} (h : s.matches r = true) : l.ofRegistration s = l.ofRegistration r := by
  simp only [Registration.matches, Bool.and_eq_true, beq_iff_eq] at h
  rw [View.ofRegistration, View.ofRegistration, h.1, h.2]

theorem Divided.sublist (h : b.Divided l) {b' : Bus} (handles : b'.handles = b.handles)
    (fewer : ∀ r ∈ b'.registrations, r ∈ b.registrations) : b'.Divided l :=
  ⟨handles ▸ h.handles, fun r hr => h.aside r (fewer r hr)⟩

theorem Divided.unsubscribe (h : b.Divided l) (handle : String) :
    (b.unsubscribe handle).Divided l ∧ (b.unsubscribe handle).seen l = (b.seen l).unsubscribe handle := by
  unfold Bus.unsubscribe
  have told : (b.seen l).handles.lookup handle = if l.holds handle then b.handles.lookup handle else none :=
    lookup_filter b.handles handle
  rw [told]
  cases hr : b.handles.lookup handle with
  | none => exact ⟨h, by split <;> rename_i some <;> simp_all⟩
  | some r =>
    obtain ⟨before, after, same, -⟩ := List.lookup_eq_some_iff.mp hr
    have mem : (handle, r) ∈ b.handles := by
      rw [same]
      exact List.mem_append_right before List.mem_cons_self
    have shown := h.handles handle r mem
    refine ⟨h.sublist rfl fun s hs => List.mem_of_mem_eraseP hs, ?_⟩
    cases held : l.holds handle with
    | true =>
      have erased : (b.registrations.eraseP fun s => s.matches r).filter l.ofRegistration =
          (b.registrations.filter l.ofRegistration).eraseP fun s => s.matches r :=
        filter_eraseP _ fun s _ hs => by rw [matches_shown hs, ← shown, held]
      simp only [if_true, seen, erased]
    | false =>
      have kept : (b.registrations.eraseP fun s => s.matches r).filter l.ofRegistration =
          b.registrations.filter l.ofRegistration :=
        filter_eraseP_of_not _ fun s _ hs => by rw [matches_shown hs, ← shown, held]
      simp only [Bool.false_eq_true, if_false, seen, kept]

theorem Divided.reacted (h : b.Divided l) (reactions : List Reaction) : (reactions.foldl reacted b).Divided l ∧
    (reactions.foldl Bus.reacted b).seen l = reactions.foldl Bus.reacted (b.seen l) := by
  induction reactions generalizing b with
  | nil => exact ⟨h, rfl⟩
  | cons reaction reactions ih =>
    rw [List.foldl_cons, List.foldl_cons]
    cases reaction with
    | cancel => exact ih h
    | unsubscribe handle =>
      obtain ⟨divided, same⟩ := h.unsubscribe handle
      rw [Bus.reacted, Bus.reacted, ← same]
      exact ih divided

theorem audience_seen (b : Bus) (l : View) (thread : String) :
    (b.seen l).audience thread = l.observers thread (b.audience thread) := by
  rw [audience, audience, View.observers, List.filter_map, seen, List.filter_filter, List.filter_filter]
  refine congrArg _ (List.filter_congr fun r _ => ?_)
  by_cases own : r.thread = thread
  · simp [View.ofRegistration, own]
  · rw [beq_false_of_ne own, Bool.false_and, Bool.and_false]

theorem receivers_seen (b : Bus) (l : View) (e : Event) :
    (b.seen l).receivers e = l.observers e.thread (b.receivers e) := by
  rw [receivers, receivers, audience_seen]
  show (if b.enabled then _ else _) = _
  split <;> rfl

/-- Who is not shown does nothing about an event of a thread that is. -/
theorem Divided.reactions (h : b.Divided l) (sees : l.sees e.thread = true) :
    (b.seen l).reactions e = b.reactions e := by
  have still : ∀ o ∈ b.receivers e, l.shows e.thread o.name = false → o.react e = [] := by
    intro o ho hidden
    obtain ⟨r, hr, own, rfl⟩ := mem_receivers ho
    exact (h.aside r hr).still (own ▸ sees) (own ▸ hidden) e
  rw [Bus.reactions, Bus.reactions, hear_eq, hear_eq, receivers_seen]
  generalize b.receivers e = os at still
  induction os with
  | nil => rfl
  | cons o os ih =>
    have rest := ih fun o' ho' => still o' (List.mem_cons_of_mem o ho')
    rw [View.observers, List.filter_cons, List.flatMap_cons, ← rest]
    cases shown : l.shows e.thread o.name with
    | true => rfl
    | false =>
      rw [still o List.mem_cons_self shown]
      rfl

theorem Divided.emitted (h : b.Divided l) (sees : l.sees e.thread = true) :
    (b.emitted e).Divided l ∧ (b.emitted e).seen l = (b.seen l).emitted e := by
  obtain ⟨divided, same⟩ := h.reacted (b.reactions e)
  refine ⟨divided, ?_⟩
  rw [Bus.emitted, Bus.emitted, h.reactions sees]
  exact same

/-- An event of a thread that is not shown leaves those who are. -/
theorem Divided.emitted_unseen (h : b.Divided l) (unseen : l.sees e.thread = false) :
    (b.emitted e).Divided l ∧ (b.emitted e).seen l = b.seen l := by
  obtain ⟨divided, same⟩ := h.reacted (b.reactions e)
  refine ⟨divided, same.trans ?_⟩
  have spared : ∀ handle, .unsubscribe handle ∈ b.reactions e → l.holds handle = false := by
    intro handle mem
    obtain ⟨r, hr, own, hreact⟩ := mem_reactions mem
    exact (h.aside r hr).spares (own ▸ unseen) e handle hreact
  clear same divided
  generalize b.reactions e = reactions at spared
  induction reactions with
  | nil => rfl
  | cons reaction reactions ih =>
    have rest := ih fun handle mem => spared handle (List.mem_cons_of_mem _ mem)
    rw [List.foldl_cons]
    cases reaction with
    | cancel => exact rest
    | unsubscribe handle =>
      have none : (b.seen l).handles.lookup handle = none := by
        have told : (b.seen l).handles.lookup handle = if l.holds handle then b.handles.lookup handle else none :=
          lookup_filter b.handles handle
        rw [told, spared handle List.mem_cons_self, if_neg Bool.false_ne_true]
      have same : (b.seen l).reacted (.unsubscribe handle) = b.seen l := by
        rw [Bus.reacted, Bus.unsubscribe, none]
      rw [same]
      exact rest

theorem deliveries_seen (b : Bus) (l : View) (e : Event) :
    (b.seen l).deliveries e = (b.deliveries e).filter l.ofDelivery := by
  rw [deliveries, deliveries, receivers_seen, List.filter_map]
  rfl

theorem Divided.clear (h : b.Divided l) (thread : String) :
    (b.clear thread).Divided l ∧ (b.clear thread).seen l = (b.seen l).clear thread := by
  refine ⟨h.sublist rfl fun r hr => (List.mem_filter.mp hr).1, ?_⟩
  simp only [seen, Bus.clear, List.filter_filter, Bool.and_comm]

theorem clear_unseen (unseen : l.sees thread = false) : (b.seen l).clear thread = b.seen l := by
  have kept : ((b.seen l).registrations.filter fun r => r.thread != thread) = (b.seen l).registrations := by
    refine List.filter_eq_self.mpr fun r hr => ?_
    rw [bne_iff_ne]
    rintro rfl
    have shown := (List.mem_filter.mp hr).2
    rw [View.ofRegistration, l.unseen unseen] at shown
    cases shown
  rw [Bus.clear, kept]

theorem Divided.subscribeAll (h : b.Divided l) {observers : List Observer}
    (aside : ∀ o ∈ observers, o.Aside l thread) : (b.subscribeAll thread observers).Divided l ∧
      (b.subscribeAll thread observers).seen l = (b.seen l).subscribeAll thread (l.observers thread observers) := by
  rw [subscribeAll_eq, subscribeAll_eq]
  refine ⟨⟨h.handles, fun r hr => ?_⟩, ?_⟩
  · rcases List.mem_append.mp hr with hr | hr
    · exact h.aside r hr
    · obtain ⟨o, ho, rfl⟩ := List.mem_map.mp hr
      exact aside o ho
  · simp only [seen, List.filter_append, List.filter_map]
    rfl

theorem Divided.subscribeAs (h : b.Divided l) {handle : String} {o : Observer} (aside : o.Aside l thread)
    (held : l.holds handle = l.shows thread o.name) : (b.subscribeAs handle thread o).Divided l ∧
      (b.subscribeAs handle thread o).seen l =
        if l.shows thread o.name then (b.seen l).subscribeAs handle thread o else b.seen l := by
  have shown : l.ofRegistration ⟨thread, o⟩ = l.shows thread o.name := rfl
  refine ⟨⟨fun k r hr => ?_, fun r hr => ?_⟩, ?_⟩
  · rcases List.mem_cons.mp hr with hr | hr
    · cases hr
      exact held
    · exact h.handles k r hr
  · rcases List.mem_append.mp hr with hr | hr
    · exact h.aside r hr
    · rw [List.mem_singleton.mp hr]
      exact aside
  · cases hs : l.shows thread o.name <;>
      simp [Bus.subscribeAs, subscribe, seen, List.filter_append, shown, held, hs]

end Bus

/-! ### Views of surroundings -/

/-- What calls of all threads share: the store, how many checkpoints were drawn up, and what providers served. -/
structure Stock where
  store : Store
  drawn : Nat
  calls : CallLog

namespace Surroundings

variable {w v : Surroundings} {thread other : String} {e : Event}

def stock (w : Surroundings) : Stock := ⟨w.store, w.drawn, w.calls⟩

/-- A view shows these surroundings of others, but for what calls share. -/
structure Seen (l : View) (w v : Surroundings) : Prop where
  divided : w.bus.Divided l
  bus : v.bus = w.bus.seen l
  deliveries : v.deliveries = w.deliveries.filter l.ofDelivery
  active : ∀ t, l.sees t = true → (t ∈ v.active ↔ t ∈ w.active)
  cancels : ∀ t, l.sees t = true → (t ∈ v.cancels ↔ t ∈ w.cancels)

theorem mem_activate : other ∈ (w.activate thread).active ↔ other ∈ w.active ∨ other = thread := by
  unfold activate
  split
  · rename_i running
    refine ⟨.inl, ?_⟩
    rintro (h | rfl)
    · exact h
    · exact List.contains_iff_mem.mp running
  · exact List.mem_append.trans (or_congr_right List.mem_singleton)

theorem told_requestCancel (w : Surroundings) (thread : String) :
    (w.requestCancel thread).bus = w.bus ∧ (w.requestCancel thread).deliveries = w.deliveries := by
  unfold requestCancel
  split <;> exact ⟨rfl, rfl⟩

theorem told_activate (w : Surroundings) (thread : String) :
    (w.activate thread).bus = w.bus ∧ (w.activate thread).deliveries = w.deliveries := by
  unfold activate
  split <;> exact ⟨rfl, rfl⟩

theorem told_absorb (w : Surroundings) (thread : String) (effects : Action.Effects) :
    (w.absorb thread effects).bus = w.bus ∧ (w.absorb thread effects).deliveries = w.deliveries := by
  refine absorb_induction (P := fun v => v.bus = w.bus ∧ v.deliveries = w.deliveries) ⟨rfl, rfl⟩ ?_ ?_
  · intro v h
    unfold Surroundings.forget
    split <;> exact h
  · intro v _ h
    obtain ⟨bus, deliveries⟩ := told_requestCancel v thread
    exact ⟨bus.trans h.1, deliveries.trans h.2⟩

theorem cancels_activate (w : Surroundings) (thread : String) : (w.activate thread).cancels = w.cancels := by
  unfold activate
  split <;> rfl

section Stock

@[simp] theorem stock_requestCancel (w : Surroundings) (thread : String) :
    (w.requestCancel thread).stock = w.stock := by
  unfold requestCancel
  split <;> rfl

@[simp] theorem stock_activate (w : Surroundings) (thread : String) : (w.activate thread).stock = w.stock := by
  unfold activate
  split <;> rfl

@[simp] theorem stock_attended (w : Surroundings) (thread : String) (observers : List Observer) :
    (w.attended thread observers).stock = w.stock := rfl

@[simp] theorem stock_joined (w : Surroundings) (thread : String) (observers : List Observer) :
    (w.joined thread observers).stock = w.stock :=
  stock_activate (w.attended thread observers) thread

@[simp] theorem stock_emit (w : Surroundings) (e : Event) : (w.emit e).stock = w.stock := by
  unfold emit
  dsimp only
  split
  · exact stock_requestCancel { w with bus := w.bus.emitted e, deliveries := w.deliveries ++ w.bus.deliveries e } _
  · rfl

@[simp] theorem stock_emitLast (w : Surroundings) (e : Event) : (w.emitLast e).stock = w.stock := stock_emit w e

end Stock

theorem ne_of_seen (sees : l.sees other = true) (unseen : l.sees thread = false) : other ≠ thread := by
  rintro rfl
  rw [sees] at unseen
  cases unseen

namespace Seen

variable (h : w.Seen l v)
include h

theorem isCancelled (sees : l.sees thread = true) : w.isCancelled thread = v.isCancelled thread := by
  rw [Bool.eq_iff_iff, Surroundings.isCancelled, Surroundings.isCancelled, List.contains_iff_mem, List.contains_iff_mem,
    h.cancels thread sees]

theorem isActive (sees : l.sees thread = true) : w.active.contains thread = v.active.contains thread := by
  rw [Bool.eq_iff_iff, List.contains_iff_mem, List.contains_iff_mem, h.active thread sees]

theorem requestCancel (sees : l.sees thread = true) : (w.requestCancel thread).Seen l (v.requestCancel thread) := by
  obtain ⟨bus, deliveries⟩ := told_requestCancel w thread
  obtain ⟨bus', deliveries'⟩ := told_requestCancel v thread
  refine ⟨bus ▸ h.divided, ?_, ?_, fun t ht => ?_, fun t ht => ?_⟩
  · rw [bus, bus', h.bus]
  · rw [deliveries, deliveries', h.deliveries]
  · rw [active_requestCancel, active_requestCancel, h.active t ht]
  · rw [mem_cancels_requestCancel, mem_cancels_requestCancel, h.cancels t ht, h.active thread sees]

theorem requestCancel_unseen (unseen : l.sees thread = false) : (w.requestCancel thread).Seen l v := by
  obtain ⟨bus, deliveries⟩ := told_requestCancel w thread
  refine ⟨bus ▸ h.divided, bus ▸ h.bus, deliveries ▸ h.deliveries, fun t ht => ?_, fun t ht => ?_⟩
  · rw [active_requestCancel, h.active t ht]
  · rw [mem_cancels_requestCancel, h.cancels t ht, or_iff_left fun asked => ne_of_seen ht unseen asked.1]

theorem activate (thread : String) : (w.activate thread).Seen l (v.activate thread) := by
  obtain ⟨bus, deliveries⟩ := told_activate w thread
  obtain ⟨bus', deliveries'⟩ := told_activate v thread
  refine ⟨bus ▸ h.divided, ?_, ?_, fun t ht => ?_, fun t ht => ?_⟩
  · rw [bus, bus', h.bus]
  · rw [deliveries, deliveries', h.deliveries]
  · rw [mem_activate, mem_activate, h.active t ht]
  · rw [cancels_activate, cancels_activate, h.cancels t ht]

theorem release (thread : String) : (w.release thread).Seen l (v.release thread) := by
  refine ⟨h.divided, h.bus, h.deliveries, fun t ht => ?_, fun t ht => ?_⟩
  · simp only [Surroundings.release, List.mem_filter, h.active t ht]
  · simp only [Surroundings.release, List.mem_filter, h.cancels t ht]

theorem activate_unseen (unseen : l.sees thread = false) : (w.activate thread).Seen l v := by
  obtain ⟨bus, deliveries⟩ := told_activate w thread
  refine ⟨bus ▸ h.divided, bus ▸ h.bus, deliveries ▸ h.deliveries, fun t ht => ?_, fun t ht => ?_⟩
  · rw [mem_activate, h.active t ht, or_iff_left (ne_of_seen ht unseen)]
  · rw [cancels_activate, h.cancels t ht]

theorem release_unseen (unseen : l.sees thread = false) : (w.release thread).Seen l v := by
  refine ⟨h.divided, h.bus, h.deliveries, fun t ht => ?_, fun t ht => ?_⟩
  · simp [Surroundings.release, h.active t ht, ne_of_seen ht unseen]
  · simp [Surroundings.release, h.cancels t ht, ne_of_seen ht unseen]

theorem emit (sees : l.sees e.thread = true) : (w.emit e).Seen l (v.emit e) := by
  obtain ⟨divided, same⟩ := h.divided.emitted sees
  have told : Seen l { w with bus := w.bus.emitted e, deliveries := w.deliveries ++ w.bus.deliveries e }
      { v with bus := v.bus.emitted e, deliveries := v.deliveries ++ v.bus.deliveries e } := by
    refine ⟨divided, ?_, ?_, h.active, h.cancels⟩
    · rw [same, h.bus]
    · rw [List.filter_append, h.deliveries, h.bus, Bus.deliveries_seen]
  have asked : v.bus.asksCancel e = w.bus.asksCancel e := by
    rw [Bus.asksCancel, Bus.asksCancel, h.bus, h.divided.reactions sees]
  unfold Surroundings.emit
  dsimp only
  rw [asked]
  split
  · exact told.requestCancel sees
  · exact told

theorem emit_unseen (unseen : l.sees e.thread = false) : (w.emit e).Seen l v := by
  obtain ⟨divided, same⟩ := h.divided.emitted_unseen unseen
  have told : Seen l { w with bus := w.bus.emitted e, deliveries := w.deliveries ++ w.bus.deliveries e } v := by
    refine ⟨divided, h.bus.trans same.symm, ?_, h.active, h.cancels⟩
    have hidden : (w.bus.deliveries e).filter l.ofDelivery = [] := by
      rw [← Bus.deliveries_seen, Bus.deliveries, Bus.receivers_seen, l.observers_unseen unseen]
      rfl
    rw [List.filter_append, hidden, List.append_nil, h.deliveries]
  unfold Surroundings.emit
  dsimp only
  split
  · exact told.requestCancel_unseen unseen
  · exact told

theorem clear (thread : String) :
    Seen l { w with bus := w.bus.clear thread } { v with bus := v.bus.clear thread } := by
  obtain ⟨divided, same⟩ := h.divided.clear thread
  exact ⟨divided, by rw [same, h.bus], h.deliveries, h.active, h.cancels⟩

theorem clear_unseen (unseen : l.sees thread = false) : Seen l { w with bus := w.bus.clear thread } v := by
  obtain ⟨divided, same⟩ := h.divided.clear thread
  exact ⟨divided, by rw [same, Bus.clear_unseen unseen, h.bus], h.deliveries, h.active, h.cancels⟩

theorem emitLast (sees : l.sees e.thread = true) : (w.emitLast e).Seen l (v.emitLast e) := (h.emit sees).clear e.thread

theorem emitLast_unseen (unseen : l.sees e.thread = false) : (w.emitLast e).Seen l v :=
  (h.emit_unseen unseen).clear_unseen unseen

theorem attended {observers : List Observer} (aside : ∀ o ∈ observers, o.Aside l thread) :
    (w.attended thread observers).Seen l (v.attended thread (l.observers thread observers)) := by
  obtain ⟨divided, same⟩ := h.divided.subscribeAll aside
  exact ⟨divided, by rw [Surroundings.attended, Surroundings.attended, same, h.bus], h.deliveries, h.active, h.cancels⟩

theorem attended_unseen {observers : List Observer} (aside : ∀ o ∈ observers, o.Aside l thread)
    (unseen : l.sees thread = false) : (w.attended thread observers).Seen l v := by
  obtain ⟨divided, same⟩ := h.divided.subscribeAll aside
  rw [l.observers_unseen unseen] at same
  exact ⟨divided, h.bus.trans same.symm, h.deliveries, h.active, h.cancels⟩

theorem joined {observers : List Observer} (aside : ∀ o ∈ observers, o.Aside l thread) :
    (w.joined thread observers).Seen l (v.joined thread (l.observers thread observers)) :=
  (h.attended aside).activate thread

theorem forget (thread : String) : (w.forget thread).Seen l (v.forget thread) := by
  unfold Surroundings.forget
  split <;> split <;> exact ⟨h.divided, h.bus, h.deliveries, h.active, h.cancels⟩

theorem forget_unseen (thread : String) : (w.forget thread).Seen l v := by
  unfold Surroundings.forget
  split <;> exact ⟨h.divided, h.bus, h.deliveries, h.active, h.cancels⟩

theorem absorb {x y : Action.Effects} (forgotten : x.forgotten = y.forgotten) (cancelled : x.cancelled = y.cancelled)
    (sees : l.sees thread = true) : (w.absorb thread x).Seen l (v.absorb thread y) := by
  have logged : Seen l { w with calls := x.calls, trace := w.trace ++ x.trace }
      { v with calls := y.calls, trace := v.trace ++ y.trace } :=
    ⟨h.divided, h.bus, h.deliveries, h.active, h.cancels⟩
  unfold Surroundings.absorb
  dsimp only
  rw [forgotten, cancelled]
  cases y.forgotten <;> cases y.cancelled
  · exact logged
  · exact logged.requestCancel sees
  · exact logged.forget thread
  · exact (logged.forget thread).requestCancel sees

theorem absorb_unseen (unseen : l.sees thread = false) (effects : Action.Effects) :
    (w.absorb thread effects).Seen l v :=
  absorb_induction (P := fun u => u.Seen l v) ⟨h.divided, h.bus, h.deliveries, h.active, h.cancels⟩
    (fun h => h.forget_unseen thread) fun _ h => h.requestCancel_unseen unseen

end Seen

end Surroundings

/-! ### What calls do to what they share -/

/-- The property is kept by everything that calls of the graph for the thread do to what calls share. -/
structure Stock.Stable (graph thread : String) (Q : Stock → Prop) : Prop where
  save : ∀ {w : Surroundings} {snapshot}, w.Draws graph thread snapshot → Q w.stock → Q (w.save snapshot).1.stock
  logged : ∀ {x : Stock} calls, Q x → Q { x with calls }
  deleted : ∀ {x : Stock} {store n}, Q x → x.store.delete thread = .ok (store, n) → Q { x with store }

theorem Stock.Stable.and {graph thread : String} {Q R : Stock → Prop} (h : Stable graph thread Q)
    (h' : Stable graph thread R) : Stable graph thread fun x => Q x ∧ R x where
  save draws hw := ⟨h.save draws hw.1, h'.save draws hw.2⟩
  logged calls hx := ⟨h.logged calls hx.1, h'.logged calls hx.2⟩
  deleted hx deleted := ⟨h.deleted hx.1 deleted, h'.deleted hx.2 deleted⟩

namespace Surroundings

variable {graph thread : String} {Q : Stock → Prop}

theorem stable_of_stock (h : Stock.Stable graph thread Q) : Stable graph thread fun w => Q w.stock where
  emit e _ hw := by rwa [stock_emit]
  emitLast e _ hw := by rwa [stock_emitLast]
  save := h.save
  absorb effects hw := by
    refine absorb_induction (P := fun w => Q w.stock) (h.logged _ hw) ?_ fun _ hw => by rwa [stock_requestCancel]
    intro v hw
    unfold forget
    split
    · rename_i forgotten
      exact h.deleted hw forgotten
    · exact hw

theorem stableCalls_of_stock (h : Stock.Stable graph thread Q)
    (owned : ∀ {x c}, Q x → x.store.load thread = .ok (some c) → c.thread = .str thread) (observers : List Observer) :
    StableCalls graph thread observers fun w => Q w.stock where
  toStable := stable_of_stock h
  owned hw last := owned hw last
  attended hw := hw
  activate hw := by rwa [stock_activate]
  release hw := hw
  asked hw := by rwa [stock_requestCancel]
  deleted hw deleted := h.deleted hw deleted

end Surroundings

end Workflow
