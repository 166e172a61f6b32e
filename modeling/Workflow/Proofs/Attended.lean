import Workflow.Proofs.Views

/-! Who follows a thread: observers of a name who are registered for it, and the events that they received. Those who
    follow a thread receive each of its events (`Attended.emit`), and calls of other threads are not told to them and
    leave them there (`stable_attended`), as long as nobody ends their registrations. -/

namespace Workflow

/-! ### Registrations -/

/-- How often observers of a name follow a thread. -/
def Bus.registered (b : Bus) (name thread : String) : Nat :=
  b.registrations.countP fun r => r.thread == thread && r.observer.name == name

/-- The events of a thread that observers of a name received. -/
def Surroundings.heard (w : Surroundings) (name thread : String) : List Event :=
  (w.deliveries.filter fun d => d.observer == name && d.event.thread == thread).map Delivery.event

/-- The observer does not end what was registered under the handles. -/
def Observer.Spares (o : Observer) (held : String → Prop) : Prop := ∀ e h, .unsubscribe h ∈ o.react e → ¬held h

/-- Events go to observers, and none of these ends what observers of the name have registered for the thread. -/
structure Bus.Keeps (b : Bus) (name thread : String) (held : String → Prop) : Prop where
  enabled : b.enabled = true
  handles : ∀ h r, (h, r) ∈ b.handles → r.thread = thread → r.observer.name = name → held h
  spares : ∀ r ∈ b.registrations, r.observer.Spares held

namespace Bus

variable {b : Bus} {name thread other : String} {held : String → Prop} {e : Event}

theorem Keeps.unsubscribe {h : String} (keeps : b.Keeps name thread held) (free : ¬held h) :
    (b.unsubscribe h).Keeps name thread held ∧ (b.unsubscribe h).registered name thread = b.registered name thread := by
  unfold Bus.unsubscribe
  cases hr : b.handles.lookup h with
  | none => exact ⟨keeps, rfl⟩
  | some r =>
    refine ⟨⟨keeps.enabled, keeps.handles, fun s hs => keeps.spares s (List.mem_of_mem_eraseP hs)⟩, ?_⟩
    obtain ⟨before, after, same, -⟩ := List.lookup_eq_some_iff.mp hr
    have mem : (h, r) ∈ b.handles := by
      rw [same]
      exact List.mem_append_right before List.mem_cons_self
    rw [registered, registered, List.countP_eq_length_filter, List.countP_eq_length_filter]
    refine congrArg _ (filter_eraseP_of_not _ fun s _ hs => ?_)
    simp only [Registration.matches, Bool.and_eq_true, beq_iff_eq] at hs
    rw [hs.1, hs.2]
    by_contra counted
    simp only [Bool.not_eq_false, Bool.and_eq_true, beq_iff_eq] at counted
    exact free (keeps.handles h r mem counted.1 counted.2)

/-- Whatever observers do about an event, who follows the thread still does. -/
theorem Keeps.emitted (keeps : b.Keeps name thread held) (e : Event) :
    (b.emitted e).Keeps name thread held ∧ (b.emitted e).registered name thread = b.registered name thread := by
  have spared : ∀ h, .unsubscribe h ∈ b.reactions e → ¬held h := by
    intro h hmem
    obtain ⟨r, hr, -, hreact⟩ := mem_reactions hmem
    exact keeps.spares r hr e h hreact
  unfold Bus.emitted
  generalize b.reactions e = reactions at spared
  induction reactions generalizing b with
  | nil => exact ⟨keeps, rfl⟩
  | cons reaction reactions ih =>
    have later : ∀ h, .unsubscribe h ∈ reactions → ¬held h := fun h hmem => spared h (List.mem_cons_of_mem _ hmem)
    rw [List.foldl_cons]
    cases reaction with
    | cancel => exact ih keeps later
    | unsubscribe h =>
      obtain ⟨kept, same⟩ := keeps.unsubscribe (spared h List.mem_cons_self)
      obtain ⟨kept, same'⟩ := ih kept later
      exact ⟨kept, same'.trans same⟩

theorem Keeps.clear (keeps : b.Keeps name thread held) (other : String) : (b.clear other).Keeps name thread held :=
  ⟨keeps.enabled, keeps.handles, fun r hr => keeps.spares r (List.mem_filter.mp hr).1⟩

theorem registered_clear (hne : other ≠ thread) :
    (b.clear other).registered name thread = b.registered name thread := by
  unfold clear registered
  rw [List.countP_filter]
  refine List.countP_congr fun r _ => ?_
  constructor
  · intro h
    exact (Bool.and_eq_true_iff.mp h).1
  · intro h
    have own := beq_iff_eq.mp (Bool.and_eq_true_iff.mp h).1
    rw [h, own]
    simpa using hne.symm

theorem Keeps.subscribeAll (keeps : b.Keeps name thread held) (other : String) {observers : List Observer}
    (spares : ∀ o ∈ observers, o.Spares held) : (b.subscribeAll other observers).Keeps name thread held := by
  rw [subscribeAll_eq]
  refine ⟨keeps.enabled, keeps.handles, fun r hr => ?_⟩
  rcases List.mem_append.mp hr with hr | hr
  · exact keeps.spares r hr
  · obtain ⟨o, ho, rfl⟩ := List.mem_map.mp hr
    exact spares o ho

theorem registered_subscribeAll (b : Bus) (name thread : String) (observers : List Observer) :
    (b.subscribeAll thread observers).registered name thread =
      b.registered name thread + observers.countP fun o => o.name == name := by
  rw [subscribeAll_eq, registered, List.countP_append, List.countP_map]
  simp [registered, Function.comp_def]

theorem registered_subscribeAll_of_ne (b : Bus) (name : String) (hne : other ≠ thread) (observers : List Observer) :
    (b.subscribeAll other observers).registered name thread = b.registered name thread := by
  rw [subscribeAll_eq, registered, List.countP_append, List.countP_map]
  simp [registered, Function.comp_def, hne]

theorem Keeps.subscribeAs (keeps : b.Keeps name thread held) {handle : String} {o : Observer} (spares : o.Spares held)
    (apart : other = thread → o.name ≠ name) :
    (b.subscribeAs handle other o).Keeps name thread held ∧
      (b.subscribeAs handle other o).registered name thread = b.registered name thread := by
  have uncounted : (other == thread && o.name == name) = false := by
    by_contra counted
    simp only [Bool.not_eq_false, Bool.and_eq_true, beq_iff_eq] at counted
    exact apart counted.1 counted.2
  refine ⟨⟨keeps.enabled, fun h r hr own named => ?_, fun r hr => ?_⟩, ?_⟩
  · rcases List.mem_cons.mp hr with hr | hr
    · cases hr
      exact absurd named (apart own)
    · exact keeps.handles h r hr own named
  · rcases List.mem_append.mp hr with hr | hr
    · exact keeps.spares r hr
    · rw [List.mem_singleton.mp hr]
      exact spares
  · simp only [Bus.subscribeAs, subscribe, registered, List.countP_append, List.countP_singleton, uncounted]
    rfl

/-- Everyone of the name who follows the thread receives its events. -/
theorem heard_deliveries (enabled : b.enabled = true) (name : String) (e : Event) :
    ((b.deliveries e).filter fun d => d.observer == name && d.event.thread == thread).map Delivery.event =
      if e.thread = thread then List.replicate (b.registered name thread) e else [] := by
  rw [deliveries, receivers, if_pos enabled, audience, registered]
  by_cases here : e.thread = thread
  · subst here
    rw [if_pos rfl]
    induction b.registrations with
    | nil => rfl
    | cons r rs ih =>
      by_cases own : r.thread = e.thread <;> by_cases named : r.observer.name = name <;>
        simp_all [List.replicate_succ]
  · rw [if_neg here, List.map_eq_nil_iff, List.filter_eq_nil_iff]
    intro d hd
    obtain ⟨o, -, rfl⟩ := List.mem_map.mp hd
    simp [here]

end Bus

namespace Surroundings

variable {w v : Surroundings} {name thread other : String} {held : String → Prop} {n : Nat} {es : List Event}

/-- So many observers of the name follow the thread, and this is what they were told. -/
structure Attended (name thread : String) (held : String → Prop) (n : Nat) (es : List Event) (w : Surroundings) :
    Prop where
  keeps : w.bus.Keeps name thread held
  registered : w.bus.registered name thread = n
  heard : w.heard name thread = es

theorem Attended.congr (h : w.Attended name thread held n es)
    (same : v.bus = w.bus ∧ v.deliveries = w.deliveries) : v.Attended name thread held n es := by
  obtain ⟨keeps, registered, heard⟩ := h
  unfold Surroundings.heard at heard
  rw [← same.1] at keeps registered
  rw [← same.2] at heard
  exact ⟨keeps, registered, heard⟩

theorem Attended.told (h : w.Attended name thread held n es) (e : Event) :
    (w.emit e).Attended name thread held n (es ++ if e.thread = thread then List.replicate n e else []) := by
  obtain ⟨keeps, registered⟩ := h.keeps.emitted e
  have told : Attended name thread held n (es ++ if e.thread = thread then List.replicate n e else [])
      { w with bus := w.bus.emitted e, deliveries := w.deliveries ++ w.bus.deliveries e } := by
    refine ⟨keeps, registered.trans h.registered, ?_⟩
    rw [Surroundings.heard, List.filter_append, List.map_append, Bus.heard_deliveries h.keeps.enabled, h.registered]
    exact congrArg (· ++ _) h.heard
  unfold Surroundings.emit
  dsimp only
  cases w.bus.asksCancel e with
  | true => exact told.congr (told_requestCancel _ _)
  | false => exact told

theorem Attended.emit (h : w.Attended name thread held 1 es) {e : Event} (own : e.thread = thread) :
    (w.emit e).Attended name thread held 1 (es ++ [e]) := by
  have told := h.told e
  rwa [if_pos own] at told

theorem Attended.emit_of_ne (h : w.Attended name thread held n es) {e : Event} (hne : e.thread ≠ thread) :
    (w.emit e).Attended name thread held n es := by
  have told := h.told e
  rwa [if_neg hne, List.append_nil] at told

theorem Attended.clear (h : w.Attended name thread held n es) :
    Attended name thread held 0 es { w with bus := w.bus.clear thread } := by
  refine ⟨h.keeps.clear thread, ?_, h.heard⟩
  unfold Bus.clear Bus.registered
  rw [List.countP_filter, List.countP_eq_zero]
  intro r _
  simp +contextual

theorem Attended.clear_of_ne (h : w.Attended name thread held n es) (hne : other ≠ thread) :
    Attended name thread held n es { w with bus := w.bus.clear other } :=
  ⟨h.keeps.clear other, (Bus.registered_clear hne).trans h.registered, h.heard⟩

theorem Attended.attended (h : w.Attended name thread held n es) {observers : List Observer}
    (spares : ∀ o ∈ observers, o.Spares held) :
    (w.attended thread observers).Attended name thread held (n + observers.countP fun o => o.name == name) es := by
  refine ⟨h.keeps.subscribeAll thread spares, ?_, h.heard⟩
  rw [Surroundings.attended, Bus.registered_subscribeAll, h.registered]

theorem Attended.joined (h : w.Attended name thread held n es) {observers : List Observer}
    (spares : ∀ o ∈ observers, o.Spares held) :
    (w.joined thread observers).Attended name thread held (n + observers.countP fun o => o.name == name) es :=
  (h.attended spares).congr (told_activate _ thread)

/-- Calls of other threads are not told to those who follow the thread, and leave them there. -/
theorem stable_attended {graph : String} (hne : other ≠ thread) {observers : List Observer}
    (spares : ∀ o ∈ observers, o.Spares held) :
    StableCalls graph other observers fun w => w.InMemory ∧ Attended name thread held n es w where
  emit e own h := ⟨h.1.emit e, h.2.emit_of_ne (own ▸ hne)⟩
  emitLast e own h := ⟨h.1.emitLast e, (h.2.emit_of_ne (own ▸ hne)).clear_of_ne (own ▸ hne)⟩
  save {w snapshot} _ h := by
    rw [save_eq h.1]
    exact ⟨h.1.keep _, h.2.congr ⟨rfl, rfl⟩⟩
  absorb {w} effects h := ⟨h.1.absorb other effects, h.2.congr (w.told_absorb other effects)⟩
  owned {w c} h last := by
    rw [load_eq h.1] at last
    exact thread_of_mem_records (List.mem_of_getLast? (Except.ok.inj last))
  attended {w} h :=
    ⟨h.1, h.2.keeps.subscribeAll other spares, (Bus.registered_subscribeAll_of_ne _ _ hne _).trans h.2.registered,
      h.2.heard⟩
  activate {w} h := ⟨h.1.activate, h.2.congr (w.told_activate other)⟩
  release h := ⟨h.1, h.2.congr ⟨rfl, rfl⟩⟩
  asked {w} h := ⟨h.1.requestCancel, h.2.congr (w.told_requestCancel other)⟩
  deleted {w store m} h deleted := by
    obtain ⟨saved, hs⟩ := h.1
    rw [hs] at deleted
    cases deleted
    exact ⟨⟨_, rfl⟩, (h.2.clear_of_ne hne).congr ⟨rfl, rfl⟩⟩

end Surroundings

end Workflow
