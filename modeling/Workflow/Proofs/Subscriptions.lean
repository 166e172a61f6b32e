import Workflow.Proofs.Views

/-! # Subscriptions

Each registration of an observer is to stand until its own end is asked for or its thread is cleared, and an event is to
go to those that stand when it is emitted (`Bus.standing`). A bus keeps observers and not registrations, so it ends the
first one of an observer when it is asked to end any of them. Events go to the registrations that stand as long as this
is the one that is meant (`Bus.told_to_standing`), and otherwise another one is ended (`Bus.ends_another`). -/

namespace Workflow

/-- An observer was registered for a thread; the registration can be ended if it has a handle. -/
structure Subscription where
  handle : Option String
  registration : Registration

namespace Bus

/-- What is done with a bus. -/
inductive Operation where
  | subscribe (handle : Option String) (thread : String) (observer : Observer)
  | unsubscribe (handle : String)
  | clear (thread : String)
  | emit (e : Event)

/-- What becomes of registrations: one is made, the end of one is asked for, or all of a thread are ended. -/
inductive Change where
  | made (s : Subscription)
  | ended (handle : String)
  | cleared (thread : String)

def perform (b : Bus) : Operation → Bus
  | .subscribe (some handle) thread o => b.subscribeAs handle thread o
  | .subscribe none thread o => b.subscribe thread o
  | .unsubscribe handle => b.unsubscribe handle
  | .clear thread => b.clear thread
  | .emit e => b.emitted e

def performAll (b : Bus) (ops : List Operation) : Bus := ops.foldl perform b

def Operation.handle? : Operation → Option String
  | .subscribe handle _ _ => handle
  | _ => none

def Change.ofReaction : Reaction → Option Change
  | .unsubscribe handle => some (.ended handle)
  | .cancel => none

def Change.handle? : Change → Option String
  | .made s => s.handle
  | _ => none

/-- The changes that an operation makes. Those who are told of an event may ask for the end of registrations. -/
def changes (b : Bus) : Operation → List Change
  | .subscribe handle thread o => [.made ⟨handle, thread, o⟩]
  | .unsubscribe handle => [.ended handle]
  | .clear thread => [.cleared thread]
  | .emit e => (b.reactions e).filterMap Change.ofReaction

def history : Bus → List Operation → List Change
  | _, [] => []
  | b, op :: ops => b.changes op ++ history (b.perform op) ops

/-- The change ends the registration: its own end is asked for, or its thread is cleared. -/
def Change.drops (s : Subscription) : Change → Bool
  | .made _ => false
  | .ended handle => s.handle == some handle
  | .cleared thread => s.registration.thread == thread

/-- The registrations that stand after changes: those that were made and that no later change has ended, in order. -/
def standing : List Change → List Subscription
  | [] => []
  | .made s :: later => if later.any (Change.drops s) then standing later else s :: standing later
  | _ :: later => standing later

/-- Of the registrations of the observer for the thread, the first one that stands is the one under the handle, unless
    none stands. -/
def MeansFirst (before : List Change) (handle : String) (r : Registration) : Prop :=
  ∀ s, (standing before).find? (fun s => s.registration.matches r) = some s → s.handle = some handle

/-- The registration is for the thread, and of an observer of these names. -/
def concerns (thread : String) (names : String → Bool) (r : Registration) : Bool :=
  r.thread == thread && names r.observer.name

/-- Whenever the end of a registration for the thread is asked for, of an observer of these names, it is the first one
    of its observer that stands, or none stands. -/
def EndsFirst (thread : String) (names : String → Bool) (h : List Change) : Prop :=
  ∀ before handle later r, h = before ++ .ended handle :: later → .made ⟨some handle, r⟩ ∈ before →
    concerns thread names r = true → MeansFirst before handle r

/-! ### What stands -/

/-- One more change takes away what it ends, and adds what it makes. -/
theorem standing_concat (h : List Change) (c : Change) : standing (h ++ [c]) =
    (standing h).filter (fun s => !c.drops s) ++ match c with
      | .made s => [s]
      | _ => [] := by
  induction h with
  | nil => cases c <;> rfl
  | cons d h ih =>
    cases d with
    | ended | cleared => exact ih
    | made s =>
      rw [List.cons_append, standing, standing, List.any_append, List.any_cons, List.any_nil, Bool.or_false, ih]
      cases h.any (Change.drops s) with
      | true => rfl
      | false =>
        cases hc : c.drops s with
        | true => simp [hc]
        | false => simp [hc]

theorem made_of_mem_standing {h : List Change} {s : Subscription} (hs : s ∈ standing h) : .made s ∈ h := by
  induction h with
  | nil => cases hs
  | cons c h ih =>
    cases c with
    | ended | cleared => exact List.mem_cons_of_mem _ (ih hs)
    | made s' =>
      rw [standing] at hs
      split at hs
      · exact List.mem_cons_of_mem _ (ih hs)
      · rcases List.mem_cons.mp hs with rfl | hs
        · exact List.mem_cons_self
        · exact List.mem_cons_of_mem _ (ih hs)

/-- The handles of registrations that stand are among those of the registrations that were made. -/
theorem handles_standing (h : List Change) :
    ((standing h).filterMap Subscription.handle).Sublist (h.filterMap Change.handle?) := by
  induction h with
  | nil => exact .slnil
  | cons c h ih =>
    cases c with
    | ended | cleared => exact ih
    | made s =>
      have kept : (h.filterMap Change.handle?).Sublist ((Change.made s :: h).filterMap Change.handle?) :=
        (List.sublist_cons_self _ _).filterMap _
      rw [standing]
      split
      · exact ih.trans kept
      · rcases hs : s.handle with _ | handle
        · rw [List.filterMap_cons_none hs]
          exact ih.trans kept
        · rw [List.filterMap_cons_some hs, List.filterMap_cons_some (b := handle) (by exact hs)]
          exact ih.cons_cons handle

/-- Of registrations under distinct handles, the first one that is like that under a handle is taken away with the
    handle, if it is the one under the handle. -/
theorem eraseP_eq_filter {subs : List Subscription} {handle : String} {r : Registration}
    (distinct : (subs.filterMap Subscription.handle).Nodup)
    (own : ∀ s ∈ subs, s.handle = some handle → s.registration = r)
    (first : ∀ s, subs.find? (fun s => s.registration.matches r) = some s → s.handle = some handle) :
    subs.eraseP (fun s => s.registration.matches r) = subs.filter fun s => !(s.handle == some handle) := by
  induction subs with
  | nil => rfl
  | cons s subs ih =>
    rw [List.eraseP_cons, List.filter_cons]
    cases same : s.registration.matches r with
    | true =>
      have here : s.handle = some handle := first s (List.find?_cons_of_pos same)
      rw [List.filterMap_cons_some here, List.nodup_cons] at distinct
      rw [cond_true, here, beq_self_eq_true, Bool.not_true, if_neg Bool.false_ne_true]
      refine (List.filter_eq_self.mpr fun t ht => ?_).symm
      by_contra taken
      simp only [Bool.not_eq_true, Bool.not_eq_false', beq_iff_eq] at taken
      exact distinct.1 (List.mem_filterMap.mpr ⟨t, ht, taken⟩)
    | false =>
      have other : s.handle ≠ some handle := fun here => by
        have itself := own s List.mem_cons_self here
        rw [itself, Registration.matches, beq_self_eq_true, beq_self_eq_true] at same
        cases same
      have skipped : (s :: subs).find? (fun s => s.registration.matches r) =
          subs.find? fun s => s.registration.matches r := List.find?_cons_of_neg (ne_true_of_eq_false same)
      rw [skipped] at first
      rw [cond_false, beq_false_of_ne other, Bool.not_false, if_pos rfl,
        ih (distinct.sublist ((List.sublist_cons_self _ _).filterMap _)) (fun t ht => own t (List.mem_cons_of_mem _ ht)) first]

/-! ### What a bus keeps -/

/-- What a change does to a bus. -/
def changed (b : Bus) : Change → Bus
  | .made ⟨some handle, r⟩ => b.subscribeAs handle r.thread r.observer
  | .made ⟨none, r⟩ => b.subscribe r.thread r.observer
  | .ended handle => b.unsubscribe handle
  | .cleared thread => b.clear thread

theorem perform_eq (b : Bus) (op : Operation) : b.perform op = (b.changes op).foldl changed b := by
  cases op with
  | subscribe handle => cases handle <;> rfl
  | unsubscribe | clear => rfl
  | emit e =>
    show (b.reactions e).foldl reacted b = ((b.reactions e).filterMap Change.ofReaction).foldl changed b
    generalize b.reactions e = reactions
    induction reactions generalizing b with
    | nil => rfl
    | cons reaction reactions ih => cases reaction <;> exact ih _

theorem performAll_eq (b : Bus) (ops : List Operation) : b.performAll ops = (b.history ops).foldl changed b := by
  induction ops generalizing b with
  | nil => rfl
  | cons op ops ih =>
    rw [history, List.foldl_append, ← perform_eq]
    exact ih _

theorem handles_history (b : Bus) (ops : List Operation) :
    (b.history ops).filterMap Change.handle? = ops.filterMap Operation.handle? := by
  induction ops generalizing b with
  | nil => rfl
  | cons op ops ih =>
    rw [history, List.filterMap_append, ih]
    cases op with
    | subscribe handle => cases handle <;> rfl
    | unsubscribe | clear => rfl
    | emit e =>
      have none : ((b.reactions e).filterMap Change.ofReaction).filterMap Change.handle? = [] := by
        rw [List.filterMap_filterMap]
        exact List.filterMap_eq_nil_iff.mpr fun reaction _ => by cases reaction <;> rfl
      exact congrArg (· ++ _) none

theorem enabled_changed (b : Bus) (c : Change) : (b.changed c).enabled = b.enabled := by
  cases c with
  | made s => rcases s with ⟨_ | _, r⟩ <;> rfl
  | cleared => rfl
  | ended handle =>
    rw [changed, unsubscribe]
    split <;> rfl

theorem enabled_performAll (b : Bus) (ops : List Operation) : (b.performAll ops).enabled = b.enabled := by
  rw [performAll_eq]
  generalize b.history ops = h
  induction h generalizing b with
  | nil => rfl
  | cons c h ih => exact (ih (b.changed c)).trans (b.enabled_changed c)

/-- Of the registrations for the thread of observers of these names, the bus has those that stand. -/
structure Lists (thread : String) (names : String → Bool) (b : Bus) (h : List Change) : Prop where
  handles : ∀ handle r, b.handles.lookup handle = some r ↔ .made ⟨some handle, r⟩ ∈ h
  registrations : b.registrations.filter (concerns thread names) =
    ((standing h).map Subscription.registration).filter (concerns thread names)

variable {b : Bus} {thread : String} {names : String → Bool} {before : List Change}

theorem concerns_of_matches {r s : Registration} (h : s.matches r = true) :
    concerns thread names s = concerns thread names r := by
  simp only [Registration.matches, Bool.and_eq_true, beq_iff_eq] at h
  rw [concerns, concerns, h.1, h.2]

theorem Lists.made (lists : b.Lists thread names before) (s : Subscription)
    (fresh : ∀ handle, s.handle = some handle → handle ∉ before.filterMap Change.handle?) :
    (b.changed (.made s)).Lists thread names (before ++ [.made s]) := by
  have appended : (b.registrations ++ [s.registration]).filter (concerns thread names) =
      ((standing (before ++ [.made s])).map Subscription.registration).filter (concerns thread names) := by
    have kept : (standing before).filter (fun t => !(Change.made s).drops t) = standing before :=
      List.filter_eq_self.mpr fun _ _ => rfl
    rw [standing_concat, kept, List.map_append, List.filter_append, List.filter_append, lists.registrations]
    rfl
  obtain ⟨_ | handle, r⟩ := s
  · refine ⟨fun k r' => (lists.handles k r').trans ?_, appended⟩
    simp
  · refine ⟨fun k r' => ?_, appended⟩
    show ((handle, r) :: b.handles).lookup k = some r' ↔ _
    rw [List.lookup_cons, List.mem_append, List.mem_singleton, ← lists.handles]
    by_cases same : k = handle
    · subst same
      -- The handle was not given out before.
      have none : b.handles.lookup k ≠ some r' := fun there =>
        fresh k rfl (List.mem_filterMap.mpr ⟨_, (lists.handles k r').mp there, rfl⟩)
      simp [none, eq_comm]
    · simp [beq_false_of_ne same, same]

theorem Lists.cleared (lists : b.Lists thread names before) (other : String) :
    (b.changed (.cleared other)).Lists thread names (before ++ [.cleared other]) where
  handles k r := (lists.handles k r).trans (by simp)
  registrations := by
    show (b.registrations.filter fun r => r.thread != other).filter (concerns thread names) = _
    have comm : ∀ rs : List Registration, (rs.filter fun r => r.thread != other).filter (concerns thread names) =
        (rs.filter (concerns thread names)).filter fun r => r.thread != other := fun rs => by
      rw [List.filter_filter, List.filter_filter]
      exact List.filter_congr fun r _ => Bool.and_comm _ _
    rw [comm, lists.registrations, ← comm, standing_concat, List.append_nil, List.filter_map]
    rfl

/-- A registration that stands under a handle is the one that the bus knows by it. -/
theorem Lists.lookup_of_standing (lists : b.Lists thread names before) {s : Subscription} (hs : s ∈ standing before)
    {handle : String} (own : s.handle = some handle) : b.handles.lookup handle = some s.registration := by
  obtain ⟨_, r⟩ := s
  obtain rfl : _ = some handle := own
  exact (lists.handles handle r).mpr (made_of_mem_standing hs)

/-- Of the registrations that are concerned, the bus ends the one under the handle. -/
theorem Lists.unsubscribed (lists : b.Lists thread names before) (handle : String)
    (distinct : (before.filterMap Change.handle?).Nodup)
    (first : ∀ r, .made ⟨some handle, r⟩ ∈ before → concerns thread names r = true → MeansFirst before handle r) :
    (b.unsubscribe handle).registrations.filter (concerns thread names) =
      (((standing before).filter fun s => !(s.handle == some handle)).map Subscription.registration).filter
        (concerns thread names) := by
  unfold unsubscribe
  cases found : b.handles.lookup handle with
  | none =>
    -- Nothing was registered under the handle.
    have kept : (standing before).filter (fun s => !(s.handle == some handle)) = standing before := by
      refine List.filter_eq_self.mpr fun s hs => ?_
      have other : s.handle ≠ some handle := fun own => by
        rw [lists.lookup_of_standing hs own] at found
        cases found
      rw [beq_false_of_ne other, Bool.not_false]
    rw [kept]
    exact lists.registrations
  | some r =>
    have own : ∀ s ∈ standing before, s.handle = some handle → s.registration = r := fun s hs here =>
      Option.some.inj ((lists.lookup_of_standing hs here).symm.trans found)
    cases hr : concerns thread names r with
    | true =>
      have erased := eraseP_eq_filter (distinct.sublist (handles_standing before)) own
        (first r ((lists.handles handle r).mp found) hr)
      have within : ∀ rs : List Registration, (rs.eraseP fun s => s.matches r).filter (concerns thread names) =
          (rs.filter (concerns thread names)).eraseP fun s => s.matches r := fun rs =>
        filter_eraseP rs fun s _ hs => (concerns_of_matches hs).trans hr
      dsimp only
      rw [within, lists.registrations, ← within, List.eraseP_map]
      exact congrArg (fun subs => (subs.map Subscription.registration).filter (concerns thread names)) erased
    | false =>
      dsimp only
      rw [filter_eraseP_of_not _ fun s _ hs => (concerns_of_matches hs).trans hr, lists.registrations,
        List.filter_map, List.filter_map, List.filter_filter]
      refine congrArg _ (List.filter_congr fun s hs => ?_)
      by_cases here : s.handle = some handle
      · rw [Function.comp_apply, own s hs here, hr, Bool.false_and]
      · rw [beq_false_of_ne here, Bool.not_false, Bool.and_true]

theorem Lists.ended (lists : b.Lists thread names before) (handle : String)
    (distinct : (before.filterMap Change.handle?).Nodup)
    (first : ∀ r, .made ⟨some handle, r⟩ ∈ before → concerns thread names r = true → MeansFirst before handle r) :
    (b.changed (.ended handle)).Lists thread names (before ++ [.ended handle]) := by
  have handles : (b.unsubscribe handle).handles = b.handles := by
    unfold unsubscribe
    split <;> rfl
  refine ⟨fun k r => ?_, ?_⟩
  · show (b.unsubscribe handle).handles.lookup k = some r ↔ _
    rw [handles, lists.handles]
    simp
  · rw [standing_concat, List.append_nil]
    exact lists.unsubscribed handle distinct first

/-- One step. -/
theorem Lists.changed (lists : b.Lists thread names before) (c : Change)
    (distinct : ((before ++ [c]).filterMap Change.handle?).Nodup)
    (first : ∀ handle r, c = .ended handle → .made ⟨some handle, r⟩ ∈ before → concerns thread names r = true →
      MeansFirst before handle r) :
    (b.changed c).Lists thread names (before ++ [c]) := by
  rw [List.filterMap_append, List.nodup_append] at distinct
  obtain ⟨others, -, apart⟩ := distinct
  cases c with
  | made s =>
    refine lists.made s fun handle own used => apart handle used handle ?_ rfl
    exact List.mem_filterMap.mpr ⟨_, List.mem_singleton_self _, own⟩
  | ended handle => exact lists.ended handle others fun r => first handle r rfl
  | cleared other => exact lists.cleared other

/-- All steps: what was changed before, and what is changed from here on. -/
theorem Lists.foldl (lists : b.Lists thread names before) (later : List Change)
    (distinct : ((before ++ later).filterMap Change.handle?).Nodup) (first : EndsFirst thread names (before ++ later)) :
    (later.foldl Bus.changed b).Lists thread names (before ++ later) := by
  induction later generalizing b before with
  | nil => rwa [List.append_nil]
  | cons c later ih =>
    rw [← List.singleton_append, ← List.append_assoc] at distinct first ⊢
    refine ih (lists.changed c ?_ ?_) distinct first
    · exact distinct.sublist ((List.sublist_append_left _ _).filterMap _)
    · rintro handle r rfl
      exact first before handle later r (List.append_assoc _ _ _)

/-! ### Main statement -/

/-- Who is to be told of an event: each registration for its thread that stands, in the order of registration. -/
def owed (h : List Change) (e : Event) : List Delivery :=
  ((standing h).filter fun s => s.registration.thread == e.thread).map fun s => ⟨s.registration.observer.name, e⟩

theorem owed_eq (h : List Change) (e : Event) : owed h e =
    ((((standing h).map Subscription.registration).filter fun r => r.thread == e.thread).map
      Registration.observer).map fun o => ⟨o.name, e⟩ := by
  rw [owed, List.filter_map, List.map_map, List.map_map]
  rfl

/-- Whatever was done with a bus, an event is told once to each registration for its thread that stands, in order, and
    to nobody else. This holds of observers of any names as long as, whenever the end of a registration of one of them
    was asked for, it was the first one of its observer that stood, or none stood. -/
theorem told_to_standing (new : b.registrations = [] ∧ b.handles = []) {ops : List Operation}
    (distinct : (ops.filterMap Operation.handle?).Nodup) (e : Event) (names : String → Bool)
    (first : EndsFirst e.thread names (b.history ops)) :
    ((b.performAll ops).deliveries e).filter (fun d => names d.observer) =
      if b.enabled then (owed (b.history ops) e).filter (fun d => names d.observer) else [] := by
  have empty : b.Lists e.thread names [] := by
    refine ⟨fun handle r => ?_, ?_⟩
    · rw [new.2]
      simp
    · rw [new.1]
      rfl
  have distinct : ((b.history ops).filterMap Change.handle?).Nodup := by rwa [handles_history]
  have lists := empty.foldl (b.history ops) distinct first
  rw [← performAll_eq] at lists
  have told : ∀ rs : List Registration,
      (((rs.filter fun r => r.thread == e.thread).map Registration.observer).map fun o => (⟨o.name, e⟩ : Delivery)).filter
        (fun d => names d.observer) = (rs.filter (concerns e.thread names)).map fun r => ⟨r.observer.name, e⟩ := by
    intro rs
    rw [List.map_map, List.filter_map, List.filter_filter]
    exact congrArg _ (List.filter_congr fun r _ => Bool.and_comm _ _)
  rw [deliveries, receivers, enabled_performAll]
  split
  · rw [audience, told, lists.registrations, ← told, owed_eq, List.nil_append]
  · rfl

/-- An observer that ends a registration whenever it is told of an event. -/
def ending (name handle : String) : Observer := { name, react := fun _ => [.unsubscribe handle] }

/-- An observer that was registered twice, and is told once after another one has ended its first registration. -/
theorem told_to_standing_leaving :
    let a : Observer := { name := "a" }
    let e : Event := { kind := .runStarted, thread := "t" }
    let ops : List Operation := [.subscribe (some "x") "t" a, .subscribe (some "y") "t" (ending "b" "x"),
      .subscribe none "t" a, .emit e]
    let b : Bus := {}
    (b.registrations = [] ∧ b.handles = []) ∧ (ops.filterMap Operation.handle?).Nodup ∧
      EndsFirst "t" (fun _ => true) (b.history ops) ∧ owed (b.history ops) e = [⟨"b", e⟩, ⟨"a", e⟩] ∧
      ((b.performAll ops).deliveries e).filter (fun _ => true) = (owed (b.history ops) e).filter fun _ => true := by
  intro a e ops b
  have first : EndsFirst "t" (fun _ => true) (b.history ops) := by
    intro before handle later r same made _
    have same : [.made ⟨some "x", "t", a⟩, .made ⟨some "y", "t", ending "b" "x"⟩, .made ⟨none, "t", a⟩, .ended "x"] =
        before ++ .ended handle :: later := same
    obtain _ | ⟨_, _ | ⟨_, _ | ⟨_, _ | ⟨_, before⟩⟩⟩⟩ := before <;> simp at same
    obtain ⟨rfl, rfl, rfl, rfl, -⟩ := same
    have own : r = ⟨"t", a⟩ := by simpa using made
    subst own
    intro s hs
    cases hs
    rfl
  have distinct : (ops.filterMap Operation.handle?).Nodup := by decide
  exact ⟨⟨rfl, rfl⟩, distinct, first, rfl, told_to_standing ⟨rfl, rfl⟩ distinct e _ first⟩

/-- Asking twice for the end of a registration ends another one of the same observer, and so does asking for it after
    the thread has been cleared. -/
theorem ends_another :
    let a : Observer := { name := "a" }
    let e : Event := { kind := .runStarted, thread := "t" }
    let twice : List Operation := [.subscribe (some "x") "t" a, .subscribe (some "y") "t" a, .unsubscribe "x",
      .unsubscribe "x"]
    let late : List Operation := [.subscribe (some "x") "t" a, .clear "t", .subscribe (some "y") "t" a, .unsubscribe "x"]
    let b : Bus := {}
    (owed (b.history twice) e = [⟨"a", e⟩] ∧ (b.performAll twice).deliveries e = []) ∧
      owed (b.history late) e = [⟨"a", e⟩] ∧ (b.performAll late).deliveries e = [] :=
  ⟨⟨rfl, rfl⟩, rfl, rfl⟩

end Bus

end Workflow
