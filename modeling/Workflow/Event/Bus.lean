import Workflow.Event.Basic

/-! The bus that takes the events of a thread to its observers, in the order of registration. An event
    goes to those who are registered when it is emitted, whatever they do about it. -/

namespace Workflow

/-- A registration of an observer for the events of a thread. -/
structure Registration where
  thread : String
  observer : Observer
  deriving Inhabited

/-- The registration is for the same thread and of the same observer as another. -/
def Registration.matches (r s : Registration) : Bool :=
  r.thread == s.thread && r.observer.name == s.observer.name

/-- Registrations in order, and what was registered under which handle. -/
structure Bus where
  enabled : Bool := true
  registrations : List Registration := []
  handles : List (String × Registration) := []
  deriving Inhabited

namespace Bus

def audience (b : Bus) (thread : String) : List Observer :=
  (b.registrations.filter fun r => r.thread == thread).map Registration.observer

def count (b : Bus) (thread : String) : Nat := (b.audience thread).length

/-- Registers an observer for a thread. -/
def subscribe (b : Bus) (thread : String) (observer : Observer) : Bus :=
  { b with registrations := b.registrations ++ [⟨thread, observer⟩] }

/-- Registers an observer under a handle, by which the registration can be ended. -/
def subscribeAs (b : Bus) (handle thread : String) (observer : Observer) : Bus :=
  { b.subscribe thread observer with handles := (handle, ⟨thread, observer⟩) :: b.handles }

/-- Registers observers one after another. -/
def subscribeAll (b : Bus) (thread : String) (observers : List Observer) : Bus :=
  observers.foldl (fun b o => b.subscribe thread o) b

/-- Ends the first registration of the observer and the thread of a handle, if there is one left. -/
def unsubscribe (b : Bus) (handle : String) : Bus :=
  match b.handles.lookup handle with
  | some r => { b with registrations := b.registrations.eraseP fun s => s.matches r }
  | none => b

/-- Ends all registrations for a thread. -/
def clear (b : Bus) (thread : String) : Bus :=
  { b with registrations := b.registrations.filter fun r => r.thread != thread }

theorem audience_subscribe (b : Bus) (thread : String) (o : Observer) :
    (b.subscribe thread o).audience thread = b.audience thread ++ [o] := by
  simp [subscribe, audience]

theorem audience_subscribe_of_ne (b : Bus) {thread other : String} (o : Observer)
    (h : thread ≠ other) : (b.subscribe thread o).audience other = b.audience other := by
  simp [subscribe, audience, h]

theorem audience_clear (b : Bus) (thread : String) : (b.clear thread).audience thread = [] := by
  simp [clear, audience]

/-! ### Emission -/

/-- Who receives an event. -/
def receivers (b : Bus) (e : Event) : List Observer := if b.enabled then b.audience e.thread else []

def deliveries (b : Bus) (e : Event) : List Delivery :=
  (b.receivers e).map fun o => ⟨o.name, e⟩

/-- Hands an event to observers one after another, and tells what they do about it. One that raises is passed
    over. -/
def hear (e : Event) : List Observer → List Reaction
  | [] => []
  | o :: os =>
    match o.call e with
    | (done, .ok _) => done ++ hear e os
    | (done, .error _) => done ++ hear e os

/-- What the receivers of an event do about it, in order. -/
def reactions (b : Bus) (e : Event) : List Reaction := hear e (b.receivers e)

/-- What is raised keeps no observer from the event. -/
theorem hear_eq (e : Event) (os : List Observer) : hear e os = os.flatMap fun o => o.react e := by
  induction os with
  | nil => rfl
  | cons o os ih =>
    rw [List.flatMap_cons, ← ih, hear, Observer.call]
    cases o.raises e <;> rfl

def reacted (b : Bus) : Reaction → Bus
  | .unsubscribe handle => b.unsubscribe handle
  | .cancel => b

def emitted (b : Bus) (e : Event) : Bus := (b.reactions e).foldl reacted b

/-- A receiver of the event asks for the end of the run. -/
def asksCancel (b : Bus) (e : Event) : Bool := (b.reactions e).contains .cancel

end Bus

end Workflow
