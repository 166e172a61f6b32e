import Workflow.Config.Settings
import Workflow.Engine.Calls

/-! Sessions: several graphs that are run in one process. Each graph has an engine, made when it is first
    needed, and engines may share a store. What is kept outside the process outlives it. -/

namespace Workflow

/-- What an engine is found by: its graph, and whether the engine is on its own, without the
    configuration, the providers and the store that the session gives to engines. -/
structure EngineId where
  graph : String
  alone : Bool := false
  deriving DecidableEq, Inhabited

inductive Place where
  /-- The store that the session gives to engines. -/
  | common
  | inside (who : EngineId)
  /-- At a path outside the process. -/
  | outside (backend : Store.Backend) (path : String)
  deriving DecidableEq

namespace Place

/-- What is there is still there when the process starts again. -/
def outlives : Place → Bool
  | .inside _ => false
  | _ => true

/-- Where the store of an engine is that is given none: what the graph asks for counts before the
    configuration, whose path is only for the store that it asks for itself. -/
def choose (who : EngineId) (d : Definition) (c : Config) : Except Fault Place := do
  let asked := (d.checkpointer.filter fun b => !b.isEmpty).getD c.checkpointer
  let path := if asked = c.checkpointer then c.path.filter fun p => !p.isEmpty else none
  match ← Store.Backend.ofName asked with
  | .memory => return .inside who
  | backend => return .outside backend (Text.tidyPath (path.getD backend.defaultPath))

def vacant : Place → Store
  | .outside backend path => backend.create path
  | _ => .memory []

end Place

/-- An engine, the place of its store, and its observers. -/
structure Seat where
  engine : Engine
  place : Place
  bus : Bus := {}

/-- Engines, stores, and what their calls have left. -/
structure Session where
  /-- The graphs under their labels. -/
  graphs : List (String × Definition)
  config : Config := {}
  providers : Providers := []
  /-- The engines that have been made. -/
  seats : List (EngineId × Seat) := []
  stores : List (Place × Store) := []
  /-- The engines whose observers were registered under handles. -/
  handles : List (String × EngineId) := []
  calls : CallLog := []
  drawn : Nat := 0
  /-- How many threads were named by the session. -/
  named : Nat := 0
  trace : List Value := []
  deliveries : List Delivery := []

namespace Session

/-- Puts a value under a key, in place of the one that is there. -/
def put {κ α : Type} [DecidableEq κ] (entries : List (κ × α)) (key : κ) (a : α) : List (κ × α) :=
  (key, a) :: entries.filter fun e => e.1 ≠ key

def storeAt (s : Session) (place : Place) : Store := (s.stores.lookup place).getD place.vacant

def occupy (s : Session) (who : EngineId) (d : Definition) : Except Fault Seat := do
  let config := if who.alone then {} else s.config
  let providers := if who.alone then [] else s.providers
  let given := !who.alone && s.stores.any fun e => e.1 = .common
  let place ← if given then .ok .common else Place.choose who d config
  return { engine := { definition := d, config, providers }, place
           bus := { enabled := config.emitsEvents } }

/-- The engine that is asked for, which is made if there is none yet. -/
def seat (s : Session) (who : EngineId) : Except Fault Seat :=
  match s.seats.lookup who with
  | some seat => .ok seat
  | none =>
    match s.graphs.lookup who.graph with
    | some d => s.occupy who d
    | none => .error (.key (.str who.graph))

def call {α : Type} (s : Session) (who : EngineId)
    (f : Engine → Surroundings → Surroundings × α) : Except Fault (Session × α) := do
  let seat ← s.seat who
  let (w, a) := f seat.engine
    { store := s.storeAt seat.place, bus := seat.bus, calls := s.calls, drawn := s.drawn }
  return ({ s with
    seats := put s.seats who { seat with bus := w.bus }
    stores := put s.stores seat.place w.store
    calls := w.calls
    drawn := w.drawn
    trace := s.trace ++ w.trace
    deliveries := s.deliveries ++ w.deliveries }, a)

/-- Asks an engine, which changes nothing. -/
def ask {α : Type} (s : Session) (who : EngineId) (f : Engine → Surroundings → α) :
    Except Fault (Session × α) :=
  s.call who fun g w => (w, f g w)

/-- Registers an observer of an engine under a handle. -/
def subscribe (s : Session) (who : EngineId) (handle thread : String) (observer : Observer) :
    Except Fault Session := do
  let (s, _) ← s.call who fun _ w => ({ w with bus := w.bus.subscribeAs handle thread observer }, ())
  return { s with handles := (handle, who) :: s.handles }

/-- Ends the registration under a handle. -/
def unsubscribe (s : Session) (handle : String) : Session :=
  match s.handles.lookup handle with
  | none => s
  | some who =>
    { s with seats := s.seats.map fun (d, seat) =>
        if d = who then (d, { seat with bus := seat.bus.unsubscribe handle }) else (d, seat) }

/-- A name for a thread that its caller does not name. -/
def freshThread (s : Session) : Session × String :=
  ({ s with named := s.named + 1 }, String.ofList ('f' :: Text.hexDigits 31 s.named))

/-- The process starts again: engines and what is only in their memory are gone. -/
def restart (s : Session) : Session :=
  { s with seats := [], handles := [], stores := s.stores.filter fun e => e.1.outlives }

end Session

end Workflow
