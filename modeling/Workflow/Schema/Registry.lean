import Workflow.Schema.Basic

/-! Registered schemas. A name stays with the schema that took it first; registering that very schema
    again is no fault. -/

namespace Workflow.Schema

/-- A schema with a mark of its identity: two marks are equal if the schemas are the same one. -/
structure Registered where
  mark : String
  schema : Schema
  deriving Inhabited

/-- Schemas by name, in the order of registration. -/
structure Registry where
  entries : List Registered := []
  deriving Inhabited

namespace Registry

def get? (r : Registry) (name : String) : Option Registered :=
  r.entries.find? fun e => e.schema.name == name

def names (r : Registry) : List String := r.entries.map fun e => e.schema.name

/-- Registers a schema unless its name belongs to another one. -/
def register (r : Registry) (e : Registered) : Except Fault Registry :=
  match r.get? e.schema.name with
  | none => .ok ⟨r.entries ++ [e]⟩
  | some old =>
    if old.mark = e.mark then .ok r
    else .error (.value s!"Schema '{e.schema.name}' already registered")

def registerAll (r : Registry) : List Registered → Except Fault Registry
  | [] => .ok r
  | e :: es => do (← r.register e).registerAll es

end Registry

end Workflow.Schema
