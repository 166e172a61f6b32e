import Workflow.Schema.Field

/-! Schemas: ordered fields under a name. A state holds a value for every field; a partial update is
    merged into it field by field, after all of its names have been checked. -/

namespace Workflow

/-- The values of a state, in the order of the fields. -/
abbrev State := Fields

/-- Fields in order, under a name; no two fields have one name. -/
structure Schema where
  name : String
  fields : List Field
  deriving Inhabited

namespace Schema

def field? (s : Schema) (name : String) : Option Field := s.fields.find? fun f => f.name == name

def fieldNames (s : Schema) : List String := s.fields.map Field.name

def has (s : Schema) (name : String) : Bool := s.fields.any fun f => f.name == name

/-- The schema of the given fields, after those already taken. -/
def addFields (s : Schema) : List Field → Except Fault Schema
  | [] => .ok s
  | f :: fs =>
    if s.has f.name then .error (.value s!"Duplicate state field '{f.name}' in schema '{s.name}'")
    else addFields { s with fields := s.fields ++ [f] } fs

def ofFields (name : String) (fields : List Field) : Except Fault Schema :=
  addFields ⟨name, []⟩ fields

def ofSpecs (name : String) (specs : List FieldSpec) : Except Fault Schema := do
  ofFields name (← specs.mapM Field.ofSpec)

/-- What an annotation says about one field; the reducer is given or chosen by a value. -/
structure Annotation where
  name : String
  type : Value := .str "any"
  reducer : Reducer.Choice := .standard
  default : Value := .undefined
  nullable : Value := .bool false
  deriving Inhabited

/-- The annotation of a field by a value, where `choose` reads its reducer. -/
def Annotation.ofValue (choose : Value → Reducer.Choice) (name : String) (v : Value) :
    Except Fault Annotation :=
  match v.truthy, v with
  | false, _ => .ok { name }
  | true, .mapping es =>
    let given := fun key => (Value.find? es (.str key))
    .ok {
      name
      type := (given "type").getD (.str "any")
      reducer := choose ((given "reducer").getD .null)
      default := (given "default").getD .undefined
      nullable := (given "nullable").getD (.bool false) }
  | true, v => .error (.noAttribute v "get")

/-- The field of an annotation. Its reducer is looked up before its type. -/
def fieldOfAnnotation (registry : Reducer.Registry) (a : Annotation) : Except Fault Field := do
  let reducer ← Reducer.resolve registry a.reducer
  let type ← FieldType.ofValue a.type
  Field.build a.name type reducer a.default a.nullable.truthy

/-- The schema of annotated fields, one after another, with named reducers besides the built-in
    ones. -/
def ofAnnotations (choose : Value → Reducer.Choice) (name : String) (annotations : Fields)
    (registry : Reducer.Registry := []) : Except Fault Schema := do
  ofFields name (← annotations.mapM fun (n, v) => do
    fieldOfAnnotation registry (← Annotation.ofValue choose n v))

/-- The state in which every field has its default. -/
def defaults (s : Schema) : State := s.fields.map fun f => (f.name, f.default)

/-- Merges an incoming value into the current value of the named field. -/
def merge (s : Schema) (name : String) (current incoming : Value) : Except Fault Value :=
  match s.field? name with
  | some f => f.merge current incoming
  | none =>
    .error (.plain .update s!"Unknown state field '{name}' for schema '{s.name}'")

/-- Merges named values into a state one after another. -/
def mergeAll (s : Schema) : State → Fields → Except Fault State
  | state, [] => .ok state
  | state, (name, v) :: rest => do
    let merged ← s.merge name (state.getD name) v
    s.mergeAll (state.set name merged) rest

/-- Merges a partial update into a state, unless it names a field that the schema does not have. -/
def applyUpdate (s : Schema) (state : State) (update : Fields) : Except Fault State :=
  let unknown := (Fields.names update).filter fun n => !s.has n
  if unknown.isEmpty then s.mergeAll state update
  else
    .error (.plain .update
      s!"Unknown state field(s) {Value.nameList unknown} for schema '{s.name}'")

/-- The names of an update whose keys are all texts; `none` if a key is none. -/
def namedEntries? : List (Value × Value) → Option Fields
  | [] => some []
  | (.str k, v) :: es => (namedEntries? es).map ((k, v) :: ·)
  | _ :: _ => none

/-- Merges a value as an update: what counts as false changes nothing, and a mapping is a partial
    update. Other values fail in the check of their names, or for want of entries. -/
def applyValue (s : Schema) (state : State) (update : Value) : Except Fault State :=
  if !update.truthy then .ok state
  else do
    let keys ← update.items
    keys.forM Value.checkKey
    let unknown := keys.filter fun k => match k with
      | .str n => !s.has n
      | _ => true
    match unknown.isEmpty, update with
    | true, .mapping es => s.mergeAll state ((namedEntries? es).getD [])
    | true, v => .error (.noAttribute v "items")
    | false, _ =>
      .error (.plain .update
        s!"Unknown state field(s) {(Value.list unknown).literal} for schema '{s.name}'")

def initialState (s : Schema) (input : Value := .null) : Except Fault State :=
  s.applyValue s.defaults input

def describe (s : Schema) : Value := .ofFields (s.fields.map fun f => (f.name, f.describe))

def line (s : Schema) : String :=
  s!"StateSchema({(Value.str s.name).literal}, fields={Value.nameList s.fieldNames})"

end Schema

end Workflow
