import Workflow.Reducer

/-! The fields of a state: each has a type, a reducer, and a default that a run starts with. -/

namespace Workflow

structure FieldType where
  name : String
  /-- The accepted kinds; `none` accepts every value. -/
  kinds : Option (List ValueKind)
  deriving DecidableEq, Inhabited

namespace FieldType

def any : FieldType := ⟨"any", none⟩

/-- The types that have a name of their own. -/
def named : List FieldType :=
  [⟨"string", some [.str]⟩, ⟨"number", some [.int, .float]⟩, ⟨"integer", some [.int]⟩,
    ⟨"boolean", some [.bool]⟩, ⟨"array", some [.list, .tuple]⟩, ⟨"object", some [.mapping]⟩, any]

/-- The kinds that the values of a list stand for, if all of them do. -/
def kindsOf? : List Value → Option (List ValueKind)
  | [] => some []
  | .kind k :: vs => (kindsOf? vs).map (k :: ·)
  | _ :: _ => none

/-- The type that a declaration gives: nothing, a name, a kind, or a choice of kinds. -/
def ofValue (v : Value) : Except Fault FieldType :=
  match v with
  | .null => .ok any
  | .str s =>
    match named.find? fun t => t.name == Text.lower (Text.strip s) with
    | some t => .ok t
    | none =>
      .error (.value
        s!"Unknown value type '{s}'. Available: {Value.nameList (named.map FieldType.name)}")
  | .kind .object => .ok any
  | .kind k => .ok ⟨k.name, some [k]⟩
  | .tuple vs =>
    match kindsOf? vs with
    | some ks => .ok ⟨"|".intercalate (ks.map ValueKind.name), some ks⟩
    | none => .error (.type s!"Unsupported value type: {v.literal}")
  | v => .error (.type s!"Unsupported value type: {v.literal}")

/-- The type accepts a value other than `null`. A truth value is accepted as such only, not as the
    integer that it counts as. -/
def accepts (t : FieldType) (v : Value) : Bool :=
  match t.kinds with
  | none => true
  | some ks =>
    match v with
    | .bool _ => ks.contains .bool && ks.any fun k => k.accepts v
    | _ => ks.any fun k => k.accepts v

/-- The value of a kind that holds nothing; `none` for a kind that has none. -/
def emptyOf : ValueKind → Option Value
  | .int => some (.int 0)
  | .float => some (.float 0)
  | .str => some (.str "")
  | .bool => some (.bool false)
  | .list => some (.list [])
  | .tuple => some (.tuple [])
  | .mapping => some (.mapping [])
  | .bytes => some (.bytes [])
  | .object => some (.object "object" [])
  | .null => some .null
  | .range => none

/-- The values that the named types start with. -/
def zeros : List (String × Value) :=
  [("string", .str ""), ("number", .int 0), ("integer", .int 0), ("boolean", .bool false),
    ("array", .list []), ("object", .mapping []), ("any", .null)]

/-- The default of a field that declares none; `none` where it is `null`, which the field then has
    to accept. -/
def zero? (t : FieldType) : Option Value :=
  match zeros.lookup t.name with
  | some v => some v
  | none =>
    match t.kinds with
    | some (k :: _) => emptyOf k
    | _ => some .null

end FieldType

structure Field where
  name : String
  type : FieldType
  reducer : Reducer
  default : Value
  /-- An explicit `null` is a valid value. -/
  nullable : Bool
  deriving Inhabited

structure FieldSpec where
  name : String
  type : Value := .str "any"
  reducer : Reducer.Choice := .standard
  default : Value := .undefined
  nullable : Bool := false
  deriving Inhabited

namespace Field

def admits (f : Field) (v : Value) : Bool :=
  match v with
  | .null => f.nullable || f.type.kinds.isNone
  | v => f.type.accepts v

/-- The field with the given type and reducer, and the default of its type if none is given. -/
def withDefault (name : String) (type : FieldType) (reducer : Reducer) (default : Value)
    (nullable : Bool) : Field :=
  match default, type.zero? with
  | .undefined, some zero => ⟨name, type, reducer, zero, nullable⟩
  | .undefined, none => ⟨name, type, reducer, .null, true⟩
  | v, _ => ⟨name, type, reducer, v, nullable⟩

/-- Refuses a field whose default is not valid. -/
def check (f : Field) : Except Fault Field :=
  if f.admits f.default then .ok f
  else
    .error (.value
      s!"Default for field '{f.name}' is not a valid {f.type.name}: {f.default.literal}")

def build (name : String) (type : FieldType) (reducer : Reducer) (default : Value)
    (nullable : Bool) : Except Fault Field :=
  (withDefault name type reducer default nullable).check

def ofSpec (spec : FieldSpec) : Except Fault Field := do
  let type ← FieldType.ofValue spec.type
  let reducer ← Reducer.resolve [] spec.reducer
  build spec.name type reducer spec.default spec.nullable

/-- Merges an incoming value into the current one. The result has to be valid, but for the `null`
    that the standard reducer may put into any field. -/
def merge (f : Field) (current incoming : Value) : Except Fault Value := do
  let merged ← f.reducer.apply current incoming
  if (merged.isNull && f.reducer.clears) || f.admits merged then return merged
  else
    .error (.plain .update
      s!"Field '{f.name}' expects {f.type.name}, reducer produced {merged.kindName}")

def describe (f : Field) : Value :=
  .ofFields [("type", .str f.type.name), ("reducer", .str f.reducer.name), ("default", f.default),
    ("nullable", .bool f.nullable)]

/-- A field that was not refused starts with a valid value. -/
theorem admits_default_of_check {f g : Field} (h : f.check = .ok g) : g.admits g.default = true := by
  unfold check at h
  split at h <;> simp_all

end Field

end Workflow
