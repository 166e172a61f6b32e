import Workflow.Text.Blank
import Workflow.Text.Case
import Workflow.Value.Items

/-! Reducers merge what a node reports for a field into the field's current value. Main statements:
    what counts as empty keeps the current value under `replaceIfPresent`, and only `undefined` does
    under `overrideIfDefined`. -/

namespace Workflow

/-- A reducer: one of four built in, or a named function. -/
inductive Reducer where
  /-- Appends the incoming items, or the incoming value as one item. -/
  | concatenate
  /-- Takes the incoming value unless it is empty. -/
  | replaceIfPresent
  /-- Unites two mappings; incoming keys win. -/
  | shallowMerge
  /-- Takes the incoming value unless it is `undefined`. -/
  | overrideIfDefined
  | custom (name : String) (merge : Value → Value → Except Fault Value)
  deriving Inhabited

namespace Reducer

/-- What `replaceIfPresent` takes for no value. -/
def isEmpty : Value → Bool
  | .null | .undefined => true
  | .str s => s.isEmpty
  | .bytes bs => bs.isEmpty
  | .list xs | .tuple xs => xs.isEmpty
  | .mapping es => es.isEmpty
  | _ => false

/-- The items that a current value starts with; none if there is no value. -/
def baseItems : Value → Except Fault (List Value)
  | .null | .undefined => .ok []
  | v => v.items

/-- The items that an incoming value adds. -/
def addedItems : Value → List Value
  | .null | .undefined => []
  | .list xs | .tuple xs => xs
  | v => [v]

/-- The entries of a mapping; none for any other value. -/
def entriesOf : Value → List (Value × Value)
  | .mapping es => es
  | _ => []

/-- The current entries with the incoming ones set over them. -/
def mergeMappings (current incoming : Value) : Except Fault Value :=
  match incoming with
  | .mapping es => .ok (.mapping (Value.insertAll (entriesOf current) es))
  | .null | .undefined => .ok (.mapping (entriesOf current))
  | v => .error (.type s!"shallow_merge expects a mapping, got {v.kindName}")

/-- Merges an incoming value into the current one. -/
def apply : Reducer → (current incoming : Value) → Except Fault Value
  | .concatenate, current, incoming => do
    return .list ((← baseItems current) ++ addedItems incoming)
  | .replaceIfPresent, current, incoming => .ok (if isEmpty incoming then current else incoming)
  | .shallowMerge, current, incoming => mergeMappings current incoming
  | .overrideIfDefined, current, incoming =>
    .ok (match incoming with | .undefined => current | v => v)
  | .custom _ merge, current, incoming => merge current incoming

/-- The name that a reducer is shown with. -/
def name : Reducer → String
  | .concatenate => "concatenate"
  | .replaceIfPresent => "replace_if_present"
  | .shallowMerge => "shallow_merge"
  | .overrideIfDefined => "override_if_defined"
  | .custom name _ => name

/-- The reducer of a field that names none. -/
def standard : Reducer := .overrideIfDefined

/-- The standard reducer lets an explicit `null` clear a field of any type. -/
def clears : Reducer → Bool
  | .overrideIfDefined => true
  | _ => false

/-- The names of the built-in reducers. -/
def builtins : List (String × Reducer) :=
  [("concat", .concatenate), ("concatenate", .concatenate), ("append", .concatenate),
    ("replace", .replaceIfPresent), ("replace_if_present", .replaceIfPresent),
    ("merge", .shallowMerge), ("shallow_merge", .shallowMerge),
    ("override", .overrideIfDefined), ("override_if_defined", .overrideIfDefined)]

/-- Named reducers besides the built-in ones. -/
abbrev Registry := List (String × Reducer)

inductive Choice where
  | standard
  | named (name : String)
  | given (r : Reducer)
  /-- A value of the named kind, which chooses none. -/
  | unfit (kindName : String)
  deriving Inhabited

def Choice.ofValue : Value → Choice
  | .null => .standard
  | .str s => .named s
  | v => .unfit v.kindName

/-- A name without blanks at its ends, in lower case, dashes as underscores. -/
def normalName (name : String) : String :=
  String.ofList ((Text.lower (Text.strip name)).toList.map fun c => if c = '-' then '_' else c)

/-- The chosen reducer. A registry is asked for the name as it is, then for its normal form, before
    the built-in names. -/
def resolve (registry : Registry) : Choice → Except Fault Reducer
  | .standard => .ok standard
  | .given r => .ok r
  | .unfit k => .error (.type s!"Reducer must be a name or callable, got {k}")
  | .named name =>
    match registry.lookup name <|> registry.lookup (normalName name)
        <|> builtins.lookup (normalName name) with
    | some r => .ok r
    | none => .error (.key (.str name))

/-- Merges incoming values one after another; a fault keeps the value reached before it. -/
def fold (r : Reducer) : (current : Value) → List Value → List (Except Fault Value)
  | _, [] => []
  | current, v :: vs =>
    match r.apply current v with
    | .ok merged => .ok merged :: fold r merged vs
    | .error e => .error e :: fold r current vs

/-! ### What the built-in reducers do -/

theorem apply_replaceIfPresent_of_isEmpty {current incoming : Value} (h : isEmpty incoming = true) :
    replaceIfPresent.apply current incoming = .ok current := by
  simp [apply, h]

theorem apply_replaceIfPresent_of_not_isEmpty {current incoming : Value}
    (h : isEmpty incoming = false) : replaceIfPresent.apply current incoming = .ok incoming := by
  simp [apply, h]

theorem apply_overrideIfDefined_undefined (current : Value) :
    overrideIfDefined.apply current .undefined = .ok current := rfl

theorem apply_overrideIfDefined {current incoming : Value} (h : incoming ≠ .undefined) :
    overrideIfDefined.apply current incoming = .ok incoming := by
  cases incoming <;> simp_all [apply]

end Reducer

end Workflow
