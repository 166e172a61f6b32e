import Workflow.Reducer
import Workflow.Value.Arithmetic

/-! Named reducers that a script can choose besides the built-in ones. -/

namespace Workflow.Script

/-- A number that is not a truth value. -/
def isPlainNumber : Value → Bool
  | .int _ | .float _ => true
  | _ => false

/-- The functions that a script can name as reducers. -/
def reducers : List (String × (Value → Value → Except Fault Value)) :=
  [("sum", fun current incoming =>
      if isPlainNumber current && isPlainNumber incoming then current.add incoming
      else .error (.type "sum needs numbers")),
    ("max", fun current incoming =>
      .ok (match current.integer?, incoming.integer? with
        | some m, some n => if n ≤ m then current else incoming
        | _, _ => incoming)),
    ("keep_longest", fun current incoming => do
      let new ← incoming.size
      let old ← current.size
      return if old < new then incoming else current),
    ("fail", fun _ _ => .error (.value "reducer failed")),
    ("none", fun _ _ => .ok .null),
    ("first", fun current _ => .ok current),
    ("pair", fun current incoming => .ok (.list [current, incoming])),
    ("undefined", fun _ _ => .ok .undefined)]

/-- The reducer of a script under a name; a name that is none chooses no reducer. -/
def reducer? (name : String) : Option Reducer := (reducers.lookup name).map (.custom name)

end Workflow.Script
