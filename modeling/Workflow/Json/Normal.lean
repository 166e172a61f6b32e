import Workflow.Fault

/-! What a value becomes when it is written as JSON and read again: tuples turn into lists and keys into
    texts. A value with a part that JSON cannot hold has no such form. -/

namespace Workflow.Json

/-- The text of a key; numbers, truth values and `null` are written out. -/
def keyText : Value → Except Fault String
  | .str s => .ok s
  | .int n => .ok (toString n)
  | .bool b => .ok (if b then "true" else "false")
  | .null => .ok "null"
  | .float x =>
    .ok (if x.isNaN then "NaN" else if x.isInf then (if x < 0 then "-Infinity" else "Infinity")
      else Number.writeFloat x)
  | v => .error (.type s!"keys must be str, int, float, bool or None, not {v.fullKindName}")

mutual

/-- The form in which a value is read back. -/
def normal : Value → Except Fault Value
  | .null => .ok .null
  | .bool b => .ok (.bool b)
  | .int n => .ok (.int n)
  | .float x => .ok (.float x)
  | .str s => .ok (.str s)
  | .list xs => do return .list (← normalAll xs)
  | .tuple xs => do return .list (← normalAll xs)
  | .mapping es => do return .mapping (← normalEntries [] es)
  | .undefined => .error (.type "Object of type _Undefined is not JSON serializable")
  | .bytes _ => .error (.type "Object of type bytes is not JSON serializable")
  | .object k _ => .error (.type s!"Object of type {k} is not JSON serializable")
  | .kind _ => .error (.type "Object of type type is not JSON serializable")
termination_by structural v => v

def normalAll : List Value → Except Fault (List Value)
  | [] => .ok []
  | x :: xs => do
    let y ← normal x
    let ys ← normalAll xs
    return y :: ys
termination_by structural xs => xs

/-- The entries after those already written; keys that are written alike are one key. -/
def normalEntries (done : List (Value × Value)) :
    List (Value × Value) → Except Fault (List (Value × Value))
  | [] => .ok done
  | (k, v) :: es => do
    let s ← keyText k
    let w ← normal v
    normalEntries (Value.insert (.str s) w done) es
termination_by structural es => es

end

end Workflow.Json
