import Workflow.Number.Text
import Workflow.Value.Basic

/-! Equality of values. Numbers of different kinds are equal if their exact values are, truth values
    count as 0 and 1, and mappings are compared without regard to order. -/

namespace Workflow

/-- The value of a number, exact and the same for every kind of number. -/
inductive Magnitude where
  | finite (quotient : Int × Nat)
  | infinite (negative : Bool)
  | nan

namespace Magnitude

def ofFloat (x : Float) : Magnitude :=
  match Dyadic.ofFloat? x with
  | some d => .finite d.quotient
  | none => if x.isNaN then .nan else .infinite (x < 0)

/-- The order of two numbers; `none` if one of them is no number. -/
def compare? : Magnitude → Magnitude → Option Ordering
  | .nan, _ | _, .nan => none
  | .finite a, .finite b => some (compareQuotients a b)
  | .infinite a, .infinite b => some (if a = b then .eq else if a then .lt else .gt)
  | .infinite a, .finite _ => some (if a then .lt else .gt)
  | .finite _, .infinite b => some (if b then .gt else .lt)

end Magnitude

namespace Value

/-- The number that a value is; `none` for other kinds. -/
def number? : Value → Option Magnitude
  | .bool b => some (.finite (if b then 1 else 0, 1))
  | .int n => some (.finite (n, 1))
  | .float x => some (.ofFloat x)
  | _ => none

/-- Equality of two values neither of which is a container. -/
def equalAtoms (v w : Value) : Bool :=
  match v.number?, w.number? with
  | some a, some b => a.compare? b == some .eq
  | _, _ =>
    match v, w with
    | .null, .null | .undefined, .undefined => true
    | .str s, .str t => s == t
    | .bytes s, .bytes t => s == t
    | .kind k, .kind l => k == l
    | _, _ => false

mutual

def equal : Value → Value → Bool
  | .list xs, .list ys => equalAll xs ys
  | .tuple xs, .tuple ys => equalAll xs ys
  | .mapping es, .mapping fs => es.length == fs.length && covered es fs
  | .object k es, .object l fs => k == l && es.length == fs.length && coveredFields es fs
  | v, w => equalAtoms v w
termination_by structural v => v

/-- The two lists are equal item by item. -/
def equalAll : List Value → List Value → Bool
  | [], [] => true
  | x :: xs, y :: ys => equal x y && equalAll xs ys
  | _, _ => false
termination_by structural xs => xs

/-- Each entry of the first list is equal to one of the second. -/
def covered : List (Value × Value) → List (Value × Value) → Bool
  | [], _ => true
  | (k, v) :: es, fs => fs.any (fun f => equal k f.1 && equal v f.2) && covered es fs
termination_by structural es => es

def coveredFields : List (String × Value) → List (String × Value) → Bool
  | [], _ => true
  | (k, v) :: es, fs => fs.any (fun f => k == f.1 && equal v f.2) && coveredFields es fs
termination_by structural es => es

end

/-- The value under a key of a mapping. -/
def find? (es : List (Value × Value)) (key : Value) : Option Value :=
  (es.find? fun e => key.equal e.1).map (·.2)

/-- Sets the value under a key, in place of the entry whose key is equal, which keeps its key. -/
def insert (key v : Value) : List (Value × Value) → List (Value × Value)
  | [] => [(key, v)]
  | (k, w) :: es => if key.equal k then (k, v) :: es else (k, w) :: insert key v es

/-- Sets all entries of `fs` one after another. -/
def insertAll (es fs : List (Value × Value)) : List (Value × Value) :=
  fs.foldl (fun acc (k, v) => insert k v acc) es

/-- The value under a text key of a mapping. -/
def get? (v : Value) (key : String) : Option Value :=
  match v with
  | .mapping es => find? es (.str key)
  | _ => none

/-- The value under a text key, `null` if there is none. -/
def getD (v : Value) (key : String) : Value := (v.get? key).getD .null

/-- Whether the value stands in the list. -/
def memberOf (v : Value) (xs : List Value) : Bool := xs.any v.equal

end Value

end Workflow
