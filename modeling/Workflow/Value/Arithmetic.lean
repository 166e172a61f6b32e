import Workflow.Value.Items

/-! Sums, order and items of values, with the faults of values that do not fit together. -/

namespace Workflow.Value

/-- The integer that a value counts as. -/
def integer? : Value → Option Int
  | .int n => some n
  | .bool b => some (if b then 1 else 0)
  | _ => none

/-- The binary number nearest to an integer. -/
def toFloat (n : Int) : Except Fault Float :=
  match Number.ofInt? n with
  | some x => .ok x
  | none => .error (.plain .overflow "int too large to convert to float")

/-- The fault of two values that have no sum. -/
def noSum (v w : Value) : Fault :=
  .type s!"unsupported operand type(s) for +: '{v.fullKindName}' and '{w.fullKindName}'"

/-- The fault of a sequence to which a value cannot be appended. -/
def noConcatenation (v w : Value) : Fault :=
  .type s!"can only concatenate {v.fullKindName} (not \"{w.fullKindName}\") to {v.fullKindName}"

/-- The sum of two numbers, or two sequences of one kind put together. -/
def add (v w : Value) : Except Fault Value :=
  match v, w with
  | .float x, .float y => .ok (.float (x + y))
  | .str s, .str t => .ok (.str (s ++ t))
  | .list xs, .list ys => .ok (.list (xs ++ ys))
  | .tuple xs, .tuple ys => .ok (.tuple (xs ++ ys))
  | .bytes s, .bytes t => .ok (.bytes (s ++ t))
  | .str _, w | .list _, w | .tuple _, w => .error (noConcatenation v w)
  | .bytes _, w => .error (.type s!"can't concat {w.fullKindName} to bytes")
  | v, w =>
    match v, w, v.integer?, w.integer? with
    | _, _, some m, some n => .ok (.int (m + n))
    | .float x, _, _, some n => do return .float (x + (← toFloat n))
    | _, .float y, some m, _ => do return .float ((← toFloat m) + y)
    | _, _, _, _ => .error (noSum v w)

/-- The fault of two values without an order. -/
def noOrder (v w : Value) : Fault :=
  .type s!"'>=' not supported between instances of '{v.fullKindName}' and '{w.fullKindName}'"

mutual

/-- The first value is not less than the second. Sequences are compared at the first place where they
    differ, or else by length. -/
def atLeast : Value → Value → Except Fault Bool
  | .list xs, .list ys => atLeastAll xs ys
  | .tuple xs, .tuple ys => atLeastAll xs ys
  | .str s, .str t => .ok (t ≤ s)
  | .bytes s, .bytes t => .ok (t.map UInt8.toNat ≤ s.map UInt8.toNat)
  | v, w =>
    match v.number?, w.number? with
    | some a, some b =>
      .ok (match a.compare? b with
        | some .lt | none => false
        | _ => true)
    | _, _ => .error (noOrder v w)
termination_by structural v => v

def atLeastAll : List Value → List Value → Except Fault Bool
  | _, [] => .ok true
  | [], _ :: _ => .ok false
  | x :: xs, y :: ys => if x.equal y then atLeastAll xs ys else atLeast x y
termination_by structural xs => xs

end

/-- The item at a place, counted from the end if negative. -/
def atPlace (xs : List Value) (n : Int) : Option Value :=
  if 0 ≤ n then xs[n.toNat]? else if -n ≤ xs.length then xs[(xs.length + n).toNat]? else none

/-- The item of a sequence of the given kind at a place. -/
def sequenceItem (kind what : String) (xs : List Value) (key : Value) (unfit : String) :
    Except Fault Value :=
  match key.integer? with
  | none => .error (.type unfit)
  | some n =>
    if n < -(Nat.pow 2 63) ∨ Nat.pow 2 63 ≤ n then
      .error (.plain .index "cannot fit 'int' into an index-sized integer")
    else
      match atPlace xs n with
      | some x => .ok x
      | none => .error (.plain .index s!"{kind}{what} out of range")

/-- The value under a key of a mapping, or at a place of a sequence. -/
def item (v key : Value) : Except Fault Value :=
  match v with
  | .mapping es => do
    key.checkKey
    match find? es key with
    | some w => return w
    | none => .error (.key key)
  | .list xs =>
    sequenceItem "list" " index" xs key
      s!"list indices must be integers or slices, not {key.fullKindName}"
  | .tuple xs =>
    sequenceItem "tuple" " index" xs key
      s!"tuple indices must be integers or slices, not {key.fullKindName}"
  | .str s =>
    sequenceItem "string" " index" (s.toList.map fun c => .str (String.singleton c)) key
      s!"string indices must be integers, not '{key.fullKindName}'"
  | .bytes bs =>
    sequenceItem "" "index" (bs.map fun b => .int b.toNat) key
      s!"byte indices must be integers or slices, not {key.fullKindName}"
  | v => .error (.type s!"'{v.fullKindName}' object is not subscriptable")

end Workflow.Value
