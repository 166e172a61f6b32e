import Workflow.Text.Blank
import Workflow.Text.Digit
import Workflow.Fault

/-! Whole numbers from values: numbers lose their fractions, and texts of not too many digits are read in
    base ten. -/

namespace Workflow.Value

/-- The value of digits, between any two of which one underscore may stand. -/
def digitRun : (value : Nat) → List Char → Option Nat
  | value, [] => some value
  | value, '_' :: c :: cs => do
    let d ← Text.digitValue? c
    digitRun (10 * value + d) cs
  | value, c :: cs => do
    let d ← Text.digitValue? c
    digitRun (10 * value + d) cs

/-- The number of digits with at least one of them, the first one first. -/
def unsigned? : List Char → Option Nat
  | [] => none
  | c :: cs => do
    let d ← Text.digitValue? c
    digitRun d cs

/-- The number of digits with a sign before them. -/
def signed? : List Char → Option Int
  | '-' :: cs => (unsigned? cs).map fun n => -(n : Int)
  | '+' :: cs => (unsigned? cs).map fun n => (n : Int)
  | cs => (unsigned? cs).map fun n => (n : Int)

/-- How many digits stand before all else, after `count` others; `none` if an underscore among them does
    not stand between two. -/
def leading? (count : Nat) : List Char → Option Nat
  | [] => some count
  | '_' :: cs =>
    if count = 0 || ((cs.head?.bind Text.digitValue?).isNone) then none else leading? count cs
  | c :: cs => if (Text.digitValue? c).isSome then leading? (count + 1) cs else some count

/-- The characters without the sign that they may begin with. -/
def withoutSign : List Char → List Char
  | '-' :: cs | '+' :: cs => cs
  | cs => cs

/-- The whole number that characters write, with white space around it and a sign before it; `unread`
    tells of characters that write none. -/
def wholeOf (unread : Fault) (cs : List Char) : Except Fault Int :=
  let cs := Text.trim Text.isSpace cs
  let digits := (leading? 0 (withoutSign cs)).getD 0
  if Number.digitLimit < digits then .error (.value (Number.tooManyDigits digits))
  else
    match signed? cs with
    | some n => .ok n
    | none => .error unread

/-- Octets as characters, where each octet beyond ASCII is no digit and no white space. -/
def asciiOf (bs : List UInt8) : List Char :=
  bs.map fun b => if b < 128 then Char.ofNat b.toNat else '?'

/-- The whole number that a value stands for. -/
def whole (v : Value) : Except Fault Int :=
  let shown := String.ofList (v.literal.toList.take 200)
  let unread := Fault.value s!"invalid literal for int() with base 10: {shown}"
  match v with
  | .int n => .ok n
  | .bool b => .ok (if b then 1 else 0)
  | .float x =>
    match Dyadic.ofFloat? x with
    | some d => .ok d.truncate
    | none =>
      if x.isNaN then .error (.value "cannot convert float NaN to integer")
      else .error (.plain .overflow "cannot convert float infinity to integer")
  | .str s => wholeOf unread s.toList
  | .bytes bs => wholeOf unread (asciiOf bs)
  | v =>
    .error (.type ("int() argument must be a string, a bytes-like object or a real number, " ++
      s!"not '{v.fullKindName}'"))

end Workflow.Value
