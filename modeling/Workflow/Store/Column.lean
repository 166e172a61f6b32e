import Workflow.Number.Text
import Workflow.Text.Blank
import Workflow.Fault

/-! What the columns of a table hold. A column of numbers holds binary ones: it turns whole numbers into
    binary ones, and texts that write a number. Any other text stays, and is never below a number. -/

namespace Workflow.Store.Table

/-- The numbers that a column can hold. -/
def fitsColumn (n : Int) : Bool := -(Nat.pow 2 63) ≤ n && n < Nat.pow 2 63

/-- What is told of a number that fits no column. -/
def tooLarge : Fault := .plain .overflow "Python int too large to convert to SQLite INTEGER"

/-! ### Numbers in texts -/

/-- White space that may stand around a number. -/
def isSpace (c : Char) : Bool := c = ' ' || (9 ≤ c.toNat && c.toNat ≤ 13)

/-- Whether there is a minus sign, and what follows the sign. -/
def signed : List Char → Bool × List Char
  | '-' :: cs => (true, cs)
  | '+' :: cs => (false, cs)
  | cs => (false, cs)

/-- The power of ten that the end of a number writes. -/
def exponent? : List Char → Option Int
  | [] => some 0
  | e :: cs =>
    let (negative, digits) := signed cs
    if !(e == 'e' || e == 'E') || digits.isEmpty || !digits.all Char.isDigit then none
    else
      let n : Int := Number.ofDigits digits
      some (if negative then -n else n)

/-- The number that a text writes in base ten, maybe with a point and a power of ten. -/
def numeral? (s : String) : Option Float :=
  let (negative, cs) := signed (Text.trim isSpace s.toList)
  let (whole, cs) := cs.span Char.isDigit
  let (fraction, cs) := match cs with
    | '.' :: cs => cs.span Char.isDigit
    | cs => ([], cs)
  if whole.isEmpty && fraction.isEmpty then none
  else (exponent? cs).map (Number.ofParts negative whole fraction)

/-! ### Times -/

/-- The value can stand in a column of times, if it is not too large. The column holds no `null`, and a
    float that is no number is one. -/
def takesTime : Value → Bool
  | .float x => !x.isNaN
  | .bool _ | .int _ | .str _ => true
  | _ => false

/-- The value is a whole number that a column cannot hold. -/
def exceedsTime : Value → Bool
  | .int n => !fitsColumn n
  | _ => false

/-- What a column of times makes of a value. -/
def timeOf : Value → Value
  | .bool b => .float (if b then 1 else 0)
  | .int n => .float ((Number.ofInt? n).getD 0)
  | .str s => ((numeral? s).map Value.float).getD (.str s)
  | v => v

/-- The time in a column is older than the limit. -/
def isOlder (limit : Float) : Value → Bool
  | .float x => x < limit
  | _ => false

example : timeOf (.str " 12 ") = .float (Number.ofParts false ['1', '2'] [] 0) := by rfl

example : timeOf (.str "1e") = .str "1e" := by rfl

end Workflow.Store.Table
