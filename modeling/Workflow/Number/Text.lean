import Workflow.Number.Shortest

/-! Numbers as texts. A binary number is written with the fewest digits that read back: with a point
    while the power of ten of its first digit lies between -4 and 15, else with an exponent of at
    least two digits. -/

namespace Workflow.Number

def zeros (n : Nat) : String := String.ofList (List.replicate n '0')

/-- The magnitude with a point among the digits or with an exponent. -/
def writeDecimal (d : Decimal) : String :=
  let ds := toString d.digits
  let n := ds.length
  let lead : Int := d.exponent + n - 1
  if -4 ≤ lead ∧ lead < 16 then
    if lead < 0 then "0." ++ zeros (-lead - 1).toNat ++ ds
    else
      let whole := lead.toNat + 1
      if n ≤ whole then ds ++ zeros (whole - n) ++ ".0"
      else String.ofList (ds.toList.take whole) ++ "." ++ String.ofList (ds.toList.drop whole)
  else
    let fraction := ds.toList.drop 1
    let mark := if lead < 0 then "e-" else "e+"
    let e := toString lead.natAbs
    String.ofList (ds.toList.take 1) ++ (if fraction.isEmpty then "" else "." ++ String.ofList fraction)
      ++ mark ++ zeros (2 - e.length) ++ e

def writeFloat (x : Float) : String :=
  match Dyadic.ofFloat? x with
  | some d => (if d.negative then "-" else "") ++ writeDecimal (Decimal.shortest d)
  | none => if x.isNaN then "nan" else if x < 0 then "-inf" else "inf"

/-- The binary number nearest to `digits * 10 ^ exponent`. Beyond every finite number lies infinity. -/
def nearest (digits : Nat) (exponent : Int) : Float :=
  let size : Int := Decimal.size digits
  if digits = 0 then 0
  else if 400 < size + exponent then 1 / 0
  else if size + exponent < -400 then 0
  else if exponent < 0 then Float.ofScientific digits true exponent.natAbs
  else Float.ofScientific digits false exponent.toNat

/-- The binary number nearest to a whole one; `none` beyond every finite number. -/
def ofInt? (n : Int) : Option Float :=
  let x := nearest n.natAbs 0
  if x.isInf then none else some (if n < 0 then -x else x)

/-- The value of a run of decimal digits. -/
def ofDigits (cs : List Char) : Nat := cs.foldl (fun n c => 10 * n + (c.toNat - 48)) 0

/-- The most digits that a whole number may have to be read from a text. -/
def digitLimit : Nat := 4300

/-- What is told of a whole number of `n` digits, if they are too many. -/
def tooManyDigits (n : Nat) : String :=
  s!"Exceeds the limit ({digitLimit} digits) for integer string conversion: value has {n} digits; " ++
    "use sys.set_int_max_str_digits() to increase the limit"

/-- The number with the given sign, whole part, fraction and power of ten, the parts as digits. -/
def ofParts (negative : Bool) (whole fraction : List Char) (exponent : Int) : Float :=
  let x := nearest (ofDigits (whole ++ fraction)) (exponent - fraction.length)
  if negative then -x else x

end Workflow.Number
