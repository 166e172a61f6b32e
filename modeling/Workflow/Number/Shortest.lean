import Workflow.Number.Dyadic

/-! The shortest decimal number that reads back as a given binary one. On the grids of 1, 2, ..., 17
    significant digits in turn, the two neighbours of the value are tried; the first grid with a
    number nearer to the value than to any other binary number wins. -/

namespace Workflow

/-- The number `digits * 10 ^ exponent`. -/
structure Decimal where
  digits : Nat
  exponent : Int

namespace Decimal

/-- How many decimal digits `n` has; one for zero. -/
def size (n : Nat) : Nat := (Nat.toDigits 10 n).length

/-- The power of ten of the first digit of the positive quotient `n / m`. -/
def leading (n m : Nat) : Int :=
  if m ≤ n then (size (n / m) : Int) - 1
  else
    let l := size (m / n)
    if n * Nat.pow 10 (l - 1) = m then -((l : Int) - 1) else -(l : Int)

/-- The numbers `a / c` and `b / c` bound what rounds to the value `v / c`; the ends belong to it or
    not. -/
structure Interval where
  low : Nat
  value : Nat
  high : Nat
  scale : Nat
  closed : Bool

/-- What rounds to a positive binary number. -/
def Interval.around (d : Dyadic) : Interval :=
  let q := d.exponent - 2
  let up := Nat.pow 2 q.toNat
  ⟨(4 * d.mantissa - if d.narrow then 1 else 2) * up, 4 * d.mantissa * up,
    (4 * d.mantissa + 2) * up, Nat.pow 2 (-q).toNat, d.mantissa % 2 = 0⟩

/-- The quotient `n / m` lies in the interval. -/
def Interval.contains (i : Interval) (n m : Nat) : Bool :=
  let x := n * i.scale
  if i.closed then i.low * m ≤ x ∧ x ≤ i.high * m else i.low * m < x ∧ x < i.high * m

/-- The number with `p` as its last place that the interval holds and that is nearest to its value. -/
def Interval.onGrid? (i : Interval) (p : Int) : Option Nat :=
  let up := Nat.pow 10 p.toNat
  let down := Nat.pow 10 (-p).toNat
  let d := i.value * down / (i.scale * up)
  let rest := i.value * down % (i.scale * up)
  match i.contains (d * up) down, i.contains ((d + 1) * up) down with
  | true, true =>
    if 2 * rest < i.scale * up ∨ (2 * rest = i.scale * up ∧ d % 2 = 0) then some d else some (d + 1)
  | true, false => some d
  | false, true => some (d + 1)
  | false, false => none

/-- Trailing zeros moved into the exponent; at most `fuel` of them. -/
def trim : (fuel : Nat) → Decimal → Decimal
  | 0, d => d
  | fuel + 1, d => if d.digits % 10 = 0 then trim fuel ⟨d.digits / 10, d.exponent + 1⟩ else d

/-- The number on the first of the given grids that holds one; each grid is given by its last place. -/
def search (i : Interval) : (places : List Int) → Decimal
  | [] => ⟨i.value / i.scale, 0⟩
  | p :: ps =>
    match i.onGrid? p with
    | some d => trim 17 ⟨d, p⟩
    | none => search i ps

/-- The shortest decimal magnitude that reads back as the binary one. -/
def shortest (d : Dyadic) : Decimal :=
  if d.mantissa = 0 then ⟨0, 0⟩
  else
    let i := Interval.around d
    search i ((List.range 17).map fun (k : Nat) => leading i.value i.scale - (k : Int))

end Decimal

end Workflow
