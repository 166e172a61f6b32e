/-! The exact value of a finite binary number of double precision, as `± m * 2 ^ q`. -/

namespace Workflow

/-- The number `± mantissa * 2 ^ exponent`. -/
structure Dyadic where
  negative : Bool
  mantissa : Nat
  exponent : Int
  /-- The mantissa is the least of its binade, so that the gap towards zero is half the other. -/
  narrow : Bool

namespace Dyadic

/-- The parts of a finite number; `none` for the infinities and for what is no number. -/
def ofFloat? (x : Float) : Option Dyadic :=
  let bits : Nat := x.toBits.toNat
  let field : Nat := bits / Nat.pow 2 52 % Nat.pow 2 11
  let fraction : Nat := bits % Nat.pow 2 52
  let negative := decide (Nat.pow 2 63 ≤ bits)
  if field = 2047 then none
  else if field = 0 then some ⟨negative, fraction, -1074, false⟩
  else some ⟨negative, Nat.pow 2 52 + fraction, (field : Int) - 1075, fraction = 0 ∧ 1 < field⟩

/-- The magnitude as a quotient of natural numbers. -/
def magnitude (d : Dyadic) : Nat × Nat :=
  (d.mantissa * Nat.pow 2 d.exponent.toNat, Nat.pow 2 (-d.exponent).toNat)

/-- The value as a quotient with a positive denominator. -/
def quotient (d : Dyadic) : Int × Nat :=
  let (n, m) := d.magnitude
  (if d.negative then -(n : Int) else n, m)

def truncate (d : Dyadic) : Int := let (n, m) := d.quotient; n.tdiv m

def isWhole (d : Dyadic) : Bool := let (n, m) := d.magnitude; n % m = 0

end Dyadic

/-- The order of two quotients with positive denominators. -/
def compareQuotients (a b : Int × Nat) : Ordering := compare (a.1 * b.2) (b.1 * a.2)

end Workflow
