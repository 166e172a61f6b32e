import Workflow.Text.Printable

/-! Quoted texts and octets. A text stands between single quotes, or between double quotes if it holds
    a single quote and no double one; what cannot be printed is escaped by its code. -/

namespace Workflow.Text

/-- The digit of value `n` in base 16, in lower case. -/
def hexDigit (n : Nat) : Char :=
  if n < 10 then Char.ofNat (48 + n) else Char.ofNat (87 + n)

/-- The last `width` digits of `n` in base 16, the most significant one first. -/
def hexDigits : (width : Nat) → (n : Nat) → List Char
  | 0, _ => []
  | width + 1, n => hexDigits width (n / 16) ++ [hexDigit (n % 16)]

/-- The quote around a text that holds a single quote or not, and a double quote or not. -/
def chooseQuote (single double : Bool) : Char := if single && !double then '"' else '\''

/-- The escape of a character by its code, in the narrowest of three widths. -/
def escapeCode (n : Nat) : List Char :=
  if n < 0x100 then '\\' :: 'x' :: hexDigits 2 n
  else if n < 0x10000 then '\\' :: 'u' :: hexDigits 4 n
  else '\\' :: 'U' :: hexDigits 8 n

/-- One character inside the quote `q`. -/
def escapeChar (q c : Char) : List Char :=
  if c = q ∨ c = '\\' then ['\\', c]
  else if c = '\n' then ['\\', 'n']
  else if c = '\t' then ['\\', 't']
  else if c = '\r' then ['\\', 'r']
  else if isPrintable c then [c]
  else escapeCode c.toNat

def quoted (s : String) : String :=
  let cs := s.toList
  let q := chooseQuote (cs.contains '\'') (cs.contains '"')
  String.ofList (q :: cs.flatMap (escapeChar q) ++ [q])

/-- One octet inside the quote `q`: ASCII stands for itself, other octets are escaped. -/
def escapeOctet (q : Char) (b : UInt8) : List Char :=
  if b.toNat < 127 then escapeChar q (Char.ofNat b.toNat) else escapeCode b.toNat

/-- The octets in quotes, after a `b`. -/
def quotedOctets (bs : List UInt8) : String :=
  let q := chooseQuote (bs.contains 39) (bs.contains 34)
  String.ofList ('b' :: q :: bs.flatMap (escapeOctet q) ++ [q])

end Workflow.Text
