import Workflow.Text.Quoted

/-! Octets read as the text that they stand for in UTF-8, one octet after another. -/

namespace Workflow.Text

/-- A character of which some octets are read: how many are owed, in which range the next one has to
    be, and the number so far. -/
structure Opened where
  owed : Nat
  least : Nat := 0x80
  greatest : Nat := 0xBF
  number : Nat
  octets : List UInt8
  deriving Inhabited

/-- What an octet does to the character that is read. -/
inductive OctetStep where
  | more (o : Opened)
  | done (c : Char)
  /-- The octet cannot stand there. -/
  | wrong (label : String)

/-- The octet begins a character. -/
def openWith (b : UInt8) : OctetStep :=
  let n := b.toNat
  if n < 0x80 then .done (Char.ofNat n)
  else if n < 0xC2 then .wrong "invalid start byte"
  else if n < 0xE0 then .more { owed := 1, number := n - 0xC0, octets := [b] }
  else if n < 0xF0 then
    .more { owed := 2, number := n - 0xE0, octets := [b]
            least := if n = 0xE0 then 0xA0 else 0x80
            greatest := if n = 0xED then 0x9F else 0xBF }
  else if n < 0xF5 then
    .more { owed := 3, number := n - 0xF0, octets := [b]
            least := if n = 0xF0 then 0x90 else 0x80
            greatest := if n = 0xF4 then 0x8F else 0xBF }
  else .wrong "invalid start byte"

/-- The octet continues a character. -/
def Opened.goOn (o : Opened) (b : UInt8) : OctetStep :=
  let n := b.toNat
  if n < o.least ∨ o.greatest < n then .wrong "invalid continuation byte"
  else
    let number := 64 * o.number + (n - 0x80)
    if o.owed ≤ 1 then .done (Char.ofNat number)
    else .more { owed := o.owed - 1, number, octets := o.octets ++ [b] }

/-- Octets that are no text, and the place of the first of them. -/
structure OctetProblem where
  offset : Nat
  octets : List UInt8
  label : String
  deriving Inhabited

def OctetProblem.message (p : OctetProblem) : String :=
  let place := match p.octets with
    | [b] => s!"byte 0x{String.ofList (hexDigits 2 b.toNat)} in position {p.offset}"
    | bs => s!"bytes in position {p.offset}-{p.offset + bs.length - 1}"
  s!"'utf-8' codec can't decode {place}: {p.label}"

/-- The characters of octets from a place on, where a character may be begun before it. -/
def decodeFrom (offset : Nat) : Option Opened → List UInt8 → Except OctetProblem (List Char)
  | none, [] => .ok []
  | some o, [] => .error ⟨offset, o.octets, "unexpected end of data"⟩
  | none, b :: bs =>
    match openWith b with
    | .more o => decodeFrom offset (some o) bs
    | .done c => do return c :: (← decodeFrom (offset + 1) none bs)
    | .wrong label => .error ⟨offset, [b], label⟩
  | some o, b :: bs =>
    match o.goOn b with
    | .more o => decodeFrom offset (some o) bs
    | .done c => do return c :: (← decodeFrom (offset + o.octets.length + 1) none bs)
    | .wrong label => .error ⟨offset, o.octets, label⟩

def decode (bs : List UInt8) : Except OctetProblem String := do
  return String.ofList (← decodeFrom 0 none bs)

/-- The characters of octets, with a mark in place of all that are no text. -/
def decodeAnyway : Option Opened → List UInt8 → List Char
  | none, [] => []
  | some _, [] => ['\uFFFD']
  | begun, b :: bs =>
    let mark := if begun.isSome then ['\uFFFD'] else []
    match (begun.map fun o => o.goOn b).getD (openWith b), openWith b with
    | .more o, _ => decodeAnyway (some o) bs
    | .done c, _ => c :: decodeAnyway none bs
    | .wrong _, .more o => mark ++ decodeAnyway (some o) bs
    | .wrong _, .done c => mark ++ c :: decodeAnyway none bs
    | .wrong _, .wrong _ => mark ++ '\uFFFD' :: decodeAnyway none bs

end Workflow.Text
