import Workflow.Fault

/-! JSON texts read as values. Whole numbers keep all their digits, and may have so many of them as a
    whole number that is read from a text; `NaN` and `Infinity` are numbers too. A problem names its
    place by line, column and offset. -/

namespace Workflow.Json

/-- A text that is left to read, and how many characters stand before it. -/
structure Rest where
  offset : Nat
  chars : List Char

namespace Rest

def advance (r : Rest) (n : Nat) : Rest := ⟨r.offset + n, r.chars.drop n⟩

def isSpace (c : Char) : Bool := c = ' ' ∨ c = '\t' ∨ c = '\n' ∨ c = '\r'

def skipSpace (r : Rest) : Rest := r.advance (r.chars.takeWhile isSpace).length

end Rest

/-- Why a text is not read. -/
inductive Problem where
  /-- It is no JSON from an offset on. -/
  | malformed (label : String) (offset : Nat)
  /-- It is JSON so far, and goes on with a whole number of too many digits. -/
  | tooLong (digits : Nat)

/-- A problem of the text `cs`. -/
def Problem.fault (cs : List Char) : Problem → Fault
  | .malformed label offset =>
    let before := cs.take offset
    let line := before.count '\n' + 1
    let column := (before.reverse.takeWhile (· ≠ '\n')).length + 1
    .plain .json s!"{label}: line {line} column {column} (char {offset})"
  | .tooLong n => .value (Number.tooManyDigits n)

def hexValue? (c : Char) : Option Nat :=
  let n := c.toNat
  if 48 ≤ n ∧ n ≤ 57 then some (n - 48)
  else if 97 ≤ n ∧ n ≤ 102 then some (n - 87)
  else if 65 ≤ n ∧ n ≤ 70 then some (n - 55)
  else none

/-- The value of four digits in base 16. -/
def hexQuad? (cs : List Char) : Option Nat :=
  match cs with
  | [a, b, c, d] => do
    return (((← hexValue? a) * 16 + (← hexValue? b)) * 16 + (← hexValue? c)) * 16 + (← hexValue? d)
  | _ => none

/-- The character that a backslash and a letter stand for. -/
def simpleEscape? : Char → Option Char
  | '"' => some '"'
  | '\\' => some '\\'
  | '/' => some '/'
  | 'b' => some '\x08'
  | 'f' => some '\x0c'
  | 'n' => some '\n'
  | 'r' => some '\r'
  | 't' => some '\t'
  | _ => none

def isHigh (n : Nat) : Bool := 0xD800 ≤ n ∧ n ≤ 0xDBFF
def isLow (n : Nat) : Bool := 0xDC00 ≤ n ∧ n ≤ 0xDFFF

/-- The character of a code unit that stands alone. -/
def unitChar (n : Nat) : Char := if isHigh n ∨ isLow n then '\uFFFD' else Char.ofNat n

/-- The character written by the four digits at the head of the text, with a second escape after a
    high half, and the rest. -/
def readUnits (r : Rest) : Except Problem (Char × Rest) :=
  if r.chars.length ≤ 4 then .error (.malformed "Invalid \\uXXXX escape" (r.offset - 1))
  else
    match hexQuad? (r.chars.take 4) with
    | none => .error (.malformed "Invalid \\uXXXX escape" (r.offset - 1))
    | some high =>
      let after := r.advance 4
      match isHigh high && 6 < after.chars.length, after.chars with
      | true, '\\' :: 'u' :: _ =>
        match hexQuad? ((after.chars.drop 2).take 4) with
        | none => .error (.malformed "Invalid \\uXXXX escape" (after.offset + 1))
        | some low =>
          if isLow low then
            .ok (Char.ofNat (0x10000 + (high - 0xD800) * 0x400 + (low - 0xDC00)), after.advance 6)
          else .ok (unitChar high, after)
      | _, _ => .ok (unitChar high, after)

/-- Reads a text up to its closing quote; `start` is the offset of the opening one. -/
def readText (start : Nat) : (fuel : Nat) → Rest → (read : List Char) →
    Except Problem (String × Rest)
  | 0, _, _ => .error (.malformed "Unterminated string starting at" start)
  | fuel + 1, r, read =>
    match r.chars with
    | [] => .error (.malformed "Unterminated string starting at" start)
    | '"' :: _ => .ok (String.ofList read.reverse, r.advance 1)
    | '\\' :: [] => .error (.malformed "Unterminated string starting at" start)
    | '\\' :: 'u' :: _ => do
      let (c, rest) ← readUnits (r.advance 2)
      readText start fuel rest (c :: read)
    | '\\' :: c :: _ =>
      match simpleEscape? c with
      | some d => readText start fuel (r.advance 2) (d :: read)
      | none => .error (.malformed "Invalid \\escape" r.offset)
    | c :: _ =>
      if c.toNat < 32 then .error (.malformed "Invalid control character at" r.offset)
      else readText start fuel (r.advance 1) (c :: read)

def isDigit (c : Char) : Bool := '0' ≤ c ∧ c ≤ '9'

/-- Reads a number, or finds that no value stands here. -/
def readNumber (r : Rest) : Except Problem (Value × Rest) :=
  let negative := r.chars.head? = some '-'
  let body := if negative then r.chars.drop 1 else r.chars
  let whole := match body with
    | '0' :: _ => ['0']
    | cs => cs.takeWhile isDigit
  if whole.isEmpty then .error (.malformed "Expecting value" r.offset)
  else
    let rest := body.drop whole.length
    let (fraction, rest) := match rest with
      | '.' :: cs =>
        let ds := cs.takeWhile isDigit
        if ds.isEmpty then ([], rest) else (ds, cs.drop ds.length)
      | cs => ([], cs)
    let (exponent, rest) : Option Int × List Char := match rest with
      | e :: cs =>
        if e = 'e' ∨ e = 'E' then
          let minus := cs.head? = some '-'
          let digits := if minus ∨ cs.head? = some '+' then cs.drop 1 else cs
          let ds := digits.takeWhile isDigit
          if ds.isEmpty then (none, rest)
          else
            let n : Int := Number.ofDigits ds
            (some (if minus then -n else n), digits.drop ds.length)
        else (none, rest)
      | [] => (none, [])
    let after := r.advance (r.chars.length - rest.length)
    if !fraction.isEmpty || exponent.isSome then
      .ok (.float (Number.ofParts negative whole fraction (exponent.getD 0)), after)
    else if Number.digitLimit < whole.length then .error (.tooLong whole.length)
    else
      let n : Int := Number.ofDigits whole
      .ok (.int (if negative then -n else n), after)

def words : List (String × Value) :=
  [("null", .null), ("true", .bool true), ("false", .bool false), ("NaN", .float (0 / 0)),
    ("Infinity", .float (1 / 0)), ("-Infinity", .float (-1 / 0))]

mutual

def readValue : (fuel : Nat) → Rest → Except Problem (Value × Rest)
  | 0, r => .error (.malformed "Expecting value" r.offset)
  | fuel + 1, r =>
    match r.chars with
    | '"' :: _ => do
      let (s, rest) ← readText r.offset (r.chars.length + 1) (r.advance 1) []
      return (.str s, rest)
    | '\x7b' :: _ =>
      let rest := (r.advance 1).skipSpace
      if rest.chars.head? = some '\x7d' then .ok (.mapping [], rest.advance 1)
      else readEntries fuel rest []
    | '[' :: _ =>
      let rest := (r.advance 1).skipSpace
      if rest.chars.head? = some ']' then .ok (.list [], rest.advance 1)
      else readItems fuel rest []
    | cs =>
      match words.find? fun (w, _) => w.toList.isPrefixOf cs with
      | some (w, v) => .ok (v, r.advance w.length)
      | none => readNumber r

/-- Reads the items of a list from the next one on, after those already read. -/
def readItems : (fuel : Nat) → Rest → (read : List Value) → Except Problem (Value × Rest)
  | 0, r, _ => .error (.malformed "Expecting value" r.offset)
  | fuel + 1, r, read => do
    let (v, rest) ← readValue fuel r
    let rest := rest.skipSpace
    match rest.chars with
    | ']' :: _ => return (.list (v :: read).reverse, rest.advance 1)
    | ',' :: _ => readItems fuel (rest.advance 1).skipSpace (v :: read)
    | _ => .error (.malformed "Expecting ',' delimiter" rest.offset)

/-- Reads the entries of a mapping from the next one on; a key given twice keeps its first place and
    its last value. -/
def readEntries : (fuel : Nat) → Rest → (read : List (Value × Value)) →
    Except Problem (Value × Rest)
  | 0, r, _ => .error (.malformed "Expecting value" r.offset)
  | fuel + 1, r, read =>
    match r.chars with
    | '"' :: _ => do
      let (key, rest) ← readText r.offset (r.chars.length + 1) (r.advance 1) []
      let rest := rest.skipSpace
      match rest.chars with
      | ':' :: _ =>
        let (v, rest) ← readValue fuel (rest.advance 1).skipSpace
        let rest := rest.skipSpace
        let read := Value.insert (.str key) v read
        match rest.chars with
        | '\x7d' :: _ => return (.mapping read, rest.advance 1)
        | ',' :: _ => readEntries fuel (rest.advance 1).skipSpace read
        | _ => .error (.malformed "Expecting ',' delimiter" rest.offset)
      | _ => .error (.malformed "Expecting ':' delimiter" rest.offset)
    | _ => .error (.malformed "Expecting property name enclosed in double quotes" r.offset)

end

def read? (cs : List Char) : Except Problem Value := do
  if cs.head? = some '\uFEFF' then
    .error (.malformed "Unexpected UTF-8 BOM (decode using utf-8-sig)" 0)
  else
    let (v, rest) ← readValue (2 * cs.length + 2) (Rest.skipSpace ⟨0, cs⟩)
    let rest := rest.skipSpace
    if rest.chars.isEmpty then return v else .error (.malformed "Extra data" rest.offset)

def read (s : String) : Except Fault Value :=
  match read? s.toList with
  | .ok v => .ok v
  | .error p => .error (p.fault s.toList)

end Workflow.Json
