import Workflow.Value.Equality
import Workflow.Yaml.Moment

/-! Plain scalars of YAML 1.1: which texts stand for truth values, numbers, dates and nothing. -/

namespace Workflow.Yaml

def trueWords : List String := ["yes", "Yes", "YES", "true", "True", "TRUE", "on", "On", "ON"]
def falseWords : List String := ["no", "No", "NO", "false", "False", "FALSE", "off", "Off", "OFF"]
def nullWords : List String := ["", "~", "null", "Null", "NULL"]

def isDigit : Char → Bool := Json.isDigit

/-- A digit, or an underscore between digits. -/
def isDigitMark (c : Char) : Bool := isDigit c || c == '_'

def isBinary (c : Char) : Bool := c == '0' || c == '1' || c == '_'
def isOctal (c : Char) : Bool := ('0' ≤ c && c ≤ '7') || c == '_'
def isHex (c : Char) : Bool := (Json.hexValue? c).isSome || c == '_'

/-- The sign of a number and what follows it. -/
def splitSign : List Char → Bool × List Char
  | '-' :: cs => (true, cs)
  | '+' :: cs => (false, cs)
  | cs => (false, cs)

/-- The value of digits in a base; underscores do not count. -/
def inBase (base : Nat) (cs : List Char) : Nat :=
  (cs.filterMap Json.hexValue?).foldl (fun n d => base * n + d) 0

/-- Texts split at colons. -/
def splitColons (cs : List Char) : List (List Char) :=
  cs.foldr (fun c parts => match parts with
    | p :: ps => if c = ':' then [] :: p :: ps else (c :: p) :: ps
    | [] => [[c]]) [[]]

/-- A part of a number in base 60: one digit, or two below 60. -/
def isSixtieth : List Char → Bool
  | [c] => isDigit c
  | [a, b] => '0' ≤ a && a ≤ '5' && isDigit b
  | _ => false

def inSixty (parts : List (List Char)) : Nat := parts.foldl (fun n p => 60 * n + inBase 10 p) 0

/-- The whole number that a text without its sign writes. -/
def natural? (cs : List Char) : Option Nat :=
  match cs with
  | '0' :: 'b' :: ds => if !ds.isEmpty && ds.all isBinary then some (inBase 2 ds) else none
  | '0' :: 'x' :: ds => if !ds.isEmpty && ds.all isHex then some (inBase 16 ds) else none
  | ['0'] => some 0
  | '0' :: ds => if ds.all isOctal then some (inBase 8 ds) else none
  | c :: ds =>
    if !isDigit c then none
    else if ds.all isDigitMark then some (inBase 10 cs)
    else
      match splitColons cs with
      | p :: ps => if p.all isDigitMark && ps.all isSixtieth then some (inSixty (p :: ps)) else none
      | [] => none
  | [] => none

/-- The power of ten that a mark and a signed exponent write; zero for nothing. -/
def exponent? : List Char → Option Int
  | [] => some 0
  | e :: s :: ds =>
    if (e = 'e' ∨ e = 'E') ∧ (s = '+' ∨ s = '-') ∧ !ds.isEmpty ∧ ds.all isDigit then
      let n : Int := Number.ofDigits ds
      some (if s = '-' then -n else n)
    else none
  | _ => none

def isInfinity (cs : List Char) : Bool :=
  cs == ".inf".toList || cs == ".Inf".toList || cs == ".INF".toList

def isNotNumber (cs : List Char) : Bool :=
  cs == ".nan".toList || cs == ".NaN".toList || cs == ".NAN".toList

def digitsOf (cs : List Char) : List Char := cs.filter isDigit

/-- The number with a point that a text writes. -/
def float? (cs : List Char) : Option Float :=
  let (negative, body) := splitSign cs
  let signed := fun (x : Float) => if negative then -x else x
  if isInfinity body then some (signed (1 / 0))
  else if isNotNumber cs then some (0 / 0)
  else
    let whole := body.takeWhile isDigitMark
    match whole, body.drop whole.length with
    | [], '.' :: rest =>
      let fraction := rest.takeWhile isDigitMark
      if (fraction.head?.map isDigit).getD false && negative == false && cs.head? != some '+' then
        (exponent? (rest.drop fraction.length)).map fun e =>
          Number.ofParts negative [] (digitsOf fraction) e
      else none
    | c :: _, '.' :: rest =>
      let fraction := rest.takeWhile isDigitMark
      if isDigit c then
        (exponent? (rest.drop fraction.length)).map fun e =>
          Number.ofParts negative (digitsOf whole) (digitsOf fraction) e
      else none
    | c :: _, ':' :: _ =>
      let parts := body.takeWhile fun d => d != '.'
      match splitColons parts, body.drop parts.length with
      | p :: ps, '.' :: fraction =>
        if isDigit c && p.all isDigitMark && ps.all isSixtieth && fraction.all isDigitMark then
          some (Number.ofParts negative (toString (inSixty (p :: ps))).toList (digitsOf fraction) 0)
        else none
      | _, _ => none
    | _, _ => none

/-- The length of a run of digits in base ten that is too long to be read, if there is one. -/
def tooLong? (cs : List Char) : Option Nat :=
  if cs.head? = some '0' then none
  else ((splitColons cs).map fun p => (digitsOf p).length).find? fun n => Number.digitLimit < n

/-- The value of a plain scalar; a lone sign of equality has none. -/
def plainValue? (s : String) : Option (Except Fault Value) :=
  let cs := s.toList
  if s == "=" then none
  else if trueWords.contains s then some (.ok (.bool true))
  else if falseWords.contains s then some (.ok (.bool false))
  else if nullWords.contains s then some (.ok .null)
  else
    match float? cs with
    | some x => some (.ok (.float x))
    | none =>
      let (negative, body) := splitSign cs
      match natural? body, Moment.ofText? cs with
      | some n, _ =>
        match tooLong? body with
        | some digits => some (.error (.value (Number.tooManyDigits digits)))
        | none => some (.ok (.int (if negative then -(n : Int) else n)))
      | none, some m => some m.value
      | none, none => some (.ok (.str s))

end Workflow.Yaml
