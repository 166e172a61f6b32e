import Workflow.Text.Blank
import Workflow.Text.Case
import Workflow.Value.Whole
import Workflow.Yaml.Scalar

/-! Scalars of YAML 1.1 with a tag that says what their text stands for, whether the text looks like it
    or not. -/

namespace Workflow.Yaml

/-- Texts are read as numbers without regard to underscores. -/
def withoutMarks (s : String) : List Char := s.toList.filter (· != '_')

/-- A text that needs a first character has none. -/
def noFirst : Fault := .plain .index "string index out of range"

/-- The whole number that digits write in a base below ten or in base 16. -/
def wholeInBase (base : Nat) (digits : List Char) (text : List Char) : Except Fault Int :=
  match digits.mapM Json.hexValue? with
  | some ds =>
    let n := ds.foldl (fun n d => base * n + d) 0
    if !ds.isEmpty && ds.all (· < base) then .ok n else unread
  | none => unread
where
  unread : Except Fault Int :=
    let shown := (Value.str (String.ofList text)).literal
    .error (.value s!"invalid literal for int() with base {base}: {shown}")

/-- The whole number of a text with the tag of whole numbers. -/
def taggedInt (s : String) : Except Fault Int :=
  match withoutMarks s with
  | [] => .error noFirst
  | c :: cs =>
    let body := if c = '-' ∨ c = '+' then cs else c :: cs
    let signed := fun (n : Int) => if c = '-' then -n else n
    match body with
    | ['0'] => .ok 0
    | '0' :: 'b' :: ds => (wholeInBase 2 ds ds).map signed
    | '0' :: 'x' :: ds => (wholeInBase 16 ds ds).map signed
    | '0' :: ds => (wholeInBase 8 ds ('0' :: ds)).map signed
    | [] => .error noFirst
    | ds => do
      let parts ← (splitColons ds).mapM fun p => Value.whole (.str (String.ofList p))
      return signed (parts.foldl (fun n p => 60 * n + p) 0)

/-- A number with or without a point and an exponent. -/
def decimal? (cs : List Char) : Option Float :=
  let (negative, body) := splitSign cs
  let whole := body.takeWhile isDigit
  let rest := body.drop whole.length
  let (fraction, rest) := match rest with
    | '.' :: ds => (ds.takeWhile isDigit, ds.dropWhile isDigit)
    | ds => ([], ds)
  let power : Option Int := match rest with
    | [] => some 0
    | 'e' :: ds =>
      let (minus, ds) := splitSign ds
      if !ds.isEmpty && ds.all isDigit then
        some (if minus then -(Number.ofDigits ds : Int) else Number.ofDigits ds)
      else none
    | _ => none
  if whole.isEmpty && fraction.isEmpty then
    if body == "inf".toList || body == "infinity".toList then
      some (if negative then -1 / 0 else 1 / 0)
    else if body == "nan".toList then some (0 / 0)
    else none
  else power.map fun e => Number.ofParts negative whole fraction e

/-- The number of a part of a text with the tag of numbers with a point. -/
def taggedPart (cs : List Char) : Except Fault Float :=
  match decimal? (Text.trim Text.isSpace cs) with
  | some x => .ok x
  | none =>
    .error (.value s!"could not convert string to float: {(Value.str (String.ofList cs)).literal}")

/-- The number of a text with the tag of numbers with a point. -/
def taggedFloat (s : String) : Except Fault Float :=
  match (Text.lower (String.ofList (withoutMarks s))).toList with
  | [] => .error noFirst
  | c :: cs =>
    let body := if c = '-' ∨ c = '+' then cs else c :: cs
    let signed := fun (x : Float) => if c = '-' then -x else x
    if isInfinity body then .ok (signed (1 / 0))
    else if isNotNumber body then .ok (0 / 0)
    else do
      let parts ← (splitColons body).mapM taggedPart
      return signed (parts.foldl (fun x p => 60 * x + p) 0)

/-- The truth value of a text with the tag of truth values. -/
def taggedBool (s : String) : Except Fault Bool :=
  let word := Text.lower s
  if trueWords.contains word then .ok true
  else if falseWords.contains word then .ok false
  else .error (.key (.str word))

/-- The moment of a text with the tag of moments. -/
def taggedMoment (s : String) : Except Fault Value :=
  match Moment.ofText? s.toList with
  | some m => m.value
  | none => .error (.noAttribute .null "groupdict")

/-- The value of a scalar; `plain` says that it stands without quotes. The tag `!` makes any scalar a
    plain one. No tag is known besides those of truth values, numbers, moments, texts and nothing. -/
def scalarValue? (tag : Option String) (plain : Bool) (s : String) : Option (Except Fault Value) :=
  match tag with
  | none => if plain then plainValue? s else some (.ok (.str s))
  | some "!" => plainValue? s
  | some "!!str" => some (.ok (.str s))
  | some "!!null" => some (.ok .null)
  | some "!!int" => some ((taggedInt s).map .int)
  | some "!!float" => some ((taggedFloat s).map .float)
  | some "!!bool" => some ((taggedBool s).map .bool)
  | some "!!timestamp" => some (taggedMoment s)
  | some _ => none

end Workflow.Yaml
