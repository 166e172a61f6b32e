import Workflow.Yaml.Block

/-! YAML 1.1 texts of one document read as values: block and flow collections, plain, quoted and block
    scalars, anchors and merge keys. A text outside of this form has no value. -/

namespace Workflow.Yaml

open Read

/-- A character that a text may hold. -/
def isAdmitted (c : Char) : Bool :=
  let n := c.toNat
  n == 9 || n == 10 || n == 13 || (32 ≤ n && n ≤ 126) || n == 0x85 || (0xA0 ≤ n && n ≤ 0xD7FF) ||
    (0xE000 ≤ n && n ≤ 0xFFFD) || 0x10000 ≤ n

/-- All line breaks as one character. -/
def unifyBreaks : List Char → List Char
  | '\r' :: '\n' :: cs => '\n' :: unifyBreaks cs
  | '\r' :: cs => '\n' :: unifyBreaks cs
  | '\u0085' :: cs => '\n' :: unifyBreaks cs
  | c :: cs => c :: unifyBreaks cs
  | [] => []

/-- What a version begins with: digits, a point, digits and the end of the word. -/
def isVersion (cs : List Char) : Bool :=
  let major := cs.takeWhile isDigit
  let minor := (cs.drop (major.length + 1)).takeWhile isDigit
  Number.ofDigits major == 1 && !major.isEmpty && !minor.isEmpty &&
    (cs.drop major.length).head? == some '.' &&
    ((cs.drop (major.length + 1 + minor.length)).head?.map fun c => c == ' ' || c == '\n').getD true

/-- Passes the directives before a document; says whether there is one. The version may be given once,
    and is a version of YAML 1. -/
def passDirectives : (fuel : Nat) → (versioned : Bool) → Read Bool
  | 0, _ => refuse
  | fuel + 1, versioned => do
    let _ ← nextToken
    let c ← cursor
    match c.column, c.chars with
    | 0, '%' :: cs => do
      let name := cs.takeWhile isNameChar
      let rest := (cs.drop name.length).dropWhile (· == ' ')
      let isYaml := name == "YAML".toList
      require (!name.isEmpty && endsToken (cs.drop name.length))
      require (!isYaml || (!versioned && isVersion rest))
      moveTo (c.movedTo (rest.dropWhile (· != '\n')))
      let _ ← passDirectives fuel (versioned || isYaml)
      return true
    | _, _ => return false

/-- The opening marker of a document is passed; it cannot be left out after a directive. -/
def openDocument : Read Unit := do
  let given ← passDirectives ((← cursor).chars.length + 1) false
  let c ← cursor
  match c.atMarker, c.chars with
  | true, '-' :: _ => advance 3
  | _, _ => require !given

/-- One document and nothing after it. -/
def readDocument (fuel : Nat) : Read Value := do
  openDocument
  let v ← readNode fuel (-1) true false {}
  let _ ← nextToken
  let c ← cursor
  match c.atMarker, c.chars with
  | true, '.' :: _ => do
    advance 3
    let _ ← nextToken
    require (← cursor).chars.isEmpty
    return v
  | _, cs => do
    require cs.isEmpty
    return v

/-- The value of a text of one document; nothing at all is `null`. There is none if the text has not
    the form of a document, and a fault if a scalar in it does not fit its tag. -/
def read? (s : String) : Option (Except Fault Value) :=
  let cs := match s.toList with
    | '\uFEFF' :: cs => cs
    | cs => cs
  if cs.all isAdmitted then
    let cs := unifyBreaks cs
    ((readDocument (8 * cs.length + 16)).run { place := ⟨cs, 0⟩ }).map fun (v, r) =>
      match r.fault with
      | none => .ok v
      | some f => .error f
  else none

end Workflow.Yaml
