import Workflow.Yaml.Quoted
import Workflow.Fault

/-! Reading of a YAML text: the place where it stands, the anchors passed and the first scalar that does
    not fit, with the blanks, comments and line breaks between tokens. -/

namespace Workflow.Yaml

/-- Where reading stands, with the values of the anchors passed. -/
structure Reading where
  place : Cursor
  /-- How much was left at the last token that was the first one of its line. -/
  fresh : Option Nat := none
  anchors : List (String × Value) := []
  /-- The first scalar whose text does not fit. -/
  fault : Option Fault := none

/-- Reads on, or finds that the text has no value. -/
abbrev Read := StateT Reading Option

namespace Read

def cursor : Read Cursor := do return (← get).place
def moveTo (c : Cursor) : Read Unit := modify fun r => { r with place := c }
def advance (n : Nat) : Read Unit := modify fun r => { r with place := r.place.advance n }
def refuse {α : Type} : Read α := StateT.lift none

def head? : Read (Option Char) := do return (← cursor).chars.head?

/-- Goes on only if the condition holds. -/
def require (b : Bool) : Read Unit := if b then pure () else refuse

end Read

open Read

/-- Passes blanks, comments and line breaks; says whether a line has ended. -/
def skipGap : (comment : Bool) → List Char → (crossed : Bool) → List Char × Bool
  | _, '\n' :: cs, _ => skipGap false cs true
  | true, _ :: cs, crossed => skipGap true cs crossed
  | false, ' ' :: cs, crossed => skipGap false cs crossed
  | false, '#' :: cs, crossed => skipGap true cs crossed
  | false, c :: cs, crossed => (c :: cs, crossed)
  | _, [], crossed => ([], crossed)

/-- Moves to the next token; says whether it is the first one of its line. -/
def nextToken : Read Bool := do
  let r ← get
  let (rest, crossed) := skipGap false r.place.chars (r.place.column == 0)
  let isFirst := crossed || r.fresh == some rest.length
  set { r with
    place := r.place.movedTo rest
    fresh := if isFirst then some rest.length else r.fresh }
  return isFirst

/-- The text has ended, or a document has. -/
def atEnd : Read Bool := do
  let c ← cursor
  return c.chars.isEmpty || c.atMarker

def skipBlanks : Read Unit := do
  let c ← cursor
  moveTo (c.movedTo (c.chars.dropWhile (· == ' ')))

def endsToken : List Char → Bool
  | [] => true
  | c :: _ => c == ' ' || c == '\n' || c == '\t'

/-- A mark that is followed by a blank stands here. -/
def isMark (mark : Char) : List Char → Bool
  | c :: rest => c == mark && endsToken rest
  | [] => false

def isColon (flow : Bool) : List Char → Bool
  | ':' :: rest => endsToken rest || (flow && (rest.head?.map fun c => ",[]{}".contains c).getD false)
  | _ => false

end Workflow.Yaml
