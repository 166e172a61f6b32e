import Workflow.Yaml.Reading

/-! Plain scalars: where one begins and ends depends on whether it is part of a flow collection, and its
    line breaks fold into blanks. -/

namespace Workflow.Yaml

open Read

/-- A plain scalar can begin here. -/
def startsPlain (flow : Bool) : List Char → Bool
  | [] => false
  | c :: rest =>
    if "?:-".contains c then !endsToken rest && (c == '-' || !flow)
    else !(" \n\t,[]\x7b\x7d#&*!|>'\"%@".contains c || c.toNat == 96)

/-- The part of a plain scalar on this line. -/
def plainSpan (flow : Bool) : List Char → List Char
  | [] => []
  | c :: cs =>
    if c == '\n' || c == '\t' || isColon flow (c :: cs) then []
    else if c == ' ' then
      match cs.dropWhile (· == ' ') with
      | [] | '\n' :: _ | '#' :: _ => []
      | _ => c :: plainSpan flow cs
    else if flow && ",?[]\x7b\x7d".contains c then []
    else c :: plainSpan flow cs

def trimEnd (cs : List Char) : List Char := (cs.reverse.dropWhile (· == ' ')).reverse

/-- A plain scalar whose further lines are indented by at least `indent`, unless it is part of a flow
    collection; says whether it takes several lines. -/
def readPlain (flow : Bool) (indent : Nat) : (fuel : Nat) → (read : List Char) → (lines : Nat) →
    Read (String × Bool)
  | 0, _, _ => refuse
  | fuel + 1, read, lines => do
    let c ← cursor
    let span := plainSpan flow c.chars
    let after := c.advance span.length
    let text := read ++ trimEnd span
    let ended := (String.ofList text, decide (lines > 0))
    moveTo after
    match after.chars.dropWhile (· == ' ') with
    | '\n' :: _ =>
      let (n, rest) := countBreaks (after.chars.dropWhile (· == ' ')) 0
      let next := after.movedTo rest
      let more := !rest.isEmpty && !next.atMarker && (flow || indent ≤ next.column) &&
        rest.head? != some '#' && !(plainSpan flow rest).isEmpty
      if more then do
        moveTo next
        readPlain flow indent fuel (text ++ foldBreaks n) (lines + 1)
      else return ended
    | _ => return ended

end Workflow.Yaml
