import Workflow.Yaml.Plain
import Workflow.Yaml.Node

/-! Flow collections: sequences and mappings between brackets, over any number of lines. -/

namespace Workflow.Yaml

open Read

/-- Passes the mark of a key inside a flow collection, if it stands here. -/
def passQuestion : Read Bool := do
  if (← head?) == some '?' then do
    advance 1
    return true
  else return false

/-- No line has ended since a place. -/
def onOneLine (before : Cursor) : Read Bool := do
  let c ← cursor
  return !(before.chars.take (before.chars.length - c.chars.length)).contains '\n'

mutual

/-- A node inside a flow collection, with a mark of a key that merges. -/
def readFlow : (fuel : Nat) → Properties → Read (Bool × Value)
  | 0, _ => refuse
  | fuel + 1, p => do
    let _ ← nextToken
    match ← readProperty true p with
    | some p => readFlow fuel p
    | none =>
      let c ← cursor
      match c.chars with
      | '*' :: _ => return (false, ← readAlias true)
      | '[' :: _ => do
        advance 1
        let vs ← readFlowItems fuel []
        return (false, ← collection p (.list vs))
      | '\x7b' :: _ => do
        advance 1
        let es ← readFlowEntries fuel []
        return (false, ← collection p (← mapping es))
      | '\'' :: _ | '"' :: _ => do
        let (s, _) ← readQuoted
        return (false, ← scalar p false s)
      | cs =>
        if startsPlain true cs then do
          let (s, _) ← readPlain true 0 (cs.length + 1) [] 0
          let v ← scalar p true s
          return (isMergeKey true v, v)
        else return (false, ← emptyNode p)

/-- The items of a flow sequence up to its end. -/
def readFlowItems : (fuel : Nat) → List Value → Read (List Value)
  | 0, _ => refuse
  | fuel + 1, read => do
    let _ ← nextToken
    match ← head? with
    | some ']' => advance 1; return read.reverse
    | some ',' | some ':' | none => refuse
    | _ =>
      let isKey ← passQuestion
      let before ← cursor
      let (merges, v) ← readFlow fuel {}
      let _ ← nextToken
      let item ← if (← head?) == some ':' then do
          require (isKey || (← onOneLine before))
          advance 1
          let (_, w) ← readFlow fuel {}
          mapping [(merges, v, w)]
        else if isKey then mapping [(merges, v, .null)]
        else pure v
      let _ ← nextToken
      match ← head? with
      | some ',' => advance 1; readFlowItems fuel (item :: read)
      | some ']' => advance 1; return (item :: read).reverse
      | _ => refuse

/-- The entries of a flow mapping up to its end. -/
def readFlowEntries : (fuel : Nat) → List (Bool × Value × Value) → Read (List (Bool × Value × Value))
  | 0, _ => refuse
  | fuel + 1, read => do
    let _ ← nextToken
    match ← head? with
    | some '\x7d' => advance 1; return read.reverse
    | some ',' | some ':' | none => refuse
    | _ =>
      let isKey ← passQuestion
      let before ← cursor
      let (merges, k) ← readFlow fuel {}
      let _ ← nextToken
      let v ← if (← head?) == some ':' then do
          require (isKey || (← onOneLine before))
          advance 1
          let (_, w) ← readFlow fuel {}
          pure w
        else pure .null
      let _ ← nextToken
      match ← head? with
      | some ',' => advance 1; readFlowEntries fuel ((merges, k, v) :: read)
      | some '\x7d' => advance 1; return ((merges, k, v) :: read).reverse
      | _ => refuse

end

end Workflow.Yaml
