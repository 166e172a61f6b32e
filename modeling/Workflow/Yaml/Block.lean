import Workflow.Yaml.Flow

/-! Block collections: the column of a node says to which collection it belongs. -/

namespace Workflow.Yaml

open Read

/-- A block text after its mark, inside a collection at the column `parent`. -/
def readBlockText (parent : Int) : Read String := do
  let c ← cursor
  let folded := c.chars.head? == some '>'
  let (chomp, given, rest) := readHeader (c.chars.drop 1) .clip none
  let line := rest.takeWhile (· != '\n')
  let comment := line.dropWhile (· == ' ')
  require (comment.isEmpty || (comment.head? == some '#' && line.head? == some ' '))
  let body := (rest.dropWhile (· != '\n')).drop 1
  let least := (parent + 1).toNat
  let least := if least = 0 then 1 else least
  let indent := match given with
    | some n => least + n - 1
    | none => max least (findIndent (body.length + 1) 0 body)
  let (ls, after) := blockLines indent (body.length + 1) body
  let closed := after.length < body.length &&
    (body.take (body.length - after.length)).getLast? == some '\n'
  moveTo (c.movedTo after)
  return blockText folded chomp ls closed

/-- The colon of a key stands next on this line. -/
def colonFollows : Read Bool := do
  let c ← cursor
  return isColon false (c.chars.dropWhile (· == ' '))

/-- A key on one line, with its colon after it. -/
def readKey (p : Properties) : Read (Bool × Value) := do
  let c ← cursor
  let k ← match c.chars with
    | '*' :: _ => do pure (false, ← readAlias false)
    | '\'' :: _ | '"' :: _ => do
      let (s, several) ← readQuoted
      require !several
      pure (false, ← scalar p false s)
    | cs => do
      if isColon false cs then pure (false, .null)
      else do
        require (startsPlain false cs)
        let (s, several) ← readPlain false (c.column + 1) (cs.length + 1) [] 0
        require !several
        let k ← scalar p true s
        pure (isMergeKey true k, k)
  require (← colonFollows)
  return k

mutual

/-- The node that stands after a key or a dash. `parent` is the column of the collection around it;
    `keys` says that a collection may begin on this line, `dash` that a sequence may begin in the
    column of the collection around it. Properties may have been passed on this line. -/
def readNode : (fuel : Nat) → (parent : Int) → (keys dash : Bool) → Properties → Read Value
  | 0, _, _, _, _ => refuse
  | fuel + 1, parent, keys, dash, p => do
    let crossed ← nextToken
    let keys := keys || crossed
    if ← atEnd then emptyNode p
    else
      let c ← cursor
      let column : Int := c.column
      let isDash := isMark '-' c.chars
      if crossed && !(parent < column || (dash && isDash && column == parent)) then emptyNode p
      else
        match ← readProperty false p with
        | some q => readMarked fuel parent keys dash c.column q
        | none => readBare fuel parent keys c.column p

/-- A node whose first property stood in the column `column`. Properties on the line of a key belong
    to the key, those on a line of their own to the node after them. -/
def readMarked : (fuel : Nat) → (parent : Int) → (keys dash : Bool) → (column : Nat) → Properties →
    Read Value
  | 0, _, _, _, _, _ => refuse
  | fuel + 1, parent, keys, dash, column, p => do
    require (endsToken (← cursor).chars)
    skipBlanks
    match ← head? with
    | none | some '\n' | some '#' => readNode fuel parent keys dash p
    | _ =>
      match ← readProperty false p with
      | some q => readMarked fuel parent keys dash column q
      | none => readBare fuel parent keys column p

/-- A node whose properties have been passed. -/
def readBare : (fuel : Nat) → (parent : Int) → (keys : Bool) → (column : Nat) → Properties → Read Value
  | 0, _, _, _, _ => refuse
  | fuel + 1, parent, keys, column, p => do
    let c ← cursor
    match c.chars with
    | '[' :: _ | '\x7b' :: _ => do
      let (_, v) ← readFlow fuel p
      require !(← colonFollows)
      return v
    | '|' :: _ | '>' :: _ => scalar p false (← readBlockText parent)
    | '*' :: _ => do
      let v ← readAlias false
      if ← colonFollows then do
        require keys
        readEntries fuel column [] (some (false, v))
      else return v
    | '\'' :: _ | '"' :: _ => do
      let (s, several) ← readQuoted
      if ← colonFollows then do
        require (keys && !several)
        let k ← scalar p false s
        readEntries fuel column [] (some (false, k))
      else scalar p false s
    | cs =>
      if isMark '-' cs then do
        require keys
        collection p (.list (← readItems fuel column []))
      else if isMark '?' cs then do
        require keys
        collection p (← readEntries fuel column [] none)
      else if startsPlain false cs then do
        let (s, several) ← readPlain false (parent + 1).toNat (cs.length + 1) [] 0
        if ← colonFollows then do
          require (keys && !several)
          let k ← scalar p true s
          readEntries fuel column [] (some (isMergeKey true k, k))
        else scalar p true s
      else if isColon false cs then do
        require keys
        readEntries fuel column [] (some (false, .null))
      else refuse

/-- The items of a block sequence in a column, from the dash that stands here. -/
def readItems : (fuel : Nat) → (column : Nat) → List Value → Read (List Value)
  | 0, _, _ => refuse
  | fuel + 1, column, read => do
    advance 1
    let v ← readNode fuel column true false {}
    let crossed ← nextToken
    let c ← cursor
    if ← atEnd then return (v :: read).reverse
    else do
      require crossed
      if c.column == column && isMark '-' c.chars then readItems fuel column (v :: read)
      else do
        require (c.column ≤ column)
        return (v :: read).reverse

/-- The entries of a block mapping in a column, from the given key, whose colon stands next, or from
    the key that stands here. -/
def readEntries : (fuel : Nat) → (column : Nat) → List (Bool × Value × Value) →
    Option (Bool × Value) → Read Value
  | 0, _, _, _ => refuse
  | fuel + 1, column, read, some (merges, k) => do
    skipBlanks
    advance 1
    let v ← readNode fuel column false true {}
    let read := (merges, k, v) :: read
    let crossed ← nextToken
    let c ← cursor
    if ← atEnd then mapping read.reverse
    else do
      require crossed
      if c.column == column then readEntries fuel column read none
      else do
        require (c.column < column)
        mapping read.reverse
  | fuel + 1, column, read, none => do
    let c ← cursor
    if isMark '?' c.chars then do
      advance 1
      let k ← readNode fuel column true false {}
      let _ ← nextToken
      let c ← cursor
      if c.column == column && isColon false c.chars then
        readEntries fuel column read (some (false, k))
      else do
        let read := (false, k, .null) :: read
        if c.column == column && !(← atEnd) then readEntries fuel column read none
        else do
          require (c.column < column || (← atEnd))
          mapping read.reverse
    else
    match ← readProperty false {} with
    | some p => do
      skipBlanks
      let k ← readKey p
      readEntries fuel column read (some k)
    | none => do
      let k ← readKey {}
      readEntries fuel column read (some k)

end

end Workflow.Yaml
