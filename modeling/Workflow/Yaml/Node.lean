import Workflow.Yaml.Reading
import Workflow.Yaml.Tagged
import Workflow.Value.Items

/-! Nodes of a document: the properties before a node, the values that its text and its tag give, and
    mappings with the entries that their merge keys bring. -/

namespace Workflow.Yaml

open Read

/-- The anchor and the tag before a node. -/
structure Properties where
  anchor : Option String := none
  tag : Option String := none

def isNameChar (c : Char) : Bool := c.isAlphanum || c == '-' || c == '_'

/-- A name after a mark: an anchor's or an alias's. -/
def readName (flow : Bool) : Read String := do
  advance 1
  let c ← cursor
  let name := c.chars.takeWhile isNameChar
  let rest := c.chars.drop name.length
  require (!name.isEmpty)
  require (endsToken rest || (rest.head?.map fun d => "?:,]\x7d%@".contains d).getD flow)
  moveTo (c.advance name.length)
  return String.ofList name

/-- The short form of a tag that is written out. -/
def shortTag (tag : String) : String :=
  let cs := tag.toList
  let start := "!<tag:yaml.org,2002:".toList
  if start.isPrefixOf cs && cs.getLast? == some '>' then
    "!!" ++ String.ofList (cs.drop start.length).dropLast
  else tag

/-- A tag, up to the next blank or its closing bracket. -/
def readTag (flow : Bool) : Read String := do
  let c ← cursor
  let ends := fun (d : Char) =>
    d == ' ' || d == '\n' || d == '\t' || (flow && ",[]\x7b\x7d".contains d)
  let tag := match c.chars with
    | '!' :: '<' :: cs => ['!', '<'] ++ cs.takeWhile (· != '>') ++ ['>']
    | cs => cs.takeWhile fun d => !ends d
  moveTo (c.advance tag.length)
  return shortTag (String.ofList tag)

/-- Passes one property, if one stands here. -/
def readProperty (flow : Bool) (p : Properties) : Read (Option Properties) := do
  match ← head? with
  | some '&' =>
    require p.anchor.isNone
    return some { p with anchor := some (← readName flow) }
  | some '!' =>
    require p.tag.isNone
    return some { p with tag := some (← readTag flow) }
  | _ => return none

def readAlias (flow : Bool) : Read Value := do
  let name ← readName flow
  match (← get).anchors.lookup name with
  | some v => return v
  | none => refuse

/-- Gives an anchor its value; no anchor is given twice. -/
def define (p : Properties) (v : Value) : Read Value := do
  match p.anchor with
  | none => return v
  | some name =>
    require ((← get).anchors.lookup name).isNone
    modify fun r => { r with anchors := (name, v) :: r.anchors }
    return v

/-- The value of a scalar with its properties. A text that does not fit its tag is a fault of the whole
    text, found after everything that is wrong with its form. -/
def scalar (p : Properties) (plain : Bool) (s : String) : Read Value := do
  match scalarValue? p.tag plain s with
  | some (.ok v) => define p v
  | some (.error f) => do
    modify fun r => { r with fault := r.fault <|> some f }
    define p .null
  | none => refuse

def emptyNode (p : Properties) : Read Value := scalar p true ""

/-- A quoted text; says whether it takes several lines. -/
def readQuoted : Read (String × Bool) := do
  let c ← cursor
  let result := match c.chars with
    | '\'' :: cs => readSingle (cs.length + 1) cs []
    | '"' :: cs => readDouble (cs.length + 1) cs []
    | _ => none
  match result with
  | none => refuse
  | some (s, rest) =>
    moveTo (c.movedTo rest)
    return (s, (c.chars.take (c.chars.length - rest.length)).contains '\n')

/-! ### Collections -/

/-- A collection with its properties; only the tag of its own kind fits. -/
def collection (p : Properties) (v : Value) : Read Value := do
  let fits := match p.tag, v with
    | none, _ | some "!", _ => true
    | some t, .mapping _ => t == "!!map"
    | some t, _ => t == "!!seq"
  require fits
  define p v

/-- The entries that a merge key brings. -/
def mergedEntries : Value → Option (List (Value × Value))
  | .mapping es => some es
  | .list vs => vs.foldlM (fun acc v => match v with
      | .mapping es => some (Value.insertAll es acc)
      | _ => none) []
  | _ => none

/-- The mapping of the entries read; merged entries give way to those of the mapping itself. -/
def mapping (entries : List (Bool × Value × Value)) : Read Value := do
  let merges := (entries.filter (·.1)).map fun e => e.2.2
  let own := (entries.filter fun e => !e.1).map (·.2)
  require (own.all fun e => e.1.isKey)
  match merges.mapM mergedEntries with
  | none => refuse
  | some ess =>
    return .mapping (Value.insertAll (ess.foldl (fun acc es => Value.insertAll acc es) []) own)

/-- A key that merges what stands under it. -/
def isMergeKey (plain : Bool) (v : Value) : Bool := plain && v.equal (.str "<<")

end Workflow.Yaml
