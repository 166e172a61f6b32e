import Workflow.Value.Items

/-! Checks that go on after a problem, so that all problems of a record are found at once. Each
    problem names the path to what it is about. -/

namespace Workflow

/-- A problem of what stands at the end of a path. -/
structure PathProblem where
  path : List String
  message : String
  deriving DecidableEq, Inhabited

def PathProblem.line (p : PathProblem) : String := ".".intercalate p.path ++ ": " ++ p.message

/-- A checked value, or all problems found. -/
abbrev Checked (α : Type) := Except (List PathProblem) α

namespace Checked

variable {α β : Type}

def problem (message : String) : Checked α := .error [⟨[], message⟩]

def problems : Checked α → List PathProblem
  | .ok _ => []
  | .error ps => ps

/-- Puts a step in front of the paths of all problems. -/
def under (step : String) : Checked α → Checked α
  | .ok a => .ok a
  | .error ps => .error (ps.map fun p => { p with path := step :: p.path })

/-- Applies a checked function; the problems of both are kept, in order. -/
def apply : Checked (α → β) → Checked α → Checked β
  | .ok f, .ok a => .ok (f a)
  | f, a => .error (f.problems ++ a.problems)

/-- Gives a checked function its next argument. -/
def feed (a : Checked α) (f : Checked (α → β)) : Checked β := apply f a

/-- All values, or the problems of all. -/
def all : List (Checked α) → Checked (List α)
  | [] => .ok []
  | a :: as =>
    match a, all as with
    | .ok a, .ok as => .ok (a :: as)
    | a, as => .error (a.problems ++ as.problems)

/-! ### Single values -/

/-- The text that octets write in UTF-8. -/
def ofOctets? (bs : List UInt8) : Option String := String.fromUTF8? ⟨bs.toArray⟩

def text : Value → Checked String
  | .str s => .ok s
  | .bytes bs =>
    match ofOctets? bs with
    | some s => .ok s
    | none =>
      problem "Input should be a valid string, unable to parse raw data as a unicode string"
  | _ => problem "Input should be a valid string"

def filledText (v : Value) : Checked String := do
  let s ← text v
  if s.isEmpty then problem "String should have at least 1 character" else .ok s

def optional (check : Value → Checked α) : Value → Checked (Option α)
  | .null => .ok none
  | v => (check v).map some

/-- One of the given texts; `shown` lists them in the message. -/
def oneOf (choices : List (String × α)) (shown : String) (v : Value) : Checked α :=
  match v with
  | .str s =>
    match choices.lookup s with
    | some a => .ok a
    | none => problem s!"Input should be {shown}"
  | _ => problem s!"Input should be {shown}"

def trueWords : List String := ["1", "on", "t", "true", "y", "yes"]
def falseWords : List String := ["0", "off", "f", "false", "n", "no"]

/-- The truth value that a word stands for, in any case. -/
def word (s : String) : Checked Bool :=
  let s := String.ofList (s.toList.map Char.toLower)
  if trueWords.contains s then .ok true
  else if falseWords.contains s then .ok false
  else problem "Input should be a valid boolean, unable to interpret input"

/-- A truth value, or a number or word that stands for one. -/
def boolean : Value → Checked Bool
  | .bool b => .ok b
  | .int n =>
    if n = 0 then .ok false else if n = 1 then .ok true
    else problem "Input should be a valid boolean, unable to interpret input"
  | .float x =>
    if x == 0 then .ok false else if x == 1 then .ok true
    else problem "Input should be a valid boolean"
  | .str s => word s
  | .bytes bs =>
    match ofOctets? bs with
    | some s => word s
    | none => problem "Input should be a valid boolean, unable to interpret input"
  | _ => problem "Input should be a valid boolean"

/-! ### Containers -/

/-- The items of a list or tuple, each checked. -/
def list (check : Value → Checked α) : Value → Checked (List α)
  | .list vs | .tuple vs => all (vs.zipIdx.map fun (v, i) => under (toString i) (check v))
  | _ => problem "Input should be a valid list"

/-- The step of a path that a key makes; a truth value is shown as a number. -/
def stepOf : Value → String
  | .bool b => if b then "1" else "0"
  | k => k.text

/-- The entries of a mapping with texts as keys, each value checked. -/
def entries (check : Value → Checked α) : Value → Checked (List (String × α))
  | .mapping es => all (es.map fun (k, v) =>
      apply ((under (stepOf k) (under "[key]" (text k))).map fun s a => (s, a))
        (under (stepOf k) (check v)))
  | _ => problem "Input should be a valid dictionary"

/-- A member of a record: its name in documents, and the other name that it may be given by. -/
structure Member where
  name : String
  other : String

/-- The value of a member, by its name or else by its other name. -/
def Member.get? (m : Member) (es : List (Value × Value)) : Option Value :=
  Value.find? es (.str m.name) <|> Value.find? es (.str m.other)

/-- The key that a member takes its value from. -/
def Member.key (m : Member) (es : List (Value × Value)) : String :=
  if (Value.find? es (.str m.name)).isSome then m.name else m.other

/-- The checked value of a member, or what stands for one that is not given. -/
def Member.read (m : Member) (es : List (Value × Value)) (check : Value → Checked α)
    (absent : Checked α) : Checked α :=
  under m.name (match m.get? es with
    | some v => check v
    | none => absent)

def required : Checked α := problem "Field required"

/-- Refuses keys that are no texts, and, unless more are allowed, those that no member takes. -/
def extras (members : List Member) (open_ : Bool) (es : List (Value × Value)) : Checked Unit :=
  let used := members.map fun m => m.key es
  (all (es.map fun (k, _) =>
    match k with
    | .str s =>
      if open_ || used.contains s then .ok ()
      else under s (problem "Extra inputs are not permitted")
    | k => under (stepOf k) (problem "Keys should be strings"))).map fun _ => ()

/-- The entries of a record of the named type. -/
def record (type : String) (check : List (Value × Value) → Checked α) : Value → Checked α
  | .mapping es => check es
  | _ => problem s!"Input should be a valid dictionary or instance of {type}"

end Checked

end Workflow
