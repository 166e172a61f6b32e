import Workflow.Value.Items
import Workflow.Text.Blank
import Workflow.Text.Case

/-! The kinds of external capabilities, and the flags that say which of them a node may use. -/

namespace Workflow

inductive CapabilityKind where
  | model | a2a | mcp | skill
  deriving DecidableEq, Inhabited

namespace CapabilityKind

def name : CapabilityKind → String
  | .model => "model"
  | .a2a => "a2a"
  | .mcp => "mcp"
  | .skill => "skill"

def all : List CapabilityKind := [.model, .a2a, .mcp, .skill]

/-- The kind of a name, whatever its case and the blanks around it. -/
def parse (v : Value) : Except Fault CapabilityKind :=
  let key := Text.lower (Text.strip v.text)
  let key := if key = "skills" then "skill" else key
  match all.find? fun k => k.name == key with
  | some k => .ok k
  | none => .error (.notMember (.str key) "CapabilityKind")

/-- The kinds that can serve a tool, in the order in which they are asked. -/
def toolOrder : List CapabilityKind := [.mcp, .a2a, .skill]

end CapabilityKind

structure CapabilityFlags where
  model : Bool := true
  a2a : Bool := false
  mcp : Bool := false
  skills : Bool := false
  deriving DecidableEq, Inhabited

namespace CapabilityFlags

def allows (f : CapabilityFlags) : CapabilityKind → Bool
  | .model => f.model
  | .a2a => f.a2a
  | .mcp => f.mcp
  | .skill => f.skills

def flagNames : List String := ["model", "a2a", "mcp", "skills", "skill"]

/-- The flags that a mapping sets; all others keep their defaults. Whatever else counts as true fails
    in the check of its names, or for want of entries. -/
def ofValue (v : Value) : Except Fault CapabilityFlags :=
  if !v.truthy then .ok {}
  else do
    let given ← v.items
    given.forM Value.checkKey
    let unknown := (given.map Value.text).eraseDups.filter fun n => !flagNames.contains n
    match unknown.isEmpty, v with
    | true, .mapping _ =>
      let flag := fun (name : String) (default : Bool) => ((v.get? name).map Value.truthy).getD default
      return { model := flag "model" true, a2a := flag "a2a" false, mcp := flag "mcp" false
               skills := flag "skills" (flag "skill" false) }
    | true, v => .error (.noAttribute v "get")
    | false, _ =>
      .error (.value
        s!"Unknown capability flags: {Value.nameList (unknown.mergeSort fun a b => a ≤ b)}")

/-- The allowed kinds that can serve a tool, in the order in which they are asked. -/
def toolKinds (f : CapabilityFlags) : List CapabilityKind := CapabilityKind.toolOrder.filter f.allows

def describe (f : CapabilityFlags) : Value :=
  .ofFields [("model", .bool f.model), ("a2a", .bool f.a2a), ("mcp", .bool f.mcp),
    ("skills", .bool f.skills)]

end CapabilityFlags

end Workflow
