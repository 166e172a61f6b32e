import Workflow.Document.Basic
import Workflow.Json.Reader
import Workflow.Yaml.Document

/-! Documents from values and from texts. A text is read as JSON, and if it is none, as YAML. -/

namespace Workflow.Document

def refuse {α : Type} (problems : List String) : Except Fault α :=
  .error (.failure (.compilation problems))

def readText (s : String) : Except Fault Value :=
  match Json.read s with
  | .ok v => .ok v
  | .error (.plain .json _) =>
    match Yaml.read? s with
    | some v => v
    | none => refuse ["Invalid YAML document"]
  | .error f => .error f

/-- The document in a value or in a text. -/
def load (v : Value) : Except Fault Document := do
  let data ← match v with
    | .str s => readText s
    | v => .ok v
  match data with
  | .mapping es =>
    match ofEntries es with
    | .ok d => return d
    | .error ps => refuse (ps.map PathProblem.line)
  | v => refuse [s!"Workflow document must be a mapping, got {v.kindName}"]

end Workflow.Document
