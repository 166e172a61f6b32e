import Workflow.Text.Quoted
import Workflow.Number.Text
import Workflow.Value.Basic

/-! The literal of a value, as messages show it, and its plain text. -/

namespace Workflow.Value

/-- The items in one text, separated by commas. -/
def commaList (xs : List String) : String := ", ".intercalate xs

/-- How the literal of an object begins. -/
def objectName (kind : String) : String :=
  if kind = namespaceKind then "namespace"
  else if isTimeKind kind then "datetime." ++ kind
  else kind

/-- An attribute is shown with its name; most of those of dates and times are known by their place. -/
def showsName (kind name : String) : Bool :=
  !isTimeKind kind || kind = spanKind || name = "tzinfo"

mutual

/-- The literal of a value: texts in quotes, a lone item of a tuple followed by a comma. -/
def literal : Value → String
  | .null => "None"
  | .undefined => "UNDEFINED"
  | .bool b => if b then "True" else "False"
  | .int n => toString n
  | .float x => Number.writeFloat x
  | .str s => Text.quoted s
  | .bytes bs => Text.quotedOctets bs
  | .list xs => "[" ++ commaList (literals xs) ++ "]"
  | .tuple [] => "()"
  | .tuple [x] => "(" ++ literal x ++ ",)"
  | .tuple xs => "(" ++ commaList (literals xs) ++ ")"
  | .mapping es => "\x7b" ++ commaList (entryLiterals es) ++ "\x7d"
  | .object k fs =>
    if k = clockKind && fs.isEmpty then objectName k ++ ".utc"
    else objectName k ++ "(" ++ commaList (fieldLiterals k fs) ++ ")"
  | .kind k => "<class '" ++ k.name ++ "'>"

def literals : List Value → List String
  | [] => []
  | x :: xs => literal x :: literals xs

def entryLiterals : List (Value × Value) → List String
  | [] => []
  | (k, v) :: es => (literal k ++ ": " ++ literal v) :: entryLiterals es

def fieldLiterals (kind : String) : List (String × Value) → List String
  | [] => []
  | (k, v) :: fs =>
    ((if showsName kind k then k ++ "=" else "") ++ literal v) :: fieldLiterals kind fs

end

/-- The plain text of a value: a text stands for itself, all else for its literal. -/
def text : Value → String
  | .str s => s
  | v => v.literal

def nameList (names : List String) : String := literal (.list (names.map .str))

end Workflow.Value
