import Workflow.Failure

/-! Faults: whatever an operation, node logic, a condition or a provider can raise that a caller is to
    catch; what ends the process is none. A fault is a failure of a workflow or a plain trouble with a
    message. -/

namespace Workflow

inductive Trouble where
  | value
  /-- A value of a kind that does not fit. -/
  | type
  | key
  | index
  | lookup
  | attribute
  | runtime
  | overflow
  /-- What was taken for granted does not hold. -/
  | assertion
  /-- A partial update that does not fit its schema; a special case of `value`. -/
  | update
  /-- A text that is no JSON; a special case of `value`. -/
  | json
  /-- Octets that are no text; a special case of `value`. -/
  | unicode
  | validation
  /-- Any other, of which only the name matters. -/
  | other (name : String)
  deriving DecidableEq, Inhabited

namespace Trouble

def name : Trouble → String
  | .value => "ValueError"
  | .type => "TypeError"
  | .key => "KeyError"
  | .index => "IndexError"
  | .lookup => "LookupError"
  | .attribute => "AttributeError"
  | .runtime => "RuntimeError"
  | .overflow => "OverflowError"
  | .assertion => "AssertionError"
  | .update => "InvalidUpdateError"
  | .json => "JSONDecodeError"
  | .unicode => "UnicodeDecodeError"
  | .validation => "ValidationError"
  | .other name => name

/-- A value that does not fit, for whatever reason. -/
def isValue : Trouble → Bool
  | .value | .update | .json | .unicode => true
  | _ => false

end Trouble

inductive Fault where
  | plain (trouble : Trouble) (message : String)
  | failure (f : Failure)
  deriving Inhabited

namespace Fault

def name : Fault → String
  | .plain t _ => t.name
  | .failure f => f.kind.name

def message : Fault → String
  | .plain _ m => m
  | .failure f => f.message

/-- The kind and the message in one line. -/
def line (f : Fault) : String := s!"{f.name}: {f.message}"

def value (message : String) : Fault := .plain .value message
def type (message : String) : Fault := .plain .type message

def key (k : Value) : Fault := .plain .key k.literal

/-- A value that has no items was asked for them. -/
def notIterable (v : Value) : Fault := .type s!"'{v.fullKindName}' object is not iterable"

/-- An attribute that the object does not have. -/
def noAttribute (v : Value) (name : String) : Fault :=
  .plain .attribute s!"'{v.fullKindName}' object has no attribute '{name}'"

/-- A name that is none of an enumeration. -/
def notMember (v : Value) (enumeration : String) : Fault :=
  .value s!"{v.literal} is not a valid {enumeration}"

end Fault

end Workflow
