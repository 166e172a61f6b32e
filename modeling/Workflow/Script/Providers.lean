import Workflow.Capability.Dispatch
import Workflow.Script.Reducers

/-! Providers of scripts: named functions behind a table of tools, a single function, or an object. -/

namespace Workflow.Script

/-- The functions that providers are made of. -/
inductive ProviderFunction where
  | echo | add | upper | fail | capabilityFail | keyFail | nothing | tamper | count
  deriving DecidableEq, Inhabited

namespace ProviderFunction

def ofName : String → ProviderFunction
  | "add" => .add
  | "upper" => .upper
  | "fail" => .fail
  | "capfail" => .capabilityFail
  | "keyfail" => .keyFail
  | "none" => .nothing
  | "tamper" => .tamper
  | "count" => .count
  | _ => .echo

/-- The answer to a call, where `earlier` tells how often the provider has counted before. -/
def answer (f : ProviderFunction) (earlier : Nat) (c : Call) : Except Fault Value :=
  let arguments := Value.mapping c.arguments
  match f with
  | .echo => .ok (.ofFields [("name", .str c.name), ("arguments", arguments)])
  | .add =>
    match arguments.get? "a", arguments.get? "b" with
    | some a, some b =>
      if isPlainNumber a && isPlainNumber b then a.add b else .error (.type "add needs a and b")
    | _, _ => .error (.type "add needs a and b")
  | .upper =>
    match arguments.get? "text" with
    | some (.str s) => .ok (.str (Text.upper s))
    | some v => .error (.noAttribute v "upper")
    | .none => .error (.key (.str "text"))
  | .fail => .error (.plain .runtime s!"{c.name} failed")
  | .capabilityFail =>
    .error (.failure (.capability "quota" (.str "custom") (.str s!"cap:{c.name}")))
  | .keyFail => .error (.key (.str c.name))
  | .nothing => .ok .null
  | .tamper =>
    match arguments.item (.str "payload") with
    | .ok (.mapping _) => .ok (.str "ok")
    | .ok (.list _) => .error (.type "list indices must be integers or slices, not str")
    | .ok v => .error (.type s!"'{v.fullKindName}' object does not support item assignment")
    | .error f => .error f
  | .count => .ok (.int (earlier + 1))

end ProviderFunction

inductive ProviderSpec where
  | table (tools : List (String × ProviderFunction))
  /-- One function; it serves the given names, or all. -/
  | single (f : ProviderFunction) (names : Option (List String))
  deriving Inhabited

namespace ProviderSpec

/-- The function that a name is served by. -/
def function? : ProviderSpec → String → Option ProviderFunction
  | .table tools, name => tools.lookup name
  | .single f _, _ => some f

def supports : ProviderSpec → String → Bool
  | .table tools, name => (tools.lookup name).isSome
  | .single _ names, name => (names.map fun ns => ns.contains name).getD true

def toolNames : ProviderSpec → List String
  | .table tools => tools.map (·.1)
  | .single _ _ => []

def provider (spec : ProviderSpec) (mark : Nat) : Provider :=
  { mark
    supports := spec.supports
    answer := fun earlier c =>
      match spec.function? c.name with
      | some f =>
        f.answer (earlier.countP fun e => spec.function? e.name == some .count) c
      | none =>
        .error (.plain .lookup
          s!"Unknown capability '{c.name}'. Available: {Value.nameList spec.toolNames}") }

end ProviderSpec

end Workflow.Script
