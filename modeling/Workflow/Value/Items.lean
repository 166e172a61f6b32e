import Workflow.Fault

/-! The items of a value, one by one. -/

namespace Workflow.Value

/-- The items of a value: those of a list or tuple, the characters of a text, the keys of a mapping,
    the numbers of octets. -/
def items? : Value → Option (List Value)
  | .list xs | .tuple xs => some xs
  | .str s => some (s.toList.map fun c => .str (String.singleton c))
  | .mapping es => some (es.map (·.1))
  | .bytes bs => some (bs.map fun b => .int b.toNat)
  | _ => none

def items (v : Value) : Except Fault (List Value) :=
  match v.items? with
  | some xs => .ok xs
  | none => .error (.notIterable v)

def size? (v : Value) : Option Nat := v.items?.map List.length

def size (v : Value) : Except Fault Nat :=
  match v.size? with
  | some n => .ok n
  | none => .error (.type s!"object of type '{v.fullKindName}' has no len()")

mutual

/-- The part that keeps a value from being a key: a list, a mapping or a plain object, by itself or in a
    tuple. -/
def loosePart? : Value → Option Value
  | .list xs => some (.list xs)
  | .mapping es => some (.mapping es)
  | .object k fs => if k = namespaceKind then some (.object k fs) else none
  | .tuple xs => loosePartOf? xs
  | _ => none
termination_by structural v => v

def loosePartOf? : List Value → Option Value
  | [] => none
  | x :: xs => (loosePart? x) <|> loosePartOf? xs
termination_by structural xs => xs

end

def isKey (v : Value) : Bool := (loosePart? v).isNone

/-- Refuses a value that cannot be a key. -/
def checkKey (v : Value) : Except Fault Unit :=
  match loosePart? v with
  | some part => .error (.type s!"unhashable type: '{part.fullKindName}'")
  | none => .ok ()

/-- Reads a sequence of pairs, counting from `i`, as entries. -/
def pairs (i : Nat) (acc : List (Value × Value)) : List Value → Except Fault (List (Value × Value))
  | [] => .ok acc
  | x :: xs =>
    match x.items? with
    | none => .error (.type s!"cannot convert dictionary update sequence element #{i} to a sequence")
    | some [k, v] => do
      checkKey k
      pairs (i + 1) (insert k v acc) xs
    | some ys =>
      .error (.value
        s!"dictionary update sequence element #{i} has length {ys.length}; 2 is required")

/-- The entries of a mapping, or of a sequence of pairs. -/
def toEntries : Value → Except Fault (List (Value × Value))
  | .mapping es => .ok es
  | v => do pairs 0 [] (← v.items)

end Workflow.Value
