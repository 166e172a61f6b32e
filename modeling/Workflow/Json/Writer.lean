import Workflow.Text.Quoted

/-! JSON text in ASCII: texts with escapes for all other characters, and objects whose members stand in
    the order of their names. -/

namespace Workflow.Json

/-- The escape of a code unit of sixteen bits. -/
def unitEscape (n : Nat) : String := "\\u" ++ String.ofList (Text.hexDigits 4 n)

/-- A character as it stands between quotes. Characters beyond sixteen bits are two escapes. -/
def escape (c : Char) : String :=
  let n := c.toNat
  if c = '"' then "\\\""
  else if c = '\\' then "\\\\"
  else if c = '\n' then "\\n"
  else if 32 ≤ n ∧ n ≤ 126 then String.singleton c
  else if n < 0x10000 then unitEscape n
  else unitEscape (0xD800 + (n - 0x10000) / 0x400) ++ unitEscape (0xDC00 + (n - 0x10000) % 0x400)

def quote (s : String) : String := "\"" ++ String.join (s.toList.map escape) ++ "\""

def array (items : List String) : String := "[" ++ ", ".intercalate items ++ "]"

/-- An object of names and written values. -/
def object (members : List (String × String)) : String :=
  let ordered := members.mergeSort fun a b => decide (a.1 ≤ b.1)
  "\x7b" ++ ", ".intercalate (ordered.map fun (n, v) => quote n ++ ": " ++ v) ++ "\x7d"

end Workflow.Json
