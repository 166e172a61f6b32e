/-! Values of state fields, prompts and arguments. A value is plain data, or an object of which only
    the kind and the attributes are known; it can be copied and shown in a text. Mappings keep their keys
    in the order of first insertion. -/

namespace Workflow

/-- The kinds of values that a field can be declared with. -/
inductive ValueKind where
  | int | float | str | bool | list | tuple | mapping | bytes | range | object | null
  deriving DecidableEq, Inhabited

def ValueKind.name : ValueKind → String
  | .int => "int"
  | .float => "float"
  | .str => "str"
  | .bool => "bool"
  | .list => "list"
  | .tuple => "tuple"
  | .mapping => "dict"
  | .bytes => "bytes"
  | .range => "range"
  | .object => "object"
  | .null => "NoneType"

def ValueKind.all : List ValueKind :=
  [.int, .float, .str, .bool, .list, .tuple, .mapping, .bytes, .range, .object, .null]

def ValueKind.ofName? (name : String) : Option ValueKind :=
  ValueKind.all.find? fun k => k.name == name

inductive Value where
  /-- The explicit absence of a value. -/
  | null
  /-- No value supplied; distinct from `null`. -/
  | undefined
  | bool (b : Bool)
  | int (n : Int)
  | float (x : Float)
  | str (s : String)
  | bytes (bs : List UInt8)
  | list (xs : List Value)
  | tuple (xs : List Value)
  /-- A mapping; no two keys are equal. -/
  | mapping (entries : List (Value × Value))
  /-- An object of the named kind with named attributes; it is no mapping. -/
  | object (kind : String) (fields : List (String × Value))
  | kind (k : ValueKind)
  deriving Inhabited

/-- Named values in order: a state, a partial update, the details of a failure. -/
abbrev Fields := List (String × Value)

namespace Value

/-- The kind of a plain object with attributes. -/
def namespaceKind : String := "SimpleNamespace"

/-- The kinds of dates, of dates with a time, of clocks and of spans of time. -/
def dateKind : String := "date"
def momentKind : String := "datetime"
def clockKind : String := "timezone"
def spanKind : String := "timedelta"

def isTimeKind (kind : String) : Bool := [dateKind, momentKind, clockKind, spanKind].contains kind

def kindName : Value → String
  | .null => "NoneType"
  | .undefined => "_Undefined"
  | .bool _ => "bool"
  | .int _ => "int"
  | .float _ => "float"
  | .str _ => "str"
  | .bytes _ => "bytes"
  | .list _ => "list"
  | .tuple _ => "tuple"
  | .mapping _ => "dict"
  | .object k _ => k
  | .kind _ => "type"

/-- The name of the kind of a value, with the group that plain objects, dates and times belong to. -/
def fullKindName (v : Value) : String :=
  let name := v.kindName
  if name = namespaceKind then "types." ++ name
  else if isTimeKind name then "datetime." ++ name
  else name

/-- What counts as true: all but the absent values, zero, and what is empty. -/
def truthy : Value → Bool
  | .null | .undefined => false
  | .bool b => b
  | .int n => n ≠ 0
  | .float x => !(x == 0)
  | .str s => !s.isEmpty
  | .bytes bs => !bs.isEmpty
  | .list xs | .tuple xs => !xs.isEmpty
  | .mapping es => !es.isEmpty
  | .object _ _ | .kind _ => true

def isNull : Value → Bool
  | .null => true
  | _ => false

/-- The text that a value is; `none` for other kinds. -/
def str? : Value → Option String
  | .str s => some s
  | _ => none

/-- The mapping with the given names as keys. -/
def ofFields (fs : Fields) : Value := .mapping (fs.map fun (k, v) => (.str k, v))

end Value

/-- A value of the kind, where truth values count as integers too. -/
def ValueKind.accepts (k : ValueKind) (v : Value) : Bool :=
  match k, v with
  | .object, _ => true
  | .int, .int _ | .int, .bool _ | .float, .float _ | .str, .str _ | .bool, .bool _
  | .list, .list _ | .tuple, .tuple _ | .mapping, .mapping _ | .bytes, .bytes _ | .null, .null => true
  | _, _ => false

/-! ### Named values -/

namespace Fields

def get? (fs : Fields) (name : String) : Option Value := fs.lookup name

/-- The value under a name, `null` if there is none. -/
def getD (fs : Fields) (name : String) : Value := (fs.get? name).getD .null

/-- Sets the value under a name, in its place if the name is there and else at the end. -/
def set : Fields → String → Value → Fields
  | [], name, v => [(name, v)]
  | (n, w) :: fs, name, v => if n = name then (n, v) :: fs else (n, w) :: set fs name v

def names (fs : Fields) : List String := fs.map (·.1)

def has (fs : Fields) (name : String) : Bool := fs.any (·.1 == name)

def erase (fs : Fields) (name : String) : Fields := fs.filter (·.1 != name)

/-- Sets the fields of `gs` one after another. -/
def setAll (fs gs : Fields) : Fields := gs.foldl (fun acc (n, v) => acc.set n v) fs

theorem get?_set_self (fs : Fields) (name : String) (v : Value) :
    (fs.set name v).get? name = some v := by
  induction fs with
  | nil => simp [set, get?]
  | cons f fs ih =>
    obtain ⟨n, w⟩ := f
    by_cases h : n = name
    · simp [set, get?, h]
    · have hn : (name == n) = false := by simpa using fun e => h e.symm
      simp only [get?] at ih
      simp [set, get?, h, List.lookup_cons, hn, ih]

theorem get?_set_of_ne (fs : Fields) {name other : String} (v : Value) (h : other ≠ name) :
    (fs.set name v).get? other = fs.get? other := by
  have ho : (other == name) = false := beq_eq_false_iff_ne.2 h
  induction fs with
  | nil => simp [set, get?, List.lookup_cons, ho]
  | cons f fs ih =>
    obtain ⟨n, w⟩ := f
    simp only [get?] at ih
    by_cases hn : n = name
    · subst hn
      simp [set, get?, List.lookup_cons, ho]
    · simp only [set, hn, if_false, get?, List.lookup_cons]
      cases other == n <;> simp [ih]

/-- A name that is there keeps its place. -/
theorem names_set_of_mem {fs : Fields} {name : String} (v : Value) (h : name ∈ fs.names) :
    (fs.set name v).names = fs.names := by
  induction fs with
  | nil => simp [names] at h
  | cons f fs ih =>
    obtain ⟨n, w⟩ := f
    by_cases hn : n = name
    · simp [set, names, hn]
    · have hm : name ∈ names fs := by
        simp only [names, List.map_cons, List.mem_cons] at h
        rcases h with h | h
        · exact absurd h.symm hn
        · exact h
      simpa [set, names, hn] using ih hm

end Fields

end Workflow
