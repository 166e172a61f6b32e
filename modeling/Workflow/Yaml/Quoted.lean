import Workflow.Json.Reader

/-! Quoted and block scalars of YAML: line breaks inside a quoted text fold into blanks, those of a
    block text are kept or folded as its header says. -/

namespace Workflow.Yaml

/-- A place in a text: what is left to read, and the column of its first character. -/
structure Cursor where
  chars : List Char
  column : Nat
  deriving Inhabited

namespace Cursor

/-- The place after the first `n` characters. -/
def advance : (n : Nat) → Cursor → Cursor
  | 0, c => c
  | n + 1, ⟨'\n' :: cs, _⟩ => advance n ⟨cs, 0⟩
  | n + 1, ⟨_ :: cs, column⟩ => advance n ⟨cs, column + 1⟩
  | _, ⟨[], column⟩ => ⟨[], column⟩

/-- The place where `rest`, a tail of what is left, begins. -/
def movedTo (c : Cursor) (rest : List Char) : Cursor := c.advance (c.chars.length - rest.length)

/-- A document marker stands here, at the beginning of a line. -/
def atMarker (c : Cursor) : Bool :=
  c.column == 0 &&
    match c.chars with
    | '-' :: '-' :: '-' :: rest | '.' :: '.' :: '.' :: rest =>
      match rest with
      | [] => true
      | d :: _ => d == ' ' || d == '\n'
    | _ => false

end Cursor

def isGap (c : Char) : Bool := c == ' ' || c == '\t'

/-- What `n` line breaks in a folded text stand for. -/
def foldBreaks (n : Nat) : List Char := if n ≤ 1 then [' '] else List.replicate (n - 1) '\n'

/-- Counts the line breaks of a run of blank lines, and finds the text after it. -/
def countBreaks : List Char → Nat → Nat × List Char
  | '\n' :: cs, n => countBreaks cs (n + 1)
  | c :: cs, n =>
    if isGap c then
      match cs.dropWhile isGap with
      | [] => (n, [])
      | '\n' :: _ => countBreaks cs n
      | rest => (n, rest)
    else (n, c :: cs)
  | [], n => (n, [])

/-- A text in single quotes, up to its end; a quote inside is written twice. -/
def readSingle : (fuel : Nat) → List Char → (read : List Char) → Option (String × List Char)
  | 0, _, _ => none
  | fuel + 1, cs, read =>
    match cs with
    | [] => none
    | '\'' :: '\'' :: rest => readSingle fuel rest ('\'' :: read)
    | '\'' :: rest => some (String.ofList read.reverse, rest)
    | '\n' :: _ =>
      let (n, rest) := countBreaks cs 0
      if Cursor.atMarker ⟨rest, 0⟩ then none
      else readSingle fuel rest ((foldBreaks n).reverse ++ read.dropWhile isGap)
    | c :: rest => readSingle fuel rest (c :: read)

/-- The character of a one-letter escape. -/
def escape? : Char → Option Char
  | '0' => some '\x00'
  | 'a' => some '\x07'
  | 'b' => some '\x08'
  | 't' | '\t' => some '\t'
  | 'n' => some '\n'
  | 'v' => some '\x0b'
  | 'f' => some '\x0c'
  | 'r' => some '\r'
  | 'e' => some '\x1b'
  | ' ' => some ' '
  | '"' => some '"'
  | '/' => some '/'
  | '\\' => some '\\'
  | 'N' => some '\u0085'
  | '_' => some '\u00a0'
  | 'L' => some '\u2028'
  | 'P' => some '\u2029'
  | _ => none

/-- How many digits an escape by code has. -/
def escapeWidth? : Char → Option Nat
  | 'x' => some 2
  | 'u' => some 4
  | 'U' => some 8
  | _ => none

/-- A text in double quotes, up to its end. -/
def readDouble : (fuel : Nat) → List Char → (read : List Char) → Option (String × List Char)
  | 0, _, _ => none
  | fuel + 1, cs, read =>
    match cs with
    | [] => none
    | '"' :: rest => some (String.ofList read.reverse, rest)
    | '\\' :: '\n' :: rest => readDouble fuel (rest.dropWhile isGap) read
    | '\\' :: c :: rest =>
      match escape? c, escapeWidth? c with
      | some d, _ => readDouble fuel rest (d :: read)
      | none, some w =>
        let ds := rest.take w
        if ds.length = w ∧ ds.all fun d => (Json.hexValue? d).isSome then
          let n := ds.foldl (fun n d => 16 * n + (Json.hexValue? d).getD 0) 0
          readDouble fuel (rest.drop w) (Json.unitChar n :: read)
        else none
      | none, none => none
    | '\n' :: _ =>
      let (n, rest) := countBreaks cs 0
      if Cursor.atMarker ⟨rest, 0⟩ then none
      else readDouble fuel rest ((foldBreaks n).reverse ++ read.dropWhile isGap)
    | c :: rest => readDouble fuel rest (c :: read)

/-! ### Block texts -/

/-- What a block text does with the line breaks at its end. -/
inductive Chomp where
  | strip | clip | keep
  deriving DecidableEq

/-- The header of a block text after its mark: chomping and an indentation, in either order. -/
def readHeader : List Char → Chomp → Option Nat → Chomp × Option Nat × List Char
  | '+' :: cs, _, n => readHeader cs .keep n
  | '-' :: cs, _, n => readHeader cs .strip n
  | c :: cs, chomp, n =>
    if '1' ≤ c && c ≤ '9' then readHeader cs chomp (some (c.toNat - 48)) else (chomp, n, c :: cs)
  | [], chomp, n => (chomp, n, [])

/-- The first line and what follows its break. -/
def splitLine (cs : List Char) : List Char × List Char :=
  (cs.takeWhile (· != '\n'), (cs.dropWhile (· != '\n')).drop 1)

def indentOf (line : List Char) : Nat := (line.takeWhile (· == ' ')).length

/-- The lines that belong to a block text of the given indentation, and the rest. -/
def blockLines (indent : Nat) : (fuel : Nat) → List Char → List (List Char) × List Char
  | 0, cs => ([], cs)
  | fuel + 1, cs =>
    if cs.isEmpty then ([], [])
    else
      let (line, rest) := splitLine cs
      if line.all (· == ' ') && line.length < indent then
        let (ls, r) := blockLines indent fuel rest
        ([] :: ls, r)
      else if indent ≤ indentOf line then
        let (ls, r) := blockLines indent fuel rest
        (line.drop indent :: ls, r)
      else ([], cs)

/-- The indentation of the first line that is not blank, or the widest of the blank ones. -/
def findIndent : (fuel widest : Nat) → List Char → Nat
  | 0, widest, _ => widest
  | fuel + 1, widest, cs =>
    if cs.isEmpty then widest
    else
      let (line, rest) := splitLine cs
      if line.all (· == ' ') then findIndent fuel (max widest line.length) rest else indentOf line

/-- The lines put together: breaks between lines that begin with text fold into blanks. -/
def foldLines : (previous : Option (List Char)) → (blank : Nat) → List (List Char) → List Char
  | _, _, [] => []
  | none, blank, l :: ls =>
    if l.isEmpty then foldLines none (blank + 1) ls
    else List.replicate blank '\n' ++ l ++ foldLines (some l) 0 ls
  | some p, blank, l :: ls =>
    if l.isEmpty then foldLines (some p) (blank + 1) ls
    else
      let spaced := fun (x : List Char) => (x.head?.map isGap).getD false
      let gap :=
        if spaced p || spaced l then List.replicate (blank + 1) '\n'
        else if blank = 0 then [' '] else List.replicate blank '\n'
      gap ++ l ++ foldLines (some l) 0 ls

/-- Lines without the blank ones at the end, and how many those were. -/
def dropBlankEnd (ls : List (List Char)) : List (List Char) × Nat :=
  let kept := (ls.reverse.dropWhile List.isEmpty).reverse
  (kept, ls.length - kept.length)

/-- The text of the lines of a block. -/
def blockText (folded : Bool) (chomp : Chomp) (ls : List (List Char)) (closed : Bool) : String :=
  let (kept, blanks) := dropBlankEnd ls
  let body := if folded then foldLines none 0 kept else ['\n'].intercalate kept
  let last := if kept.isEmpty then 0 else if blanks = 0 ∧ !closed then 0 else 1
  String.ofList (body ++ match chomp with
    | .strip => []
    | .clip => List.replicate last '\n'
    | .keep => List.replicate (last + blanks) '\n')

end Workflow.Yaml
