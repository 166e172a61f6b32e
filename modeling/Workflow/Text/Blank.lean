/-! White space, and texts without it at their ends. -/

namespace Workflow.Text

/-- White space in the sense of Unicode. -/
def isSpace (c : Char) : Bool :=
  let n := c.toNat
  (9 ≤ n && n ≤ 13) || n == 32 || n == 0x85 || n == 0xA0 || n == 0x1680 ||
    (0x2000 ≤ n && n ≤ 0x200A) || n == 0x2028 || n == 0x2029 || n == 0x202F || n == 0x205F ||
    n == 0x3000

/-- White space, or one of the separators U+001C to U+001F. -/
def isBlank (c : Char) : Bool := isSpace c || (28 ≤ c.toNat && c.toNat ≤ 31)

/-- The characters without those of a class at both ends. -/
def trim (p : Char → Bool) (cs : List Char) : List Char :=
  ((cs.dropWhile p).reverse.dropWhile p).reverse

/-- The characters without the blank ones at both ends. -/
def stripChars (cs : List Char) : List Char := trim isBlank cs

/-- The text without blanks at both ends. -/
def strip (s : String) : String := String.ofList (stripChars s.toList)

end Workflow.Text
