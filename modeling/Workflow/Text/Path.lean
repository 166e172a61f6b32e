/-! Paths: segments between slashes, where empty segments and single dots say nothing. A leading tilde
    stands for the home directory. -/

namespace Workflow.Text

def pathSegments (s : String) : List String :=
  ((s.splitOn "/").filter fun t => t ≠ "" && t ≠ ".")

/-- The slashes that a path keeps at its start: exactly two are kept, and any other number is one. -/
def pathRoot (s : String) : String :=
  match s.toList with
  | '/' :: '/' :: '/' :: _ => "/"
  | '/' :: '/' :: _ => "//"
  | '/' :: _ => "/"
  | _ => ""

/-- The path in its shortest form; links are not followed, so double dots stay. -/
def tidyPath (s : String) : String :=
  let path := pathRoot s ++ "/".intercalate (pathSegments s)
  if path.isEmpty then "." else path

end Workflow.Text
