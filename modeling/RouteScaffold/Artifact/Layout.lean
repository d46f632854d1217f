/-! Laying out script text.

Text is built from lines; a block is a head line that ends in an opening brace,
an inner part two columns further in, and a closing brace. Empty lines stay
empty. -/
namespace RouteScaffold.Artifact

/-- Lines as text, each with its line break. -/
def unlines (lines : List String) : String := String.join (lines.map (· ++ "\n"))

def indent (lines : List String) : List String :=
  lines.map fun line => if line == "" then "" else "  " ++ line

/-- The inner lines between an opening and a closing line. -/
def enclose (opening : String) (inner : List String) (closing : String) : List String :=
  opening :: (indent inner ++ [closing])

/-- `head {`, the inner lines, and the closing brace with `tail` behind it. -/
def block (head : String) (inner : List String) (tail : String) : List String :=
  enclose (head ++ " \x7b") inner ("\x7d" ++ tail)

/-- A text in braces with blanks between. -/
def inBraces (inner : String) : String := "\x7b " ++ inner ++ " \x7d"

theorem unlines_append (a b : List String) : unlines (a ++ b) = unlines a ++ unlines b := by
  simp [unlines, String.join_append]

end RouteScaffold.Artifact
