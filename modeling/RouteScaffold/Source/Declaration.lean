import RouteScaffold.Source.Bracket
import RouteScaffold.Source.Mask
import RouteScaffold.Text.Letters

/-! Finding a declaration.

A declaration is searched from left to right on the masked copy, and the first
place that fits decides. It starts at a word boundary with `const`, `let` or
`var`, then come blanks, the name, perhaps a type annotation, the equals sign and
what opens the initializer. The object literal is then walked on the text itself.

The steps below read the masked copy: each takes what it matches off the front,
or fails. -/
namespace RouteScaffold.Source
open Text

/-- Whether a word can start here, given the column before. -/
def atBoundary (before : Option Cell) : Bool := !(before.any fun cell => isWordChar cell.shown)

def skipBlanks (cells : List Cell) : List Cell := cells.dropWhile fun cell => isBlank cell.shown

/-- Takes a word off the front. -/
def word? : List Char → List Cell → Option (List Cell)
  | [], cells => some cells
  | _, [] => none
  | c :: word, cell :: cells => if cell.shown == c then word? word cells else none

/-- Takes blanks and then a word off the front. -/
def nextWord? (word : List Char) (cells : List Cell) : Option (List Cell) :=
  word? word (skipBlanks cells)

/-- Takes blanks, a type annotation if there is one, and the equals sign off the front. -/
def equals? (cells : List Cell) : Option (List Cell) :=
  match skipBlanks cells with
  | [] => none
  | cell :: rest =>
    if cell.shown == '=' then some rest
    else if cell.shown == ':' then
      match rest.dropWhile (·.shown != '=') with
      | [] => none
      | _ :: rest => some rest
    else none

/-- What may stand between the equals sign and the opening brace. -/
inductive Opening where
  /-- The object literal itself. -/
  | literal
  /-- A call of `z.object` with the object literal. -/
  | schema
  deriving DecidableEq, Repr

/-- Takes what opens the object literal off the front, its brace included. -/
def Opening.take? : Opening → List Cell → Option (List Cell)
  | .literal, cells => nextWord? ['\x7b'] cells
  | .schema, cells => do
    let cells ← nextWord? ['z'] cells
    let cells ← nextWord? ['.'] cells
    let cells ← nextWord? "object".toList cells
    let cells ← nextWord? ['('] cells
    nextWord? ['\x7b'] cells

/-- Takes blanks, the name and all up to the opening brace off the front. A name may itself
start with blanks, so every split of the blanks is tried. -/
def named? (name : List Char) (opening : Opening) : List Cell → Option (List Cell)
  | [] => none
  | cell :: cells =>
    if isBlank cell.shown then
      ((word? name cells).bind equals?).bind opening.take? <|> named? name opening cells
    else none

/-- The words that start a declaration. -/
def keywords : List String := ["const", "let", "var"]

/-- Takes the declaration of `name` off the front, up to the brace of its object literal. -/
def declared? (name : List Char) (opening : Opening) (cells : List Cell) : Option (List Cell) :=
  keywords.findSome? fun keyword => (word? keyword.toList cells).bind (named? name opening)

/-- What is left after the first place at a word boundary where `take?` succeeds. -/
def search (take? : List Cell → Option (List Cell)) (before : Option Cell) :
    List Cell → Option (List Cell)
  | [] => none
  | cell :: cells =>
    let here := if atBoundary before then take? (cell :: cells) else none
    here <|> search take? (some cell) cells

/-- The text between the braces of the object literal that the first declaration of `name` is
given. -/
def objectBody? (source name : List Char) (opening : Opening) : Option (List Char) := do
  let rest ← search (declared? name opening) none (mask source)
  let (inside, _) ← enclosed? '\x7b' (sourceOf rest)
  pure inside

end RouteScaffold.Source
