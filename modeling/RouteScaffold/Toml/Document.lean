import RouteScaffold.Toml.Scalar

/-! Reading a TOML document.

A document is read line by line: a header opens a table, and each other line gives
one key of that table its value. The first thing that is wrong makes the whole text
no document; where it was is not told. Arrays and inline tables may be nested eighty
deep. -/
namespace RouteScaffold.Toml

/-! ### Small steps -/

def peek : Reading (Option Char) := fun cs => some (cs.head?, cs)

def unread : Reading (List Char) := fun cs => some (cs, cs)

/-- Takes the character `c`. -/
def char (c : Char) : Reading Unit := fun cs =>
  match cs with
  | [] => none
  | d :: rest => if d == c then some ((), rest) else none

def takeWhile (p : Char → Bool) : Reading (List Char) := fun cs =>
  some (cs.takeWhile p, cs.dropWhile p)

def skipSpaces : Reading Unit := discard (takeWhile isSpace)

/-- Takes a comment if one comes next. -/
def skipComment : Reading Unit := do
  if (← peek) == some '#' then discard (takeWhile isPlain)

/-- Takes blanks and a comment, and then a line break or the end of the text. -/
def endOfLine : Reading Unit := do
  skipSpaces
  skipComment
  let cs ← unread
  if cs.isEmpty then return
  if atBreak cs then set (dropBreak cs) else failure

/-- Takes one line break with the comment in front of it, if there is one. Tells whether it
took anything. -/
def skipBreak : Reading Bool := do
  skipSpaces
  let commented := (← peek) == some '#'
  skipComment
  let cs ← unread
  if atBreak cs then
    set (dropBreak cs)
    return true
  if commented then failure
  return false

/-- Takes blanks, comments and line breaks. `fuel` is at least the number of line breaks. -/
def skipBreaks : Nat → Reading Unit
  | 0 => skipSpaces
  | fuel + 1 => do if ← skipBreak then skipBreaks fuel

def skipLines : Reading Unit := do skipBreaks (← unread).length

/-! ### Keys -/

def isKeyChar (c : Char) : Bool := c.isAlphanum || c == '_' || c == '-'

/-- One part of a key: bare, or quoted on one line. -/
def simpleKey : Reading String := do
  let cs ← unread
  match cs with
  | '\x22' :: rest =>
    let (key, rest) ← basicString rest
    set rest
    return String.ofList key
  | '\x27' :: rest =>
    let (key, rest) ← literalString rest
    set rest
    return String.ofList key
  | _ =>
    let key ← takeWhile isKeyChar
    if key.isEmpty then failure
    return String.ofList key

/-- The parts of a key behind the first. `fuel` is at least their number. -/
def moreKeys : Nat → Reading (List String)
  | 0 => pure []
  | fuel + 1 => do
    skipSpaces
    if (← peek) == some '.' then
      char '.'
      skipSpaces
      let key ← simpleKey
      return key :: (← moreKeys fuel)
    else return []

/-- A key as the path to its table and its last part. -/
def key : Reading (List String × String) := do
  skipSpaces
  let first ← simpleKey
  let more ← moreKeys (← unread).length
  match (first :: more).reverse with
  | last :: path => return (path.reverse, last)
  | [] => failure

/-! ### Values -/

/-- The items of an array up to its closing bracket. `fuel` is at least their number. -/
def items (item : Reading Value) : Nat → Reading (List Value)
  | 0 => failure
  | fuel + 1 => do
    skipLines
    if (← peek) == some ']' then
      char ']'
      return []
    let first ← item
    skipLines
    if (← peek) == some ',' then
      char ','
      return first :: (← items item fuel)
    else
      char ']'
      return [first]

/-- The entries of an inline table up to its closing brace. `fuel` is at least their number. -/
def members (item : Reading Value) (entries : Table) : Nat → Reading Table
  | 0 => failure
  | fuel + 1 => do
    skipLines
    if (← peek) == some '\x7d' then
      char '\x7d'
      return entries
    let (path, last) ← key
    char '='
    skipSpaces
    let value ← item
    let entries ← Table.assign path last value .inline entries
    skipLines
    if (← peek) == some ',' then
      char ','
      members item entries fuel
    else
      char '\x7d'
      return entries

/-- A value with at most `depth` arrays and tables around its innermost part. -/
def value : Nat → Reading Value
  | 0 => failure
  | depth + 1 => do
    match ← peek with
    | some '[' =>
      char '['
      return .array (← items (value depth) (← unread).length)
    | some '\x7b' =>
      char '\x7b'
      return .table .inline (← members (value depth) [] (← unread).length)
    | some c =>
      if c == '\x22' || c == '\x27' then
        let (text, rest) ← string? (← unread)
        set rest
        return .text (String.ofList text)
      else bareScalar?
    | none => failure

/-- How deep arrays and inline tables may be nested. -/
def deepest : Nat := 80

/-! ### Lines -/

structure Document where
  root : Table := []
  /-- The path of the header that the next line stands under. -/
  current : List String := []

/-- A header between single or double brackets. -/
def header (doc : Document) : Reading Document := do
  char '['
  let repeated := (← peek) == some '['
  if repeated then char '['
  let (path, last) ← key
  skipSpaces
  char ']'
  if repeated then char ']'
  endOfLine
  let start := if repeated then Table.openItem last else Table.openTable last
  let root ← Table.update false (fun _ entries => start entries) path .header doc.root
  return ⟨root, path ++ [last]⟩

/-- A key with its value. -/
def assignment (doc : Document) : Reading Document := do
  let (path, last) ← key
  char '='
  skipSpaces
  let v ← value (deepest + 1)
  endOfLine
  let root ← Table.update false (Table.assign path last v) doc.current .header doc.root
  return { doc with root }

/-- The lines of a document. `fuel` is at least their number. -/
def lines : Nat → Document → Reading Document
  | 0, doc => do
    if (← unread).isEmpty then return doc else failure
  | fuel + 1, doc => do
    skipSpaces
    let cs ← unread
    match cs with
    | [] => return doc
    | c :: _ =>
      if c == '#' || atBreak cs then
        endOfLine
        lines fuel doc
      else if c == '[' then lines fuel (← header doc)
      else lines fuel (← assignment doc)

/-- The values of a document, if the text is one. A byte order mark may come first. -/
def parse? (text : String) : Option Table := do
  let cs := match text.toList with
    | '\ufeff' :: rest => rest
    | cs => cs
  let (doc, _) ← (lines (cs.length + 1) {}).run cs
  return doc.root

end RouteScaffold.Toml
