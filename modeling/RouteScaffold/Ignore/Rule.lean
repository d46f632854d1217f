import RouteScaffold.Ignore.Wildcard
import RouteScaffold.Path.Basic
import RouteScaffold.Text.Blank

/-! Ignore rules.

An ignore file holds one rule on a line. A rule hides the paths that its wildcard
matches, or with an exclamation mark brings them back; the last rule that matches
decides. A wildcard without a slash inside matches at any depth below the file's
directory, one with a slash only from there on.

Lines that are no rule are left out and told as troubles; the rules around them
count. A line that is no text ends the file. -/
namespace RouteScaffold.Ignore
open Text

structure Rule where
  pieces : List Piece
  /-- Whether the rule brings paths back instead of hiding them. -/
  keeps : Bool
  onlyDirs : Bool
  deriving Repr

/-! ### Lines -/

/-- The part of a line that counts. Blanks at its end do not, unless a backslash stands before
the last. -/
def significant (line : List Char) : List Char :=
  if line.reverse.take 2 == [' ', '\\'] then line else trimEnd line

/-- A line without the marks in front of its wildcard: whether it keeps, whether it is bound to
the file's directory, and the rest. -/
def unmark : List Char → Bool × Bool × List Char
  | '\\' :: '!' :: rest => (false, false, '!' :: rest)
  | '\\' :: '#' :: rest => (false, false, '#' :: rest)
  | '!' :: '/' :: rest => (true, true, rest)
  | '!' :: rest => (true, false, rest)
  | '/' :: rest => (false, true, rest)
  | line => (false, false, line)

/-- Whether a wildcard ends in a slash, and the wildcard without it and without a backslash
before it. -/
def cutSlash (text : List Char) : Bool × List Char :=
  match text.reverse with
  | '/' :: '\\' :: rest => (true, rest.reverse)
  | '/' :: rest => (true, rest.reverse)
  | _ => (false, text)

/-- Lets a wildcard without a slash match at any depth. -/
def unbound (text : List Char) : List Char :=
  if text.contains '/' || text == ['*', '*'] then text else '*' :: '*' :: '/' :: text

/-- Lets a wildcard that ends in `/**` match what is below, but not the directory itself. -/
def below (text : List Char) : List Char :=
  if text.reverse.take 3 == ['*', '*', '/'] then text ++ ['/', '*'] else text

/-- The rule on a line that counts. -/
def Rule.ofLine (line : List Char) : Except Flaw Rule :=
  let (keeps, bound, text) := unmark line
  let (onlyDirs, text) := cutSlash text
  let text := below (if bound then text else unbound text)
  (wildcard text).map fun pieces => ⟨pieces, keeps, onlyDirs⟩

/-! ### Files -/

/-- What is wrong with a line of an ignore file. -/
inductive Trouble where
  | flawed (number : Nat) (line : String) (flaw : Flaw)
  | notText (number : Nat)
  deriving DecidableEq, Repr

def Trouble.message : Trouble → String
  | .flawed number line flaw =>
    "line " ++ toString number ++ ": error parsing glob '" ++ line ++ "': " ++ flaw.message
  | .notText number => "line " ++ toString number ++ ": stream did not contain valid UTF-8"

/-- The lines of a file: what lies between its line feeds, without a carriage return right before
one. Nothing behind the last line feed is no line. -/
def linesOf (bytes : Bytes) : List Bytes :=
  let line := bytes.takeWhile (· != 0x0a)
  match h : bytes.dropWhile (· != 0x0a) with
  | [] => if line.isEmpty then [] else [line]
  | _ :: rest =>
    have : rest.length < bytes.length := by
      have := (List.dropWhile_sublist (· != 0x0a) (l := bytes)).length_le
      rwa [h] at this
    (if line.getLast? == some 0x0d then line.dropLast else line) :: linesOf rest
termination_by bytes.length

/-- The rules on some lines, and their troubles. `number` is the number of the first line. -/
def readLines (number : Nat) : List Bytes → List Rule × List Trouble
  | [] => ([], [])
  | bytes :: rest =>
    match String.fromUTF8? ⟨bytes.toArray⟩ with
    | none => ([], [.notText number])
    | some text =>
      let cs := if number == 1 then text.toList.dropWhile (· == '\ufeff') else text.toList
      let line := significant cs
      let (rules, troubles) := readLines (number + 1) rest
      if cs.head? == some '#' || line.isEmpty then (rules, troubles)
      else
        match Rule.ofLine line with
        | .ok rule => (rule :: rules, troubles)
        | .error flaw => (rules, .flawed number (String.ofList line) flaw :: troubles)

def readRules (bytes : Bytes) : List Rule × List Trouble := readLines 1 (linesOf bytes)

/-! ### Deciding -/

def Rule.applies (rule : Rule) (path : Bytes) (isDir : Bool) : Bool :=
  (!rule.onlyDirs || isDir) && matchesBytes rule.pieces path

/-- What the last rule that applies says: whether the path is hidden. -/
def hidden? (rules : List Rule) (path : Bytes) (isDir : Bool) : Option Bool :=
  (rules.reverse.find? (·.applies path isDir)).map (!·.keeps)

end RouteScaffold.Ignore
