import RouteScaffold.Route.Naming

/-! Route paths.

A route path such as `/api/posts/[postId]` is a list of segments. A segment in
square brackets is dynamic and has a name; the catch-all forms `[...slug]` and
`[[...slug]]` have the bare name. All others are static. -/
namespace RouteScaffold.Route
open Text

def segments (path : List Char) : List (List Char) := separate (· == '/') path

/-- The text between a `[` in front and a `]` at the end. -/
def bracketed? : List Char → Option (List Char)
  | '[' :: rest =>
    match rest.reverse with
    | ']' :: inner => some inner.reverse
    | _ => none
  | _ => none

/-- The name of a dynamic segment. -/
def dynamicName? (segment : List Char) : Option (List Char) := do
  let inner ← bracketed? segment
  let inner := (bracketed? inner).getD inner
  let inner := if "...".toList.isPrefixOf inner then inner.drop 3 else inner
  if inner.isEmpty then none else some inner

/-- The names of the dynamic segments, from left to right. -/
def dynamicNames (path : String) : List String :=
  (segments path.toList).filterMap fun segment => (dynamicName? segment).map String.ofList

/-- A segment within a template literal, its value read from `accessor` if it is dynamic. -/
def templateSegment (accessor : String) (segment : List Char) : List Char :=
  match dynamicName? segment with
  | some name => "$\x7b".toList ++ accessor.toList ++ ['.'] ++ name ++ ['\x7d']
  | none => segment

/-- The template literal that evaluates to the path. -/
def urlTemplate (path accessor : String) : String :=
  let inner := List.intercalate ['/'] ((segments path.toList).map (templateSegment accessor))
  String.ofList ('\x60' :: (inner ++ ['\x60']))

/-- The segments a route is named after: the static ones, without a leading `api`. -/
def namingSegments (path : List Char) : List (List Char) :=
  match (segments path).filter fun s => !s.isEmpty && (dynamicName? s).isNone with
  | first :: rest => if first == "api".toList then rest else first :: rest
  | [] => []

/-- The name shared by everything generated for a route. It is never empty and never starts
with a digit of ASCII. -/
def resourceName (path : String) : String :=
  let name := ((namingSegments path.toList).flatMap pascalChars).filter isAlphanumeric
  String.ofList <|
    match name with
    | [] => "Root".toList
    | c :: rest => if c.isDigit then "Root".toList ++ c :: rest else c :: rest

end RouteScaffold.Route
