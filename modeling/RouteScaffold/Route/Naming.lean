import RouteScaffold.Route.Field
import RouteScaffold.Text.LetterCase
import RouteScaffold.Text.Letters
import RouteScaffold.Text.Separate

/-! Names made from names.

File names and fields are written in several ways, `add-admin` or `add_admin` or
`addAdmin`; types, functions and labels are derived from them. Only the first
character of a word changes its case. -/
namespace RouteScaffold.Route
open Text

/-- The words of an identifier between its hyphens and underscores. -/
def identWords (id : List Char) : List (List Char) :=
  (separate (fun c => c == '-' || c == '_') id).filter (!·.isEmpty)

/-- Every word capitalized and joined: `add-admin` becomes `AddAdmin`. -/
def pascalChars (id : List Char) : List Char := (identWords id).flatMap capitalize

def pascalCase (id : String) : String := String.ofList (pascalChars id.toList)

/-- As `pascalCase`, with the first character in lower case. -/
def camelCase (id : String) : String := String.ofList (uncapitalize (pascalChars id.toList))

/-- The words of an identifier in camel case: a new one starts at every upper-case character
that follows a lower-case one. -/
def humps : List Char → List (List Char)
  | [] => []
  | c :: rest =>
    match humps rest with
    | (d :: word) :: words =>
      if isLower c && isUpper d then [c] :: (d :: word) :: words else (c :: d :: word) :: words
    | words => [c] :: words

/-- How a field is shown to people: `postId` becomes `Post Id`. -/
def labelOf (id : String) : String :=
  String.ofList (List.intercalate [' '] ((humps id.toList).map capitalize))

end RouteScaffold.Route
