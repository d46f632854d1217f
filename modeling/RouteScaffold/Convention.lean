import RouteScaffold.Path.Basic

/-! Routing conventions.

A convention says how a directory becomes a URL path. Both start behind a marker
directory, `app` or `pages`, and take the names that follow; the app convention
leaves out route groups and slots. Which convention a directory follows is seen
from the marker closest to its end. -/
namespace RouteScaffold

inductive Convention where
  | app
  | pages
  deriving DecidableEq, Repr, Inhabited

namespace Convention

/-- Every convention; on listings they stand in this order. -/
def all : List Convention := [.app, .pages]

def name : Convention → String
  | .app => "app-router"
  | .pages => "pages-router"

def description : Convention → String
  | .app => "Next.js App Router: named method exports, server actions and form actions"
  | .pages => "Next.js Pages Router: single default API handler dispatching by method"

/-- The directory behind which route paths start. -/
def marker : Convention → String
  | .app => "app"
  | .pages => "pages"

def named? (name : String) : Option Convention := all.find? (·.name == name)

/-- The word that asks for the convention to be told from each directory. -/
def detecting : String := "auto"

def isKnown (name : String) : Bool := name == detecting || (named? name).isSome

/-- The convention that a directory follows; the app convention where no marker says. -/
def ofDirectory (directory : Path) : Convention :=
  (directory.names.reverse.findSome? fun name => all.find? (·.marker == name)).getD .app

/-- `(group)` and `@slot` folders never appear in a URL. -/
def isGroupOrSlot (segment : String) : Bool :=
  (segment.toList.head? == some '(' && segment.toList.getLast? == some ')') ||
    segment.toList.head? == some '@'

def hides : Convention → String → Bool
  | .app => isGroupOrSlot
  | .pages => fun _ => false

/-- The names behind the last marker, or all of them where there is none. -/
def afterMarker (marker : String) (names : List String) : List String :=
  (names.reverse.takeWhile (· != marker)).reverse

/-- The URL path that a directory stands for. -/
def routePath (convention : Convention) (directory : Path) : String :=
  let segments := (afterMarker convention.marker directory.names).filter (!convention.hides ·)
  "/" ++ "/".intercalate segments

end Convention
end RouteScaffold
