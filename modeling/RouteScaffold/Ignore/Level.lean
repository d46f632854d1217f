import RouteScaffold.Ignore.Rule

/-! The rules around a path.

Each directory from the path's own up to the root has a level of rules: those of
its `.ignore` file, those of its `.gitignore` file, and those that its repository
excludes. The first kind of rules that says something decides, and of one kind the
nearest level. Rules of the last two kinds count only within a repository, and no
further up than its directory. -/
namespace RouteScaffold.Ignore

/-- The rules of one directory. -/
structure Level where
  dir : Path
  plain : List Rule := []
  versioned : List Rule := []
  excluded : List Rule := []
  /-- Whether a repository starts here. -/
  isRepository : Bool := false
  deriving Repr

/-! ### Paths as rules see them -/

def withoutDot (text : List Char) : List Char := (['.', '/'].isPrefixOf? text).getD text

/-- The text of a path without that of a directory it lies in. -/
def within (dir : List Char) (text : List Char) : List Char :=
  let rest := (dir.isPrefixOf? text).getD text
  (['/'].isPrefixOf? rest).getD rest

def isHere (dir : List Char) : Bool := Path.same ⟨String.ofList dir⟩ ⟨"."⟩

/-- A path as seen from the directory of a level. A lone name is seen as it is. -/
def Level.view (level : Level) (path : List Char) : Bytes :=
  let dir := withoutDot level.dir.text.toList
  let text := withoutDot path
  let seen :=
    if isHere dir || !text.contains '/' || !dir.isPrefixOf text then text
    else within dir text
  (String.ofList seen).toUTF8.toList

/-! ### Deciding -/

/-- A path with the levels around it, the nearest first. The levels of the search see the path as
it was found, those above see it as an absolute path. -/
structure Sight where
  level : Level
  path : List Char

def Sight.ask (s : Sight) (rules : Level → List Rule) (isDir : Bool) : Option Bool :=
  hidden? (rules s.level) (s.level.view s.path) isDir

/-- The levels up to the first repository; none where there is no repository at all. -/
def upToRepository (sights : List Sight) : List Sight :=
  match sights.span (!·.level.isRepository) with
  | (_, []) => []
  | (inner, repository :: _) => inner ++ [repository]

def hides (sights : List Sight) (isDir : Bool) : Bool :=
  let tracked := upToRepository sights
  let verdict :=
    sights.findSome? (·.ask Level.plain isDir) <|>
    tracked.findSome? (·.ask Level.versioned isDir) <|>
    tracked.findSome? (·.ask Level.excluded isDir)
  verdict.getD false

/-- The sights of a path below a root, from the levels at and below the root and from those above
its real path. -/
def sights (root real : Path) (own above : List Level) (path : Path) : List Sight :=
  let near := withoutDot path.text.toList
  let dir := withoutDot root.text.toList
  let inner := if isHere root.text.toList then near else within dir near
  let far := (real.join ⟨String.ofList inner⟩).text.toList
  own.map (⟨·, near⟩) ++ above.map (⟨·, far⟩)

end RouteScaffold.Ignore
