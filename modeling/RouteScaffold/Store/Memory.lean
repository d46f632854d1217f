import RouteScaffold.Store.Basic

/-! A store in memory.

Files are kept in the order of their paths, one per list of components: writing
under another spelling replaces the content and keeps the spelling that was there
first. Every write and every directory made is remembered. A path exists if a
file or a made directory lies at it or below it. -/
namespace RouteScaffold.Store

structure Memory where
  workingDir : Path
  /-- The files, in the order of their paths. -/
  files : List (Path × String) := []
  /-- The directories that were made, in the order of their paths. -/
  dirs : List Path := []
  /-- The paths that were written, in the order of the calls. -/
  writes : List Path := []
  deriving DecidableEq, Repr

namespace Memory

/-- Puts a file at its place, or replaces the content of the one with its components. -/
def insertFile (path : Path) (content : String) : List (Path × String) → List (Path × String)
  | [] => [(path, content)]
  | file :: files =>
    match path.compare file.1 with
    | .lt => (path, content) :: file :: files
    | .eq => (file.1, content) :: files
    | .gt => file :: insertFile path content files

/-- Puts a path at its place unless one with its components is there. -/
def insertPath (path : Path) : List Path → List Path
  | [] => [path]
  | first :: rest =>
    match path.compare first with
    | .lt => path :: first :: rest
    | .eq => first :: rest
    | .gt => first :: insertPath path rest

/-- A path, taken from the working directory if it is relative. -/
def resolve (s : Memory) (path : Path) : Path := s.workingDir.resolve path

def addFile (s : Memory) (path : Path) (content : String) : Memory :=
  { s with files := insertFile (s.resolve path) content s.files }

def file? (s : Memory) (path : Path) : Option String :=
  (s.files.find? fun file => file.1.same (s.resolve path)).map Prod.snd

def write (s : Memory) (path : Path) (content : String) : Memory :=
  { s.addFile path content with writes := s.writes ++ [s.resolve path] }

def makeDir (s : Memory) (path : Path) : Memory :=
  { s with dirs := insertPath (s.resolve path) s.dirs }

def has (s : Memory) (path : Path) : Bool :=
  let path := s.resolve path
  s.files.any (·.1.startsWith path) || s.dirs.any (·.startsWith path)

/-- The paths of the files below a root, from there, that match the pattern. -/
def matching (s : Memory) (root : Path) (pattern : Glob.Pattern) : List Path :=
  (s.files.filterMap fun file => file.1.stripBase? (s.resolve root)).filter fun path =>
    !inSkippedDir path && pattern.matchesPath path

end Memory

/-- The store that a memory state is. -/
def memory : Store (StateM Memory) :=
  { glob := fun root text => do
      let s ← get
      return (pattern text).map (s.matching root)
    read := fun path => do
      match (← get).file? path with
      | some content => return .ok content
      | none => return .error (.noSuchFile path)
    write := fun path content => do
      modify fun s => s.write path content
      return .ok ()
    makeDir := fun path => do
      modify fun s => s.makeDir path
      return .ok ()
    has := fun path => do return (← get).has path
    workingDir := do return (← get).workingDir }

end RouteScaffold.Store
