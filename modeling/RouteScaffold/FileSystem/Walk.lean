import RouteScaffold.FileSystem.Basic
import RouteScaffold.Ignore.Level

/-! Walking a directory.

A walk finds the files below a root. It enters no skipped directory and none that
ignore rules hide, and passes over the files they hide. Rules of version control
count only if they are asked for.

A line that is no rule is passed over in an ignore file at or below the root, but
above the root it is a fault. -/
namespace RouteScaffold.FileSystem
open Store Ignore

variable {m : Type → Type} [Monad m] (files : FileSystem m)

/-! ### Levels -/

/-- What is wrong with a rule file, with its path. A file that cannot be read at all has nothing
wrong. -/
def troublesAt (path : Path) : List Trouble → List String
  | [.notText _] => []
  | troubles => troubles.map fun trouble => path.text ++ ": " ++ trouble.message

def readRuleFile (path : Path) : m (List Rule × List String) := do
  match ← files.read path with
  | .error _ => return ([], [])
  | .ok content =>
    let (rules, troubles) := readRules content.toList
    return (rules, troublesAt path troubles)

/-- The first line of a file, or its fault. -/
def firstLine (path : Path) : m (Except Fault (Option String)) := do
  match ← files.read path with
  | .error fault => return .error fault
  | .ok content =>
    match linesOf content.toList with
    | [] => return .ok none
    | line :: _ =>
      match String.fromUTF8? ⟨line.toArray⟩ with
      | some text => return .ok (some text)
      | none => return .error .notText

/-- Where the repository of a directory keeps what all its working copies share. A working copy
that is not the first names its own place in a file instead of having a directory. -/
def repositoryDir (dir : Path) : m (Except (Option String) Path) := do
  let home := dir.join ⟨".git"⟩
  unless (← files.kindAt home) == some .file do return .ok home
  match ← files.firstLine home with
  | .error fault => return .error (some (home.text ++ ": " ++ fault.message))
  | .ok none => return .error none
  | .ok (some line) =>
    match "gitdir: ".toList.isPrefixOf? line.toList with
    | none => return .error none
    | some place =>
      let own : Path := ⟨String.ofList place⟩
      let link := own.join ⟨"commondir"⟩
      match ← files.firstLine link with
      | .ok (some shared) =>
        return .ok (if shared.startsWith "." then own.join ⟨shared⟩ else ⟨shared⟩)
      | .ok none => return .error none
      | .error .notText => return .error (some (link.text ++ ": " ++ Fault.notText.message))
      | .error (.refused .isDirectory) =>
        return .error (some (link.text ++ ": " ++ (Fault.refused .isDirectory).message))
      | .error _ => return .error none

/-- The level of a directory, and what is wrong with its rule files. -/
def readLevel (versioned : Bool) (dir : Path) : m (Level × List String) := do
  let (plain, plainTroubles) ← files.readRuleFile (dir.join ⟨".ignore"⟩)
  unless versioned do return ({ dir, plain }, plainTroubles)
  let isRepository :=
    (← files.kindAt (dir.join ⟨".git"⟩)).isSome || (← files.kindAt (dir.join ⟨".jj"⟩)).isSome
  let (rules, troubles) ← files.readRuleFile (dir.join ⟨".gitignore"⟩)
  let (excluded, excludedTroubles) ← match ← files.repositoryDir dir with
    | .ok place => files.readRuleFile (place.join ⟨"info/exclude"⟩)
    | .error trouble => pure ([], trouble.toList)
  return ({ dir, plain, versioned := rules, excluded, isRepository },
    plainTroubles ++ troubles ++ excludedTroubles)

/-- The levels of some directories, and all that is wrong with them. -/
def readLevels (versioned : Bool) : List Path → m (List Level × List String)
  | [] => return ([], [])
  | dir :: dirs => do
    let (level, troubles) ← files.readLevel versioned dir
    let (levels, more) ← readLevels versioned dirs
    return (level :: levels, troubles ++ more)

/-! ### Walking -/

/-- What stays the same during a walk. -/
structure Search where
  versioned : Bool
  root : Path
  /-- The root's real path. -/
  real : Path
  /-- The levels above the root, the nearest first. -/
  above : List Level

/-- Whether a walk passes over an entry. -/
def Search.passesOver (s : Search) (own : List Level) (path : Path) (name : String)
    (kind : EntryKind) : Bool :=
  skippedDirs.contains name || hides (sights s.root s.real own s.above path) (kind == .dir)

/-- A directory's fault as a walk tells it. -/
def unlisted (dir : Path) (fault : Fault) : Fault :=
  .other (dir.text ++ ": IO error for operation on " ++ dir.text ++ ": " ++ fault.message)

/-- The files below a directory, given its own level and those from it up to the root. Directories
are entered `depth` deep. -/
def filesBelow (s : Search) : Nat → List Level → Path → ExceptT Fault m (List Path)
  | 0, _, _ => throw (.refused .nameTooLong)
  | depth + 1, own, dir => do
    let entries ← ExceptT.mk do return (← files.entries dir).mapError (unlisted dir)
    let found ← entries.mapM fun (name, kind) => do
      let path := dir.join ⟨name⟩
      if s.passesOver own path name kind then return []
      match kind with
      | .file => return [path]
      | .other => return []
      | .dir =>
        let (level, _) ← files.readLevel s.versioned path
        filesBelow s depth (level :: own) path
    return found.flatten

/-- No path is longer than this many bytes, so no directory lies deeper. -/
def longestPath : Nat := 4096

/-- The files below a root that a walk does not pass over. -/
def walk (versioned : Bool) (root : Path) : ExceptT Fault m (List Path) := do
  let real := (← files.realPath root).getD root
  let (outer, troubles) ← files.readLevels versioned (real.withAncestors.drop 1).reverse
  unless troubles.isEmpty do throw (.other ("\n".intercalate troubles))
  let (level, _) ← files.readLevel versioned root
  files.filesBelow { versioned, root, real, above := outer.reverse } longestPath [level] root

/-! ### The store -/

/-- The store that a file system makes. Its enumerations respect ignore rules, those of version
control only if asked to. -/
def store (versioned : Bool) : Store m :=
  { glob := fun root text => ExceptT.run do
      unless ← files.isDir root do throw (.noSuchRoot root)
      let pattern ← ExceptT.mk (pure (pattern text))
      -- This name stands for the standard input, which holds no files.
      if root.same ⟨"-"⟩ then return []
      let found ← files.walk versioned root
      return (found.map fun path => (path.stripBase? root).getD path).filter pattern.matchesPath
    read := files.readText
    write := fun path text => files.write path text.toUTF8
    makeDir := fun path => files.makeDirs path.withAncestors
    has := fun path => return (← files.kindAt path).isSome
    workingDir := files.workingDir }

end RouteScaffold.FileSystem
