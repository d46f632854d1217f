import RouteScaffold.Glob.Match
import RouteScaffold.Store.Fault

/-! Stores.

All that a run does to files goes through a store: it enumerates candidates below
a root, reads, writes, makes directories, and asks what exists. A store is a
record of these operations in some monad `m`, so the same run works on the disk,
in memory, and on an overlay that only notes what would be written. -/
namespace RouteScaffold

structure Store (m : Type → Type) where
  /-- The files below the root whose path from there matches the pattern. -/
  glob : Path → String → m (Except Store.Fault (List Path))
  read : Path → m (Except Store.Fault String)
  write : Path → String → m (Except Store.Fault Unit)
  /-- Makes a directory and those above it. -/
  makeDir : Path → m (Except Store.Fault Unit)
  has : Path → m Bool
  workingDir : m Path

namespace Store

/-- The directories that an enumeration never enters. -/
def skippedDirs : List String := ["node_modules", ".generated", ".git", ".next"]

/-- Whether a path leads through a skipped directory or is one. -/
def inSkippedDir (path : Path) : Bool := path.names.any skippedDirs.contains

/-- A pattern, or the fault of a text that is none. -/
def pattern (text : String) : Except Fault Glob.Pattern :=
  (Glob.Pattern.ofString text).mapError (Fault.badPattern text)

variable {m : Type → Type} [Monad m]

/-! ### A store that denies -/

/-- For each operation, the path ends it is denied on. -/
structure Denials where
  read : List Path := []
  write : List Path := []
  makeDir : List Path := []
  glob : List Path := []

/-- Runs the operation unless its path ends with one of the denied ones. -/
def unlessDenied {α : Type} (operation : Operation) (ends : List Path) (path : Path)
    (run : m (Except Fault α)) : m (Except Fault α) :=
  if ends.any path.endsWith then pure (.error (.denied operation)) else run

/-- The store with some operations denied on some paths. -/
def denying (denials : Denials) (store : Store m) : Store m :=
  { store with
    glob := fun root pattern =>
      unlessDenied .glob denials.glob root (store.glob root pattern)
    read := fun path => unlessDenied .read denials.read path (store.read path)
    write := fun path content =>
      unlessDenied .write denials.write path (store.write path content)
    makeDir := fun path => unlessDenied .makeDir denials.makeDir path (store.makeDir path) }

end Store
end RouteScaffold
