import RouteScaffold.Store.Basic

/-! File systems.

A file system is a record of what programs ask of one, in some monad `m`. The
disk of the machine is one, and so is a disk that is a value. Contents are bytes;
a content that is no text is a fault only for who reads it as text. -/
namespace RouteScaffold
open Store

/-- What lies at a path. -/
inductive EntryKind where
  | file
  | dir
  | other
  deriving DecidableEq, Repr

structure FileSystem (m : Type → Type) where
  /-- What lies at a path once links are followed, if anything does. -/
  kindAt : Path → m (Option EntryKind)
  /-- The names in a directory and what they stand for, links not followed. -/
  entries : Path → m (Except Fault (List (String × EntryKind)))
  read : Path → m (Except Fault ByteArray)
  /-- Puts a file at a path, over the one that is there. -/
  write : Path → ByteArray → m (Except Fault Unit)
  /-- Makes one directory. -/
  makeDir : Path → m (Except Fault Unit)
  /-- The one absolute path, without links and dots, of what lies at a path. -/
  realPath : Path → m (Option Path)
  workingDir : m Path

namespace Path

/-- The first `n` of a path and the paths above it, the innermost first. -/
def upward : Nat → Path → List Path
  | 0, _ => []
  | n + 1, p => p :: (p.parent?.map (upward n)).getD []

/-- A path and all paths above it: one more than it has components. -/
def withAncestors (p : Path) : List Path := upward (p.components.length + 1) p

end Path

namespace FileSystem
variable {m : Type → Type} [Monad m] (files : FileSystem m)

def isDir (path : Path) : m Bool := return (← files.kindAt path) == some .dir

def readText (path : Path) : m (Except Fault String) := do
  match ← files.read path with
  | .error fault => return .error fault
  | .ok content =>
    match String.fromUTF8? content with
    | some text => return .ok text
    | none => return .error .notText

/-- A failure to make a directory that is there all the same is none. -/
def settle (dir : Path) (made : Except Fault Unit) : m (Except Fault Unit) := do
  match made with
  | .ok _ => return .ok ()
  | .error fault => return if ← files.isDir dir then .ok () else .error fault

/-- Makes the first of some directories, and those behind it that it lies in where they are
missing. The empty path needs no making. -/
def makeDirs : List Path → m (Except Fault Unit)
  | [] => return .ok ()
  | dir :: around => do
    if dir.text == "" then return .ok ()
    match ← files.makeDir dir with
    | .ok _ => return .ok ()
    | .error fault =>
      if fault.kind == .notFound then
        match ← makeDirs around with
        | .ok _ => files.settle dir (← files.makeDir dir)
        | .error fault => return .error fault
      else files.settle dir (.error fault)

end FileSystem
end RouteScaffold
