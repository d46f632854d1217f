import RouteScaffold.Store.Basic

/-! The dry run.

An overlay over a store: writes and directories are noted and not done, while
enumeration and reading go through to the store. What was noted is seen by later
reads and questions, so a run on the overlay goes as it would go on the store.

The notes can then be compared with what the store holds. -/
namespace RouteScaffold.Store

structure Written where
  path : Path
  content : String
  deriving DecidableEq, Repr

/-- What an overlay has noted, in the order of the calls. -/
structure Notes where
  writes : List Written := []
  dirs : List Path := []
  deriving DecidableEq, Repr

namespace Notes

/-- The last content noted for a path. -/
def content? (notes : Notes) (path : Path) : Option String :=
  (notes.writes.reverse.find? (·.path.same path)).map (·.content)

def has (notes : Notes) (path : Path) : Bool :=
  notes.dirs.any (·.startsWith path) || notes.writes.any (·.path.startsWith path)

end Notes

variable {m : Type → Type} [Monad m]

/-- The overlay over a store. -/
def dryRun (store : Store m) : Store (StateT Notes m) :=
  { glob := fun root pattern => store.glob root pattern
    read := fun path => do
      match (← get).content? path with
      | some content => return .ok content
      | none => store.read path
    write := fun path content => do
      modify fun notes => { notes with writes := notes.writes ++ [⟨path, content⟩] }
      return .ok ()
    makeDir := fun path => do
      modify fun notes => { notes with dirs := notes.dirs ++ [path] }
      return .ok ()
    has := fun path => do
      if (← get).has path then return true else store.has path
    workingDir := store.workingDir }

/-! ### Comparing with the store -/

inductive Status where
  /-- Nothing exists at the path. -/
  | created
  | changed
  | unchanged
  deriving DecidableEq, Repr

def Status.label : Status → String
  | .created => "new"
  | .changed => "changed"
  | .unchanged => "unchanged"

/-- How a noted write compares with what the store holds at its path. -/
def statusOf (store : Store m) (w : Written) : m Status := do
  if ← store.has w.path then
    match ← store.read w.path with
    | .ok content => return if content == w.content then .unchanged else .changed
    | .error _ => return .changed
  else return .created

/-- All noted writes with their statuses. -/
def statuses (store : Store m) (notes : Notes) : m (List (Written × Status)) :=
  notes.writes.mapM fun w => do return (w, ← statusOf store w)

end RouteScaffold.Store
