import RouteScaffold.Route.Scan
import RouteScaffold.Store.Basic

/-! Watching.

A project is generated again when a descriptor file appears, changes or goes
away. Files below an output directory do not count, or a run would start the next
one. What is told in one go is taken together, and answered by one run. -/
namespace RouteScaffold.Watch

/-- Whether a change at a path asks for a run. -/
def concerns (outputDir : String) (path : Path) : Bool :=
  !(path.names.any fun name => name == outputDir || Store.skippedDirs.contains name) &&
    (path.fileName?.bind Route.methodOf?).isSome

inductive Event where
  | changed (path : Path)
  | removed (path : Path)
  | failed (message : String)
  deriving DecidableEq, Repr

namespace Event

def path? : Event → Option Path
  | .changed path => some path
  | .removed path => some path
  | .failed _ => none

def message? : Event → Option String
  | .failed message => some message
  | _ => none

end Event

/-- An event with those that were waiting behind it. -/
def batch (first : Event) (waiting : List Event) : List Event := first :: waiting

inductive Failure where
  | cannotStart (message : String)
  | cannotTell (message : String)
  deriving DecidableEq, Repr

def Failure.message : Failure → String
  | .cannotStart message => "Failed to initialize file watcher: " ++ message
  | .cannotTell message => "Watch notification error: " ++ message

end RouteScaffold.Watch
