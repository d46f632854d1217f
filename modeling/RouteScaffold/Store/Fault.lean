import RouteScaffold.Glob.Pattern
import RouteScaffold.Path.Basic

/-! What can go wrong in a store. -/
namespace RouteScaffold.Store

/-- The operations of a store that can fail. -/
inductive Operation where
  | read
  | write
  | makeDir
  | glob
  deriving DecidableEq, Repr

def Operation.name : Operation → String
  | .read => "read"
  | .write => "write"
  | .makeDir => "mkdir"
  | .glob => "glob"

/-- The refusals of a file system. -/
inductive Refusal where
  | noEntry
  | accessDenied
  | exists
  | notDirectory
  | isDirectory
  | nameTooLong
  /-- Any other, by its number and its text. -/
  | other (number : Nat) (text : String)
  deriving DecidableEq, Repr

def Refusal.number : Refusal → Nat
  | .noEntry => 2
  | .accessDenied => 13
  | .exists => 17
  | .notDirectory => 20
  | .isDirectory => 21
  | .nameTooLong => 36
  | .other number _ => number

def Refusal.text : Refusal → String
  | .noEntry => "No such file or directory"
  | .accessDenied => "Permission denied"
  | .exists => "File exists"
  | .notDirectory => "Not a directory"
  | .isDirectory => "Is a directory"
  | .nameTooLong => "File name too long"
  | .other _ text => text

/-- The refusal with a number, and a text for it should the number be none of those above. -/
def Refusal.ofNumber (number : Nat) (text : String) : Refusal :=
  match [Refusal.noEntry, .accessDenied, .exists, .notDirectory, .isDirectory, .nameTooLong].find?
    (·.number == number) with
  | some refusal => refusal
  | none => .other number text

inductive Fault where
  /-- A store in memory holds no file of this path. -/
  | noSuchFile (path : Path)
  /-- The root of an enumeration is no directory. -/
  | noSuchRoot (root : Path)
  | badPattern (pattern : String) (error : Glob.PatternError)
  /-- The operation is not allowed here. -/
  | denied (operation : Operation)
  | refused (refusal : Refusal)
  | notText
  /-- A path cannot hold the character NUL. -/
  | nulInPath
  /-- Any other fault, by its text. -/
  | other (message : String)
  deriving DecidableEq, Repr

def Fault.message : Fault → String
  | .noSuchFile path => "no such file: " ++ path.text
  | .noSuchRoot root => "directory not found: " ++ root.text
  | .badPattern pattern error => "invalid glob pattern '" ++ pattern ++ "': " ++ error.message
  | .denied operation => operation.name ++ " denied"
  | .refused refusal => refusal.text ++ " (os error " ++ toString refusal.number ++ ")"
  | .notText => "stream did not contain valid UTF-8"
  | .nulInPath => "file name contained an unexpected NUL byte"
  | .other message => message

/-- The kinds of fault that a caller can tell apart. -/
inductive FaultKind where
  | notFound
  | permissionDenied
  | alreadyExists
  | notADirectory
  | isADirectory
  | invalidFilename
  | invalidInput
  | invalidData
  | other
  deriving DecidableEq, Repr

def Refusal.kind : Refusal → FaultKind
  | .noEntry => .notFound
  | .accessDenied => .permissionDenied
  | .exists => .alreadyExists
  | .notDirectory => .notADirectory
  | .isDirectory => .isADirectory
  | .nameTooLong => .invalidFilename
  | .other _ _ => .other

def Fault.kind : Fault → FaultKind
  | .noSuchFile _ => .notFound
  | .noSuchRoot _ => .notFound
  | .badPattern _ _ => .invalidInput
  | .denied _ => .permissionDenied
  | .refused refusal => refusal.kind
  | .notText => .invalidData
  | .nulInPath => .invalidInput
  | .other _ => .other

end RouteScaffold.Store
