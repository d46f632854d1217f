import RouteScaffold.Path.Basic
import RouteScaffold.Route.Method

/-! Finding descriptor files.

A descriptor file is named `route.<method>.config.<ext>`, with an extension that
has no dot. Out of the candidates that an enumeration proposes, the descriptor
files are kept and grouped by their directory. Groups stand in the order of their
directories, and a directory that is spelled in several ways is one group, named
as it was first seen; the files of a group stand in the order of their method's
token, then of their names. -/
namespace RouteScaffold.Route
open Text

/-- The candidates worth proposing. -/
def descriptorPattern : String := "**/route.*.config.*"

/-- The text behind `word`, if the text starts with it. -/
def behind? (word : String) (cs : List Char) : Option (List Char) :=
  if word.toList.isPrefixOf cs then some (cs.drop word.length) else none

/-- The method that the name of a descriptor file carries. -/
def methodOf? (fileName : String) : Option Method := do
  let rest ← behind? "route." fileName.toList
  let token := rest.takeWhile (· != '.')
  let extension ← behind? ".config." (rest.drop token.length)
  if extension.isEmpty || extension.contains '.' then none
  else Method.ofToken? (String.ofList token)

structure DescriptorFile where
  /-- The containing directory, relative to the root. -/
  directory : Path
  method : Method
  fileName : String
  /-- Where the file is read. -/
  location : Path
  deriving DecidableEq, Repr

structure Group where
  directory : Path
  files : List DescriptorFile
  deriving DecidableEq, Repr

/-- The descriptor file that a candidate below `root` is, if it is one. -/
def DescriptorFile.ofCandidate? (root candidate : Path) : Option DescriptorFile := do
  let fileName ← candidate.fileName?
  let method ← methodOf? fileName
  pure ⟨candidate.parent?.getD ⟨""⟩, method, fileName, root.join candidate⟩

/-- Puts a file into the group of its directory, at its place among the groups. -/
def insertFile (file : DescriptorFile) : List Group → List Group
  | [] => [⟨file.directory, [file]⟩]
  | group :: groups =>
    match file.directory.compare group.directory with
    | .lt => ⟨file.directory, [file]⟩ :: group :: groups
    | .eq => { group with files := group.files ++ [file] } :: groups
    | .gt => group :: insertFile file groups

/-- Whether `a` may stand before `b` in a group. -/
def DescriptorFile.le (a b : DescriptorFile) : Bool :=
  a.method.token < b.method.token ||
    (a.method.token == b.method.token && decide (a.fileName ≤ b.fileName))

def Group.sorted (group : Group) : Group :=
  { group with files := group.files.mergeSort DescriptorFile.le }

/-- The descriptor files among the candidates, grouped by directory. -/
def groupsOf (root : Path) (candidates : List Path) : List Group :=
  let files := candidates.filterMap (DescriptorFile.ofCandidate? root)
  (files.foldl (fun groups file => insertFile file groups) []).map Group.sorted

end RouteScaffold.Route
