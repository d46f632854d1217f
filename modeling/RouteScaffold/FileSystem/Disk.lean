import RouteScaffold.FileSystem.Basic
import RouteScaffold.Text.Separate

/-! A disk as a value.

A disk is a tree of directories and files, held as the list of its entries, each
with the names that lead to it from the root. It answers as a machine's disk
without links and permissions does, refusals included. A path is followed name by
name, so what fails first on the way decides; a dot stays, two dots go up. -/
namespace RouteScaffold
open Store Text

inductive Node where
  | file (content : ByteArray)
  | dir

def Node.kind : Node → EntryKind
  | .file _ => .file
  | .dir => .dir

structure Disk where
  /-- The names that lead to the working directory. -/
  workingDir : List String := []
  entries : List (List String × Node) := []

namespace Disk

/-- What the names from the root lead to. -/
def node? (disk : Disk) (names : List String) : Option Node :=
  if names.isEmpty then some .dir else disk.entries.lookup names

/-! ### Following paths -/

/-- Where a path leads before it is asked what lies there. -/
inductive Place where
  /-- A directory: the path ends in a dot, in two dots, or is the root. -/
  | dir (names : List String)
  /-- A name in a directory. A slash behind the name asks for a directory. -/
  | entry (dir : List String) (name : String) (slash : Bool)

def longestName : Nat := 255

def longestPath : Nat := 4095

/-- What a name in a directory stands for. -/
def enter (disk : Disk) (dir : List String) (name : String) : Except Refusal Node :=
  if name.utf8ByteSize > longestName then .error .nameTooLong
  else
    match disk.node? (dir ++ [name]) with
    | none => .error .noEntry
    | some node => .ok node

/-- Follows the parts of a path from a directory. -/
def follow (disk : Disk) (slash : Bool) (dir : List String) :
    List String → Except Refusal Place
  | [] => .ok (.dir dir)
  | part :: rest =>
    if part == "." then follow disk slash dir rest
    else if part == ".." then follow disk slash dir.dropLast rest
    else if rest.isEmpty then .ok (.entry dir part slash)
    else
      match disk.enter dir part with
      | .error refusal => .error refusal
      | .ok (.file _) => .error .notDirectory
      | .ok .dir => follow disk slash (dir ++ [part]) rest

def locate (disk : Disk) (path : Path) : Except Refusal Place :=
  let parts := separate (· == '/') path.text.toList
  let names := (parts.filter (!·.isEmpty)).map String.ofList
  if path.text == "" then .error .noEntry
  else if path.text.utf8ByteSize > longestPath then .error .nameTooLong
  else
    disk.follow (parts.getLast? == some []) (if path.isAbsolute then [] else disk.workingDir) names

/-- What lies at a place, with the names that lead there. -/
def resolve (disk : Disk) (path : Path) : Except Refusal (List String × Node) := do
  match ← disk.locate path with
  | .dir names => return (names, .dir)
  | .entry dir name slash =>
    match ← disk.enter dir name with
    | .file content =>
      if slash then throw .notDirectory
      return (dir ++ [name], .file content)
    | .dir => return (dir ++ [name], .dir)

/-! ### Reading -/

def read (disk : Disk) (path : Path) : Except Refusal ByteArray := do
  match ← disk.resolve path with
  | (_, .file content) => return content
  | (_, .dir) => throw .isDirectory

/-- The name of an entry that lies right in a directory. -/
def nameIn? (dir names : List String) : Option String :=
  match dir.isPrefixOf? names with
  | some [name] => some name
  | _ => none

def listing (disk : Disk) (path : Path) : Except Refusal (List (String × EntryKind)) := do
  match ← disk.resolve path with
  | (_, .file _) => throw .notDirectory
  | (dir, .dir) =>
    return disk.entries.filterMap fun (names, node) =>
      (nameIn? dir names).map fun name => (name, node.kind)

def pathOf (names : List String) : Path := ⟨"/" ++ "/".intercalate names⟩

/-! ### Writing -/

/-- Puts a node where names lead, over the one that is there. -/
def put (disk : Disk) (names : List String) (node : Node) : Disk :=
  { disk with entries := disk.entries.filter (·.1 != names) ++ [(names, node)] }

def write (disk : Disk) (path : Path) (content : ByteArray) : Except Refusal Disk := do
  match ← disk.locate path with
  | .dir _ => throw .isDirectory
  | .entry _ _ true => throw .isDirectory
  | .entry dir name false =>
    match disk.enter dir name with
    | .ok .dir => throw .isDirectory
    | .error .nameTooLong => throw .nameTooLong
    | _ => return disk.put (dir ++ [name]) (.file content)

def makeDir (disk : Disk) (path : Path) : Except Refusal Disk := do
  match ← disk.locate path with
  | .dir _ => throw .exists
  | .entry dir name _ =>
    match disk.enter dir name with
    | .ok _ => throw .exists
    | .error .noEntry => return disk.put (dir ++ [name]) .dir
    | .error refusal => throw refusal

/-- Takes a file away. -/
def remove (disk : Disk) (path : Path) : Except Refusal Disk := do
  match ← disk.resolve path with
  | (_, .dir) => throw .isDirectory
  | (names, .file _) => return { disk with entries := disk.entries.filter (·.1 != names) }

/-! ### The file system -/

/-- An answer about a path, unless no path can be spelled so. -/
def spelled {α : Type} (path : Path) (answer : Except Refusal α) : Except Fault α :=
  if path.text.toList.contains '\x00' then .error .nulInPath else answer.mapError .refused

/-- Changes the disk, or leaves it as it is when the change is refused. -/
def change (path : Path) (act : Disk → Except Refusal Disk) : StateM Disk (Except Fault Unit) := do
  match spelled path (act (← get)) with
  | .ok disk =>
    set disk
    return .ok ()
  | .error fault => return .error fault

def fileSystem : FileSystem (StateM Disk) :=
  { kindAt := fun path => return (spelled path ((← get).resolve path)).toOption.map (·.2.kind)
    entries := fun path => return spelled path ((← get).listing path)
    read := fun path => return spelled path ((← get).read path)
    write := fun path content => change path (·.write path content)
    makeDir := fun path => change path (·.makeDir path)
    realPath := fun path =>
      return (spelled path ((← get).resolve path)).toOption.map fun found => pathOf found.1
    workingDir := return pathOf (← get).workingDir }

end Disk
end RouteScaffold
