import RouteScaffold.Artifact.Files
import RouteScaffold.Route.Scan
import RouteScaffold.Source.Validator
import RouteScaffold.Store.Basic

/-! A run.

A run first plans and then writes. Planning enumerates the descriptor files, reads
all of them and renders every route directory; nothing is written before the last
of these has succeeded. Writing makes each output directory that does not exist
and writes its files; the first failure ends the run where it is. -/
namespace RouteScaffold.Run
open Route Artifact Store

/-- The name of the output directory within each route directory. -/
def defaultOutputDir : String := ".generated"

structure Options where
  /-- The name of a convention, or the word for telling it from each directory. -/
  framework : String := Convention.detecting
  /-- Where to look for descriptors; a relative root starts at the working directory. -/
  root : Option Path := none
  outputDir : String := defaultOutputDir
  pattern : String := descriptorPattern
  deriving DecidableEq, Repr

/-- Why a run failed. -/
inductive Failure where
  | unknownFramework (name : String) (available : List String)
  | noDescriptors (root : Path)
  | store (path : Path) (fault : Fault)
  deriving DecidableEq, Repr

/-- The text of a failure of the store, given the text of its fault. -/
def Failure.storeMessage (path : Path) (fault : String) : String :=
  "I/O error at " ++ path.text ++ ": " ++ fault

def Failure.message : Failure → String
  | .unknownFramework name available =>
    "Unknown framework '" ++ name ++ "'. Available frameworks: " ++ ", ".intercalate available
  | .noDescriptors root =>
    "No route config files found in " ++ root.text ++ ". Expected files named " ++
      "route.<method>.config.<ext> where <method> is one of get, post, put, patch, delete"
  | .store path fault => Failure.storeMessage path fault.message

/-- A route directory and the names of the files written for it. -/
structure Generated where
  directory : Path
  files : List String
  deriving DecidableEq, Repr

/-- What is told of a run: what it wrote, or why it failed. -/
structure Report where
  success : Bool
  generated : Option (List Generated) := none
  error : Option String := none
  deriving DecidableEq, Repr

/-- The report of a run that ended with this result. -/
def Report.ofResult : Except Failure (List Generated) → Report
  | .ok generated => { success := true, generated := some generated }
  | .error failure => { success := false, error := some failure.message }

/-- The rendered files of one route directory. -/
structure Planned where
  directory : Path
  outputPath : Path
  files : List File
  deriving DecidableEq, Repr

/-- The convention that a framework name fixes; none if it is to be told from each directory. -/
def choose (framework : String) : Except Failure (Option Convention) :=
  if framework == Convention.detecting then .ok none
  else
    match Convention.named? framework with
    | some convention => .ok (some convention)
    | none => .error (.unknownFramework framework (Convention.all.map Convention.name))

variable {m : Type → Type} [Monad m]

/-- A store operation at a path, its fault told with the path. -/
def attempt {α : Type} (path : Path) (run : m (Except Fault α)) : ExceptT Failure m α :=
  ExceptT.mk do return (← run).mapError (Failure.store path)

/-- Where a run looks for descriptors. -/
def Options.rootIn (options : Options) (store : Store m) : m Path := do
  let workingDir ← store.workingDir
  return match options.root with
    | some root => workingDir.resolve root
    | none => workingDir

/-- The files of a group whose descriptors have been read. -/
def render (fixed : Option Convention) (outputDir : String) (root : Path) (group : Group)
    (configs : List Descriptor) : Planned :=
  let convention := fixed.getD (.ofDirectory group.directory)
  let endpoint := Endpoint.ofDirectory convention group.directory configs
  { directory := group.directory
    outputPath := (root.join group.directory).join ⟨outputDir⟩
    files := endpoint.files convention }

def readDescriptor (store : Store m) (file : DescriptorFile) : ExceptT Failure m Descriptor := do
  let source ← attempt file.location (store.read file.location)
  return Descriptor.ofSource file.method file.fileName source

def planGroup (store : Store m) (fixed : Option Convention) (outputDir : String) (root : Path)
    (group : Group) : ExceptT Failure m Planned := do
  let configs ← group.files.mapM (readDescriptor store)
  return render fixed outputDir root group configs

/-- Enumerates, reads and renders. -/
def plan (store : Store m) (options : Options) : ExceptT Failure m (List Planned) := do
  let fixed ← ExceptT.mk (pure (choose options.framework))
  let root ← ExceptT.lift (options.rootIn store)
  let candidates ← attempt root (store.glob root options.pattern)
  match groupsOf root candidates with
  | [] => throw (.noDescriptors root)
  | groups => groups.mapM (planGroup store fixed options.outputDir root)

def writeFile (store : Store m) (outputPath : Path) (file : File) : ExceptT Failure m Unit :=
  let path := outputPath.join ⟨file.name⟩
  attempt path (store.write path file.content)

def writePlanned (store : Store m) (planned : Planned) : ExceptT Failure m Generated := do
  unless ← store.has planned.outputPath do
    attempt planned.outputPath (store.makeDir planned.outputPath)
  planned.files.forM (writeFile store planned.outputPath)
  return ⟨planned.directory, planned.files.map (·.name)⟩

/-- Plans, then writes, and tells what was written. -/
def generate (store : Store m) (options : Options) : m (Except Failure (List Generated)) :=
  ExceptT.run do
    let planned ← plan store options
    planned.mapM (writePlanned store)

end RouteScaffold.Run
