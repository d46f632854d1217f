import RouteScaffold.Run
import RouteScaffold.Text.Blank
import RouteScaffold.Toml.Document

/-! Settings.

The settings of a project are read from a TOML file. A setting that is not there
has its default and a key that is not known is passed over, but a value of the
wrong type spoils the whole file. The command line may override some of them.

Reading does not judge the values. A run starts only from settings without a
`Defect`. -/
namespace RouteScaffold
open Text

structure Settings where
  root : Path := ⟨"."⟩
  framework : String := Convention.detecting
  outputDir : String := Run.defaultOutputDir
  pattern : String := Route.descriptorPattern
  /-- Whether files that version control ignores are passed over. -/
  respectIgnored : Bool := true
  deriving DecidableEq, Repr

namespace Settings

/-! ### Reading -/

/-- One setting of a section. A section is a table, or an array that gives its settings in
their order. -/
def slot? (section? : Option Toml.Value) (position : Nat) (key : String) :
    Option (Option Toml.Value) :=
  match section? with
  | none => some none
  | some (.table _ entries) => some (entries.lookup key)
  | some (.array items) => some items[position]?
  | some (.tables last earlier) =>
    some ((earlier.reverse ++ [last]).map (.table .header))[position]?
  | some _ => none

def text? (default : String) : Option Toml.Value → Option String
  | none => some default
  | some (.text s) => some s
  | some _ => none

def boolean? (default : Bool) : Option Toml.Value → Option Bool
  | none => some default
  | some (.boolean b) => some b
  | some _ => none

/-- The settings in a document, unless a value has the wrong type. -/
def ofTable? (document : Toml.Table) : Option Settings := do
  let project := document.lookup "project"
  let output := document.lookup "output"
  let scan := document.lookup "scan"
  let standard : Settings := {}
  return {
    root := ⟨← text? standard.root.text (← slot? project 0 "root")⟩
    framework := ← text? standard.framework (← slot? project 1 "framework")
    outputDir := ← text? standard.outputDir (← slot? output 0 "dir")
    pattern := ← text? standard.pattern (← slot? scan 0 "pattern")
    respectIgnored := ← boolean? standard.respectIgnored (← slot? scan 1 "respect_gitignore") }

def ofText? (text : String) : Option Settings := do ofTable? (← Toml.parse? text)

/-! ### Overriding -/

/-- The settings that the command line gives. -/
structure Overrides where
  root : Option Path := none
  framework : Option String := none
  outputDir : Option String := none
  deriving DecidableEq, Repr

def override (s : Settings) (given : Overrides) : Settings :=
  { s with
    root := given.root.getD s.root
    framework := given.framework.getD s.framework
    outputDir := given.outputDir.getD s.outputDir }

/-- The options of a run with these settings. -/
def options (s : Settings) : Run.Options :=
  { framework := s.framework, root := some s.root, outputDir := s.outputDir, pattern := s.pattern }

/-! ### Judging -/

/-- What a run cannot start with. -/
inductive Defect where
  | unknownFramework (name : String)
  /-- The output directory is not one name. -/
  | notOneName (dir : String)
  | emptyPattern
  deriving DecidableEq, Repr

namespace Defect

/-- The setting that has the defect. -/
def key : Defect → String
  | .unknownFramework _ => "project.framework"
  | .notOneName _ => "output.dir"
  | .emptyPattern => "scan.pattern"

def message : Defect → String
  | .unknownFramework name =>
    "Unknown framework '" ++ name ++ "'. Expected " ++ Convention.detecting ++ " or one of: " ++
      ", ".intercalate (Convention.all.map Convention.name)
  | .notOneName dir => "'" ++ dir ++ "' must be a single directory name"
  | .emptyPattern => "must not be empty"

end Defect

/-- Whether a text, without the blanks around it, can name a directory within another. -/
def isOneName (dir : String) : Bool :=
  let name := trim dir.toList
  !name.isEmpty && name != ['.'] && name != ['.', '.'] && !name.any fun c => c == '/' || c == '\\'

/-- The first defect; the framework is looked at first and the pattern last. -/
def defect? (s : Settings) : Option Defect :=
  if !Convention.isKnown s.framework then some (.unknownFramework s.framework)
  else if !isOneName s.outputDir then some (.notOneName s.outputDir)
  else if (trim s.pattern.toList).isEmpty then some .emptyPattern
  else none

/-! ### The settings file -/

/-- Why there are no settings to run with. -/
inductive Failure where
  /-- What is wrong with the text is told where it is known. -/
  | notToml (path : Path) (detail : Option String)
  | badValue (key message : String)
  | alreadyExists (path : Path)
  | unreadable (path : Path) (fault : Store.Fault)
  deriving DecidableEq, Repr

def Failure.message : Failure → String
  | .notToml path detail =>
    "Invalid TOML in " ++ path.text ++ (detail.map (": " ++ ·)).getD ""
  | .badValue key message => "Invalid configuration value for '" ++ key ++ "': " ++ message
  | .alreadyExists path =>
    "Configuration file already exists: " ++ path.text ++ " (use --force to overwrite)"
  | .unreadable path fault => "Failed to read config " ++ path.text ++ ": " ++ fault.message

def Failure.ofDefect (defect : Defect) : Failure := .badValue defect.key defect.message

/-- Where settings are looked for unless a path is given. -/
def fileName : String := "routegen.toml"

def read (path : Path) (text : String) : Except Failure Settings :=
  match ofText? text with
  | some settings => .ok settings
  | none => .error (.notToml path none)

/-- The settings in a file. A file at the usual place may be missing; one that was asked for may
not. -/
def load {m : Type → Type} [Monad m] (store : Store m) (given : Option Path) :
    m (Except Failure Settings) := do
  let path := given.getD ⟨fileName⟩
  if given.isNone && !(← store.has path) then return .ok {}
  match ← store.read path with
  | .ok text => return read path text
  | .error fault => return .error (.unreadable path fault)

/-- A settings file that gives every setting its default, with comments. -/
def template : String := r#"# routegen configuration file

[project]
# Directory scanned for route descriptor files (route.<method>.config.<ext>)
root = "."

# Target convention: "auto" detects per route directory from its closest
# `app` or `pages` path segment; "app-router" or "pages-router" forces one
framework = "auto"

[output]
# Subdirectory created next to each route's descriptor files
dir = ".generated"

[scan]
# Glob pattern for candidate descriptor files, relative to the project root
pattern = "**/route.*.config.*"

# Skip descriptors in files ignored by .gitignore
respect_gitignore = true
"#

end Settings
end RouteScaffold
