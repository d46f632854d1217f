import RouteScaffold.Command.Failure
import RouteScaffold.Command.Request
import RouteScaffold.FileSystem.Walk
import RouteScaffold.Store.DryRun
import RouteScaffold.Text.Json

/-! Performing a request.

A request is answered with lines for the reader and perhaps a failure. What a
command has to say before it fails is said all the same. -/
namespace RouteScaffold.Command
open Store Text

structure Outcome where
  lines : List String := []
  failure : Option Failure := none

/-! ### Lines -/

def alignLeft (width : Nat) (s : String) : String :=
  s ++ String.ofList (List.replicate (width - s.length) ' ')

def alignRight (width : Nat) (s : String) : String :=
  String.ofList (List.replicate (width - s.length) ' ') ++ s

/-- The lines that tell what was generated. -/
def generatedLines (generated : List Run.Generated) : List String :=
  generated.map (fun g =>
    "  ✓ " ++ g.directory.text ++ " (" ++ toString g.files.length ++ " files)") ++
  ["✓ Generated " ++ toString generated.length ++ " route director" ++
    if generated.length == 1 then "y" else "ies"]

def dryRunLine (written : Written) (status : Status) : String :=
  "[dry-run] " ++ alignRight 9 status.label ++ " " ++ written.path.text

def staleLine (written : Written) (status : Status) : String :=
  "  ✗ " ++ alignRight 7 status.label ++ " " ++ written.path.text

def frameworkLine (name description : String) : String :=
  "  " ++ alignLeft 14 name ++ " " ++ description

def generatedJson (g : Run.Generated) : Json :=
  .object [("directory", .text g.directory.text), ("files", .array (g.files.map .text))]

/-- A report as JSON; what it does not tell is left out. -/
def reportJson (report : Run.Report) : Json :=
  let generated := report.generated.map fun gs => ("generated", .array (gs.map generatedJson))
  let error := report.error.map fun text => ("error", .text text)
  .object (("success", .boolean report.success) :: (generated.toList ++ error.toList))

/-- The result of a run as JSON. -/
def resultJson (result : Except Run.Failure (List Run.Generated)) : Json :=
  reportJson (.ofResult result)

def failureOf : Except Run.Failure (List Run.Generated) → Option Failure
  | .ok _ => none
  | .error failure => some (.generation failure.message)

/-! ### Commands -/

variable {m : Type → Type} [Monad m] (files : FileSystem m)

/-- The settings that some sources make, if a run can start with them. -/
def settingsFrom (sources : Sources) : m (Except Settings.Failure Settings) := do
  match ← Settings.load (files.store true) sources.file with
  | .error failure => return .error failure
  | .ok settings =>
    let settings := settings.override sources.overrides
    match settings.defect? with
    | some defect => return .error (.ofDefect defect)
    | none => return .ok settings

/-- A run on the overlay, with what it would write and how that compares with the disk. -/
def rehearse (settings : Settings) :
    m (Except Run.Failure (List Run.Generated) × List (Written × Status)) := do
  let store := files.store settings.respectIgnored
  let (result, notes) ← (Run.generate (dryRun store) settings.options).run {}
  return (result, ← statuses store notes)

def generate (settings : Settings) (dry json : Bool) : m Outcome := do
  let opening := "Generating route artifacts in " ++ settings.root.text ++ " (framework: " ++
    settings.framework ++ ")"
  let (result, told) ← if dry then do
      let (result, found) ← rehearse files settings
      pure (result, found.map fun (written, status) => dryRunLine written status)
    else do
      let result ← Run.generate (files.store settings.respectIgnored) settings.options
      pure (result, match result with
        | .ok generated => generatedLines generated
        | .error _ => [])
  let lines :=
    if json then [(resultJson result).print 0]
    else opening :: if result.toBool then told else []
  return { lines, failure := failureOf result }

def check (settings : Settings) : m Outcome := do
  let opening := "Checking generated route artifacts..."
  let (result, found) ← rehearse files settings
  if let some failure := failureOf result then return { lines := [opening], failure }
  match found.filter (·.2 != .unchanged) with
  | [] => return { lines := [opening, "✓ Generated files are up-to-date"] }
  | stale => return {
      lines := opening :: stale.map (fun (written, status) => staleLine written status) ++
        ["  Run 'routegen generate' to update"]
      failure := some (.check (toString stale.length ++ " generated file(s) out of date")) }

def frameworks : Outcome :=
  { lines := "Available frameworks:" ::
      Convention.all.map (fun c => frameworkLine c.name c.description) ++
      [frameworkLine Convention.detecting
        "Detect per route directory from the closest `app` or `pages` segment"] }

/-- Writes a settings file, with the directories around it. -/
def init (output : Path) (force : Bool) : m Outcome := do
  let store := files.store true
  if (← store.has output) && !force then
    return { failure := some (.settings (.alreadyExists output)) }
  let made ← match output.parent?.filter (·.text != "") with
    | some dir => store.makeDir dir
    | none => pure (.ok ())
  if let .error fault := made then return { failure := some (.store fault) }
  match ← store.write output Settings.template with
  | .error fault => return { failure := some (.store fault) }
  | .ok _ => return { lines := ["✓ Created configuration file: " ++ output.text] }

/-- How the program is used. -/
def usage : List String :=
  ["Usage: routegen [-v] <COMMAND>",
   "",
   "Commands:",
   "  generate    Generate artifacts for every route descriptor directory",
   "              [--dry-run] [--watch] [--json]",
   "  check       Verify that generated artifacts are up-to-date",
   "  frameworks  List available framework generators",
   "  init        Initialize a new routegen configuration file",
   "              [--output <PATH>] [--force]",
   "",
   "Options of generate and check:",
   "  -f, --framework <NAME>   Generator name or \"auto\" to detect per directory",
   "  -r, --root <PATH>        Directory scanned for route descriptor files",
   "      --output-dir <NAME>  Name of the per-route output directory",
   "  -c, --config <PATH>      Configuration file path"]

def versionLine : String := "routegen 0.1.0"

/-- Answers a request. A file system cannot tell of changes, so it cannot be watched. -/
def perform (request : Request) : m Outcome := do
  match request with
  | .generate sources dryRun watch json =>
    match ← settingsFrom files sources with
    | .error failure => return { failure := some (.settings failure) }
    | .ok settings =>
      if watch then
        return { failure := some (.watch (.cannotStart "changes are not told on this system")) }
      generate files settings dryRun json
  | .check sources =>
    match ← settingsFrom files sources with
    | .error failure => return { failure := some (.settings failure) }
    | .ok settings => check files settings
  | .frameworks => return frameworks
  | .init output force => init files output force
  | .help => return { lines := usage }
  | .version => return { lines := [versionLine] }

/-! ### Replies -/

/-- What a command line comes to: the code it ends with and what it prints. -/
structure Reply where
  code : Nat
  output : String
  errors : String
  deriving DecidableEq, Repr

def printed (lines : List String) : String := String.join (lines.map (· ++ "\n"))

def Outcome.reply (outcome : Outcome) : Reply :=
  { code := (outcome.failure.map Failure.exitCode).getD 0
    output := printed outcome.lines
    errors := printed (outcome.failure.toList.map ("Error: " ++ ·.message)) }

/-- The reply to a command line. One that asks for nothing is told how to ask. -/
def reply (args : List String) : m Reply := do
  match Request.parse? args with
  | none => return { code := 2, output := "", errors := printed usage }
  | some request => return (← perform files request).reply

end RouteScaffold.Command
