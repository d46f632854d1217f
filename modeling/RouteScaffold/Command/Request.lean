import RouteScaffold.Command.Arguments
import RouteScaffold.Settings

/-! What a command line asks for.

The first argument that is no switch names the command, and each command knows its
own switches. Verbosity may be asked for in front of the command or behind it; it
changes what is logged and nothing else. -/
namespace RouteScaffold.Command

/-- Where the settings of a run come from. -/
structure Sources where
  /-- The settings file, unless it is looked for at the usual place. -/
  file : Option Path := none
  overrides : Settings.Overrides := {}
  deriving DecidableEq, Repr

inductive Request where
  | generate (sources : Sources) (dryRun watch json : Bool)
  | check (sources : Sources)
  | frameworks
  | init (output : Path) (force : Bool)
  | help
  | version
  deriving DecidableEq, Repr

namespace Request

def verbosity : Switch := { name := "verbose", letter := some 'v', effect := .count }

def helping : Switch := { name := "help", letter := some 'h', effect := .help }

def common : List Switch := [verbosity, helping]

def runSwitches : List Switch :=
  [{ name := "framework", letter := some 'f', effect := .text },
   { name := "root", letter := some 'r', effect := .path },
   { name := "output-dir", effect := .text },
   { name := "config", letter := some 'c', effect := .path }]

def generateSwitches : List Switch :=
  [{ name := "dry-run", effect := .mark },
   { name := "watch", letter := some 'w', effect := .mark },
   { name := "json", effect := .mark }]

def initSwitches : List Switch :=
  [{ name := "output", letter := some 'o', effect := .path },
   { name := "force", effect := .mark }]

def rootSwitches : List Switch :=
  [{ name := "version", letter := some 'V', effect := .version }]

/-- The sources that some switches give. -/
def sourcesOf (given : Given) : Sources :=
  { file := (given.lookup "config").map Path.mk
    overrides :=
      { root := (given.lookup "root").map Path.mk
        framework := given.lookup "framework"
        outputDir := given.lookup "output-dir" } }

/-- The request that a command's name and its arguments make. -/
def ofCommand (name : String) (args : List String) : Except Stop Request := do
  match name with
  | "generate" =>
    let given ← readAll (common ++ runSwitches ++ generateSwitches) args
    return .generate (sourcesOf given) (given.has "dry-run") (given.has "watch") (given.has "json")
  | "check" => return .check (sourcesOf (← readAll (common ++ runSwitches) args))
  | "frameworks" =>
    let _ ← readAll common args
    return .frameworks
  | "init" =>
    let given ← readAll (common ++ initSwitches) args
    return .init ⟨(given.lookup "output").getD Settings.fileName⟩ (given.has "force")
  | _ => throw .misuse

/-- The commands, in the order in which help lists them. -/
def commands : List String := ["generate", "check", "frameworks", "init"]

def ofArguments (args : List String) : Except Stop Request := do
  match ← readSwitches (common ++ rootSwitches) [] args with
  | (_, []) => throw .misuse
  | (_, name :: args) =>
    if name == "help" then
      match args with
      | [] => return .help
      | [topic] => if (commands ++ ["help"]).contains topic then return .help else throw .misuse
      | _ => throw .misuse
    else ofCommand name args

/-- The request that a command line makes; none if it makes none. -/
def parse? (args : List String) : Option Request :=
  match ofArguments args with
  | .ok request => some request
  | .error .help => some .help
  | .error .version => some .version
  | .error .misuse => none

end Request
end RouteScaffold.Command
