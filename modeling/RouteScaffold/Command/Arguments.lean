/-! Arguments of a command.

A switch has a long name behind two hyphens and may have a letter behind one.
Letters may stand together. The value of a switch follows as the next argument, or
behind an equals sign; behind a letter it may follow at once. An argument that
starts with a hyphen is no value unless it is the hyphen alone, and most switches
may be given once.

Arguments are read from left to right and the first thing that is wrong, or that
asks for something else, ends the reading. -/
namespace RouteScaffold.Command

/-- What a switch does. -/
inductive Effect where
  | mark
  /-- May be given any number of times. -/
  | count
  /-- Takes a text, which may be empty. -/
  | text
  /-- Takes a path, which may not be empty. -/
  | path
  /-- Asks for help and ends the reading. -/
  | help
  /-- Asks for the version and ends the reading. -/
  | version
  deriving DecidableEq, Repr

structure Switch where
  name : String
  letter : Option Char := none
  effect : Effect
  deriving Repr

/-- Why reading ended early. -/
inductive Stop where
  | misuse
  | help
  | version
  deriving DecidableEq, Repr

/-- The switches that were given, with their values. -/
abbrev Given := List (String × String)

def Given.has (given : Given) (name : String) : Bool := (given.lookup name).isSome

namespace Switch

def takesValue (s : Switch) : Bool := s.effect == .text || s.effect == .path

/-- Notes a switch with its value. -/
def note (s : Switch) (value : String) (given : Given) : Except Stop Given :=
  if s.effect == .path && value.isEmpty then .error .misuse
  else if s.effect != .count && given.has s.name then .error .misuse
  else .ok (given ++ [(s.name, value)])

/-- Notes a switch that takes no value. -/
def noteAlone (s : Switch) (given : Given) : Except Stop Given :=
  match s.effect with
  | .help => .error .help
  | .version => .error .version
  | _ => s.note "" given

end Switch

/-- Whether an argument can be a value. -/
def isValue (arg : String) : Bool := !arg.startsWith "-" || arg == "-"

/-- A long name, with the value behind an equals sign if there is one. -/
def longParts (text : List Char) : String × Option String :=
  (String.ofList (text.takeWhile (· != '=')),
    match text.dropWhile (· != '=') with
    | [] => none
    | _ :: value => some (String.ofList value))

/-- What reading an argument comes to: all is noted, or a switch waits for its value. -/
inductive Reading where
  | done (given : Given)
  | waiting (switch : Switch) (given : Given)

def readLong (switches : List Switch) (given : Given) (text : List Char) : Except Stop Reading := do
  let (name, value) := longParts text
  match switches.find? (·.name == name), value with
  | none, _ => throw .misuse
  | some switch, none =>
    if switch.takesValue then return .waiting switch given
    return .done (← switch.noteAlone given)
  | some switch, some value =>
    if switch.takesValue then return .done (← switch.note value given)
    throw .misuse

/-- Reads letters that stand together. -/
def readLetters (switches : List Switch) (given : Given) : List Char → Except Stop Reading
  | [] => .ok (.done given)
  | c :: rest =>
    match switches.find? (·.letter == some c) with
    | none => .error .misuse
    | some switch =>
      if switch.takesValue then
        match rest with
        | [] => .ok (.waiting switch given)
        | '=' :: value => (switch.note (String.ofList value) given).map .done
        | value => (switch.note (String.ofList value) given).map .done
      else
        match switch.noteAlone given with
        | .ok given => readLetters switches given rest
        | .error stop => .error stop

/-- Reads switches up to the first argument that is none. Gives those arguments back too. -/
def readSwitches (switches : List Switch) (given : Given) :
    List String → Except Stop (Given × List String)
  | [] => .ok (given, [])
  | arg :: rest =>
    if isValue arg || arg == "--" then .ok (given, arg :: rest)
    else
      let reading := match arg.toList with
        | '-' :: '-' :: text => readLong switches given text
        | _ :: letters => readLetters switches given letters
        | [] => .error .misuse
      match reading, rest with
      | .error stop, _ => .error stop
      | .ok (.done given), rest => readSwitches switches given rest
      | .ok (.waiting _ _), [] => .error .misuse
      | .ok (.waiting switch given), value :: rest =>
        if isValue value then
          match switch.note value given with
          | .ok given => readSwitches switches given rest
          | .error stop => .error stop
        else .error .misuse

/-- Reads arguments that are switches only; two hyphens may end them. -/
def readAll (switches : List Switch) (args : List String) : Except Stop Given := do
  let (given, rest) ← readSwitches switches [] args
  if rest.isEmpty || rest == ["--"] then return given
  throw .misuse

end RouteScaffold.Command
