import RouteScaffold.Command.Perform

/-! The program.

It answers the command line over the disk of the machine. All that is decided is
decided by `Command.reply`; here its questions are passed on to the system and its
reply is printed. -/
namespace RouteScaffold.Machine
open Store

/-- What the system says when something fails. -/
def faultOf : IO.Error → Fault
  | .noFileOrDirectory _ number text => .refused (.ofNumber number.toNat text)
  | .permissionDenied _ number text => .refused (.ofNumber number.toNat text)
  | .alreadyExists _ number text => .refused (.ofNumber number.toNat text)
  | .inappropriateType _ number text => .refused (.ofNumber number.toNat text)
  | .invalidArgument _ number text => .refused (.ofNumber number.toNat text)
  | .resourceExhausted _ number text => .refused (.ofNumber number.toNat text)
  | .noSuchThing _ number text => .refused (.ofNumber number.toNat text)
  | .otherError number text => .refused (.ofNumber number.toNat text)
  | error => .other (toString error)

def attempt {α : Type} (act : IO α) : IO (Except Fault α) := do
  try return .ok (← act) catch error => return .error (faultOf error)

def kindOf : IO.FS.FileType → EntryKind
  | .file => .file
  | .dir => .dir
  | _ => .other

/-- The disk of the machine. -/
def fileSystem : FileSystem IO :=
  { kindAt := fun path => do
      let here ← IO.currentDir
      let found ← attempt (here / path.text).metadata
      return found.toOption.map fun metadata => kindOf metadata.type
    entries := fun path => attempt do
      let here ← IO.currentDir
      let found ← (here / path.text).readDir
      found.toList.mapM fun entry => do
        return (entry.fileName, kindOf (← entry.path.symlinkMetadata).type)
    read := fun path => attempt (IO.FS.readBinFile path.text)
    write := fun path content => attempt (IO.FS.writeBinFile path.text content)
    makeDir := fun path => attempt (IO.FS.createDir path.text)
    realPath := fun path => do
      let found ← attempt (IO.FS.realPath path.text)
      return found.toOption.map fun real => ⟨toString real⟩
    workingDir := do return ⟨toString (← IO.currentDir)⟩ }

end RouteScaffold.Machine

open RouteScaffold in
def main (args : List String) : IO UInt32 := do
  let reply ← Command.reply Machine.fileSystem args
  IO.print reply.output
  IO.eprint reply.errors
  return UInt32.ofNat reply.code
