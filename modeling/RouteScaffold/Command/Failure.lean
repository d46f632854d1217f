import RouteScaffold.Settings
import RouteScaffold.Watch

/-! Why a command fails, and the code it ends with. -/
namespace RouteScaffold.Command

inductive Failure where
  | settings (failure : Settings.Failure)
  | watch (failure : Watch.Failure)
  /-- The run failed, for a reason told by its text. -/
  | generation (reason : String)
  /-- The files on disk are not those a run would write. -/
  | check (finding : String)
  | store (fault : Store.Fault)
  deriving DecidableEq, Repr

namespace Failure

def message : Failure → String
  | .settings failure => "Failed to load configuration: " ++ failure.message
  | .watch failure => "Watch error: " ++ failure.message
  | .generation reason => "Generation failed: " ++ reason
  | .check finding => "Check failed: " ++ finding
  | .store fault => "IO error: " ++ fault.message

/-- A failed check has a code of its own, so that scripts can tell it from a failure to check. -/
def exitCode : Failure → Nat
  | .check _ => 2
  | _ => 1

end Failure
end RouteScaffold.Command
