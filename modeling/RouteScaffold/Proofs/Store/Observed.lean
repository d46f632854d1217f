import RouteScaffold.Run
import RouteScaffold.Store.Memory

/-! An observed store.

To say what a run does to a store, and in which order, the store in memory is put
under observation: each operation that can fail leaves an event in a log, with the
word whether it was completed. Faults may be injected into any of them, and
whether one is may depend on all that happened before. -/
namespace RouteScaffold.Store

/-- What reading a path of a store in memory gives, from what is there. -/
def textAt (path : Path) : Option String → Except Fault String
  | some content => .ok content
  | none => .error (.noSuchFile path)

/-- An operation asked of a store that can fail. -/
inductive Call where
  | glob (root : Path) (pattern : String)
  | read (path : Path)
  | makeDir (path : Path)
  | write (path : Path) (content : String)
  deriving DecidableEq, Repr

/-- Whether the operation changes the store. -/
def Call.isChange : Call → Bool
  | .glob _ _ | .read _ => false
  | .makeDir _ | .write _ _ => true

/-- What an operation does to a memory state when it is completed. -/
def Call.perform (s : Memory) (call : Call) : Memory :=
  match call with
  | .glob _ _ | .read _ => s
  | .makeDir path => s.makeDir path
  | .write path content => s.write path content

theorem Call.perform_of_look {call : Call} (h : call.isChange = false) (s : Memory) :
    Call.perform s call = s := by
  cases call with
  | glob | read => rfl
  | makeDir | write => cases h

structure Event where
  call : Call
  completed : Bool
  deriving DecidableEq, Repr

/-- What happened, in the order of the calls. -/
abbrev Log := List Event

/-- The fault that is injected into a call, if one is, given all that happened before it. -/
abbrev Faults := Log → Call → Option Fault

namespace Log

/-- The changes that were completed. -/
def changes (log : Log) : List Call :=
  (log.filter fun e => e.completed && e.call.isChange).map Event.call

@[simp] theorem changes_append (a b : Log) : changes (a ++ b) = changes a ++ changes b := by
  simp [changes]

/-- The files that were written, with their contents. -/
def written (log : Log) : List (Path × String) :=
  log.changes.filterMap fun
    | .write path content => some (path, content)
    | _ => none

/-- The directories that were made. -/
def made (log : Log) : List Path :=
  log.changes.filterMap fun
    | .makeDir path => some path
    | _ => none

@[simp] theorem written_append (a b : Log) : written (a ++ b) = written a ++ written b := by
  simp [written]

@[simp] theorem made_append (a b : Log) : made (a ++ b) = made a ++ made b := by
  simp [made]

/-- Looking changes nothing. -/
theorem changes_of_looks {log : Log} (h : ∀ e ∈ log, e.call.isChange = false) :
    changes log = [] := by
  rw [changes, List.map_eq_nil_iff, List.filter_eq_nil_iff]
  intro e he
  simp [h e he]

theorem written_of_looks {log : Log} (h : ∀ e ∈ log, e.call.isChange = false) :
    written log = [] := by
  rw [written, changes_of_looks h]
  rfl

end Log

namespace Faults

/-- No fault is injected. -/
def never : Faults := fun _ _ => none

/-- The same faults, but none in making directories and writing. -/
def sparingChanges (faults : Faults) : Faults := fun log call =>
  if call.isChange then none else faults log call

/-- No change is hindered. -/
def SparesChanges (faults : Faults) : Prop :=
  ∀ log call, call.isChange = true → faults log call = none

theorem sparesChanges_never : never.SparesChanges := fun _ _ _ => rfl

theorem sparesChanges_sparingChanges (faults : Faults) : faults.sparingChanges.SparesChanges :=
  fun _ _ h => if_pos h

end Faults

variable {m : Type → Type} [Monad m]

/-- Asks the store unless a fault is injected, and logs how it went. -/
def observe {α : Type} (faults : Faults) (call : Call) (run : m (Except Fault α)) :
    StateT Log m (Except Fault α) := do
  match faults (← get) call with
  | some fault =>
    modify (· ++ [⟨call, false⟩])
    return .error fault
  | none =>
    let result ← run
    modify (· ++ [⟨call, result.toBool⟩])
    return result

/-- The store under observation. -/
def observed (faults : Faults) (store : Store m) : Store (StateT Log m) :=
  { glob := fun root pattern => observe faults (.glob root pattern) (store.glob root pattern)
    read := fun path => observe faults (.read path) (store.read path)
    write := fun path content => observe faults (.write path content) (store.write path content)
    makeDir := fun path => observe faults (.makeDir path) (store.makeDir path)
    has := fun path => store.has path
    workingDir := store.workingDir }

end RouteScaffold.Store

namespace RouteScaffold.Run
open Store

/-! ### Running -/

/-- A computation of a run over a memory state and a state of some other kind. -/
abbrev Process (σ α : Type) := ExceptT Failure (StateT σ (StateM Memory)) α

/-- How a computation ends: its result, the other state and the memory state. -/
def exec {σ α : Type} (x : Process σ α) (t : σ) (s : Memory) : Except Failure α × σ × Memory :=
  let ((result, t), s) := ((ExceptT.run x).run t).run s
  (result, t, s)

section exec
variable {σ α β : Type} {t t' : σ} {s s' : Memory}

@[simp] theorem exec_pure (a : α) : exec (pure a) t s = (.ok a, t, s) := rfl

@[simp] theorem exec_throw (e : Failure) :
    exec (throw e : Process σ α) t s = (.error e, t, s) := rfl

theorem run_of_exec {x : Process σ α} {result : Except Failure α}
    (h : exec x t s = (result, t', s')) :
    ((ExceptT.run x).run t).run s = ((result, t'), s') := by
  rw [exec] at h
  rcases hx : ((ExceptT.run x).run t).run s with ⟨⟨r, t''⟩, s''⟩
  rw [hx] at h
  cases h
  rfl

theorem exec_bind (x : Process σ α) (f : α → Process σ β) :
    exec (x >>= f) t s =
      match exec x t s with
      | (.ok a, t', s') => exec (f a) t' s'
      | (.error e, t', s') => (.error e, t', s') := by
  rcases hx : ((ExceptT.run x).run t).run s with ⟨⟨r, t'⟩, s'⟩
  have hexec : exec x t s = (r, t', s') := by rw [exec, hx]
  rw [hexec]
  cases r <;> simp only [exec, ExceptT.run_bind, StateT.run_bind, hx] <;> rfl

theorem exec_bind_ok {x : Process σ α} {a : α} (h : exec x t s = (.ok a, t', s'))
    (f : α → Process σ β) : exec (x >>= f) t s = exec (f a) t' s' := by
  rw [exec_bind, h]

theorem exec_bind_error {x : Process σ α} {e : Failure} (h : exec x t s = (.error e, t', s'))
    (f : α → Process σ β) : exec (x >>= f) t s = (.error e, t', s') := by
  rw [exec_bind, h]

end exec

/-! ### What the observed store does -/

section operations
variable {faults : Faults} {log : Log} {s s' : Memory}

theorem run_observe {α : Type} (call : Call) (run : StateM Memory (Except Fault α)) :
    (observe faults call run).run log =
      match faults log call with
      | some fault => pure (.error fault, log ++ [⟨call, false⟩])
      | none => run >>= fun result => pure (result, log ++ [⟨call, result.toBool⟩]) := by
  show (match faults log call with
    | some fault => _
    | none => _ : StateT Log (StateM Memory) (Except Fault α)).run log = _
  cases faults log call <;> rfl

theorem exec_fault {α : Type} {call : Call} {fault : Fault} (h : faults log call = some fault)
    (path : Path) (run : StateM Memory (Except Fault α)) :
    exec (attempt path (observe faults call run)) log s =
      (.error (.store path fault), log ++ [⟨call, false⟩], s) := by
  simp only [exec, attempt, ExceptT.run_mk, StateT.run_bind, run_observe, h]
  rfl

theorem exec_no_fault {α : Type} {call : Call} {run : StateM Memory (Except Fault α)}
    {result : Except Fault α} (h : faults log call = none) (path : Path)
    (hrun : run.run s = (result, s')) :
    exec (attempt path (observe faults call run)) log s =
      (result.mapError (Failure.store path), log ++ [⟨call, result.toBool⟩], s') := by
  simp only [exec, attempt, ExceptT.run_mk, StateT.run_bind, run_observe, h, hrun]
  rfl

theorem exec_has (path : Path) :
    exec (ExceptT.lift ((observed faults memory).has path)) log s =
      (.ok (s.has path), log, s) := rfl

/-- Whether a file can be read behind what happened before. -/
def Readable (faults : Faults) (log : Log) (s : Memory) (path : Path) : Prop :=
  faults log (.read path) = none ∧ s.file? path ≠ none

theorem run_read (s : Memory) (path : Path) :
    (memory.read path).run s = (textAt path (s.file? path), s) := by
  simp only [memory, StateT.run_bind, StateT.run_get, pure_bind]
  cases s.file? path <;> rfl

theorem exec_read_ok {path : Path} (h : Readable faults log s path) :
    exec (attempt path ((observed faults memory).read path)) log s =
      (.ok ((s.file? path).getD ""), log ++ [⟨.read path, true⟩], s) := by
  obtain ⟨content, hfile⟩ := Option.ne_none_iff_exists'.mp h.2
  have hread := run_read s path
  rw [hfile] at hread ⊢
  exact exec_no_fault h.1 path hread

theorem exec_read_error {path : Path} (h : ¬ Readable faults log s path) :
    ∃ failure, exec (attempt path ((observed faults memory).read path)) log s =
      (.error failure, log ++ [⟨.read path, false⟩], s) := by
  cases hfault : faults log (.read path) with
  | some fault => exact ⟨_, exec_fault hfault path _⟩
  | none =>
    have hread := run_read s path
    rw [show s.file? path = none from Decidable.by_contra fun hne => h ⟨hfault, hne⟩] at hread
    exact ⟨_, exec_no_fault hfault path hread⟩

theorem exec_glob (root : Path) (text : String) :
    exec (attempt root ((observed faults memory).glob root text)) log s =
      match faults log (.glob root text) with
      | some fault => (.error (.store root fault), log ++ [⟨.glob root text, false⟩], s)
      | none => (((pattern text).map (s.matching root)).mapError (Failure.store root),
          log ++ [⟨.glob root text, (pattern text).toBool⟩], s) := by
  cases hfault : faults log (.glob root text) with
  | some fault => exact exec_fault hfault root _
  | none =>
    have htold : ((pattern text).map (s.matching root)).toBool = (pattern text).toBool := by
      cases pattern text <;> rfl
    rw [← htold]
    exact exec_no_fault hfault root rfl

theorem exec_change {call : Call} (path : Path) (run : StateM Memory (Except Fault Unit))
    (hrun : run.run s = (.ok (), s')) :
    exec (attempt path (observe faults call run)) log s =
      match faults log call with
      | some fault => (.error (.store path fault), log ++ [⟨call, false⟩], s)
      | none => (.ok (), log ++ [⟨call, true⟩], s') := by
  cases hfault : faults log call with
  | some fault => exact exec_fault hfault path run
  | none => exact exec_no_fault hfault path hrun

theorem exec_makeDir (path : Path) :
    exec (attempt path ((observed faults memory).makeDir path)) log s =
      match faults log (.makeDir path) with
      | some fault => (.error (.store path fault), log ++ [⟨.makeDir path, false⟩], s)
      | none => (.ok (), log ++ [⟨.makeDir path, true⟩], s.makeDir path) :=
  exec_change path (memory.makeDir path) rfl

theorem exec_write (path : Path) (content : String) :
    exec (attempt path ((observed faults memory).write path content)) log s =
      match faults log (.write path content) with
      | some fault => (.error (.store path fault), log ++ [⟨.write path content, false⟩], s)
      | none => (.ok (), log ++ [⟨.write path content, true⟩], s.write path content) :=
  exec_change path (memory.write path content) rfl

end operations

end RouteScaffold.Run
