import RouteScaffold.Proofs.Glob.WellFormed
import RouteScaffold.Proofs.Run.Confined

/-! How runs with accepted settings fail.

Settings without a defect name a framework that a run knows, but their pattern is only
known not to be blank. So a run with them can fail for a setting in one way: its pattern
is not well-formed, and it gets as far as looking at it. Whatever else ends such a run
lies in the project: it has no descriptors, a file is not there, or an operation is
denied (`generate_accepted`). -/
namespace RouteScaffold.Run
open Route Artifact Store

/-! ### Failing for the project only -/

/-- The operation is denied on the path. -/
def Denied (denials : Denials) (operation : Operation) (path : Path) : Prop :=
  match operation with
  | .read => denials.read.any path.endsWith = true
  | .write => denials.write.any path.endsWith = true
  | .makeDir => denials.makeDir.any path.endsWith = true
  | .glob => denials.glob.any path.endsWith = true

/-- A failure that tells of the project below the root and not of the settings. -/
inductive Failure.OfProject (denials : Denials) (root : Path) : Failure → Prop where
  | noDescriptors : OfProject denials root (.noDescriptors root)
  | missing (path : Path) : OfProject denials root (.store path (.noSuchFile path))
  /-- The operation is denied on this path. -/
  | denied {path : Path} {operation : Operation} : Denied denials operation path →
    OfProject denials root (.store path (.denied operation))

section failing
variable {denials : Denials} {root : Path}

/-- If the computation fails, its failure tells of the project. -/
def Blameless (denials : Denials) (root : Path) {α : Type} (x : Process Log α) : Prop :=
  ∀ log s failure, (exec x log s).1 = .error failure → failure.OfProject denials root

theorem Blameless.bind {α β : Type} {x : Process Log α} {f : α → Process Log β}
    (hx : Blameless denials root x) (hf : ∀ a, Blameless denials root (f a)) :
    Blameless denials root (x >>= f) := by
  intro log s failure h
  rcases hexec : exec x log s with ⟨result | a, log', s'⟩
  · rw [exec_bind_error hexec] at h
    cases h
    exact hx log s failure (congrArg Prod.fst hexec)
  · rw [exec_bind_ok hexec] at h
    exact hf a log' s' failure h

/-- A run is looked at for how it fails only, so there is nothing on the other side. -/
theorem blameless_sequenced :
    Sequenced fun _ x (_ : Process Log _) => Blameless denials root x where
  pure _ _ _ _ h := by cases h
  bind hx hf := hx.bind hf

theorem Blameless.mapM {α β : Type} {f : α → Process Log β} {l : List α}
    (h : ∀ a ∈ l, Blameless denials root (f a)) : Blameless denials root (l.mapM f) :=
  blameless_sequenced.mapM (g := f) h

/-- What is thrown where no descriptors were found. -/
theorem blameless_noDescriptors {α : Type} :
    Blameless denials root (throw (.noDescriptors root) : Process Log α) := by
  intro _ _ _ h
  cases h
  exact .noDescriptors

/-- The path at which an operation is asked for. -/
def pathOf : Call → Path
  | .glob path _ | .read path | .makeDir path | .write path _ => path

/-- All faults of a store with denials are denials. -/
theorem ofProject_of_faultsOf {log : Log} {call : Call} {fault : Fault}
    (h : faultsOf denials log call = some fault) :
    Failure.OfProject denials root (.store (pathOf call) fault) := by
  cases call <;>
    · obtain ⟨hdenied, rfl⟩ := Option.ite_some_none_eq_some.mp h
      exact .denied hdenied

theorem blameless_observe {α : Type} (call : Call) {run : StateM Memory (Except Fault α)}
    (hrun : ∀ s fault, (run.run s).1 = .error fault →
      Failure.OfProject denials root (.store (pathOf call) fault)) :
    Blameless denials root (attempt (pathOf call) (observe (faultsOf denials) call run)) := by
  intro log s failure h
  cases hfault : faultsOf denials log call with
  | some fault =>
    rw [exec_fault hfault] at h
    cases h
    exact ofProject_of_faultsOf hfault
  | none =>
    rcases hresult : run.run s with ⟨result, s'⟩
    rw [exec_no_fault hfault _ hresult] at h
    cases result with
    | ok a => cases h
    | error fault =>
      cases h
      exact hrun s fault (congrArg Prod.fst hresult)

theorem blameless_reads :
    ReadsAlike (fun _ x (_ : Process Log _) => Blameless denials root x)
      (observed (faultsOf denials) memory) (observed (faultsOf denials) memory) := by
  intro path
  refine blameless_observe (.read path) fun s fault h => ?_
  rw [run_read] at h
  cases hfile : s.file? path with
  | some content =>
    rw [hfile] at h
    cases h
  | none =>
    rw [hfile] at h
    cases h
    exact .missing path

theorem blameless_changes (path : Path) :
    ChangesAlike (fun _ x (_ : Process Log _) => Blameless denials root x)
      (observed (faultsOf denials) memory) (observed (faultsOf denials) memory) path where
  has _ _ _ h := by cases h
  makeDir := blameless_observe (.makeDir path) fun _ _ h => by cases h
  write content := blameless_observe (.write path content) fun _ _ h => by cases h

/-- An enumeration fails for the project only, provided that the pattern is one. -/
theorem blameless_glob {text : String} {p : Glob.Pattern} (hpattern : Store.pattern text = .ok p) :
    Blameless denials root
      (attempt root ((observed (faultsOf denials) memory).glob root text)) := by
  refine blameless_observe (.glob root text) fun s fault h => ?_
  have hok : ((memory.glob root text).run s).1 = .ok (s.matching root p) := by
    show (Store.pattern text).map (s.matching root) = _
    rw [hpattern]
    rfl
  rw [hok] at h
  cases h

end failing

/-! ### Runs that know their convention -/

section running
variable {denials : Denials} {options : Options} {fixed : Option Convention}

/-- With a pattern, a run fails for the project only. -/
theorem ofProject_observedRun (hchoose : choose options.framework = .ok fixed) {p : Glob.Pattern}
    (hpattern : Store.pattern options.pattern = .ok p) {s : Memory} {failure : Failure}
    (h : (observedRun (faultsOf denials) options s).result = .error failure) :
    failure.OfProject denials (options.rootFrom s.workingDir) := by
  have hplan : ∀ failure, (exec (plan (observed (faultsOf denials) memory) options) [] s).1 =
      .error failure → failure.OfProject denials (options.rootFrom s.workingDir) := by
    rw [exec_plan_known hchoose]
    refine (blameless_glob hpattern).bind (fun candidates => ?_) [] s
    split
    next => exact blameless_noDescriptors
    next => exact .mapM fun group _ =>
        planGroup_alike blameless_sequenced blameless_reads fixed options.outputDir _ group
  rcases hexec : exec (plan (observed (faultsOf denials) memory) options) [] s with
    ⟨result | plans, log, s'⟩
  · rw [observedRun_eq (exec_bind_error hexec _)] at h
    cases h
    exact hplan failure (congrArg Prod.fst hexec)
  · have hwrites : Blameless denials (options.rootFrom s.workingDir)
        (plans.mapM (writePlanned (observed (faultsOf denials) memory))) :=
      writeAll_alike blameless_sequenced fun _ _ path _ => blameless_changes path
    rw [observedRun_eq (exec_bind_ok hexec _)] at h
    exact hwrites log s' failure h

/-- A run ends with its enumeration if that fails. -/
theorem observedRun_unenumerated {faults : Faults} (hchoose : choose options.framework = .ok fixed)
    {s s' : Memory} {failure : Failure} {log : Log}
    (h : exec (attempt (options.rootFrom s.workingDir)
      ((observed faults memory).glob (options.rootFrom s.workingDir) options.pattern)) [] s =
        (.error failure, log, s')) :
    observedRun faults options s = ⟨.error failure, log, s'⟩ := by
  have hplan := (exec_plan_known hchoose).trans (exec_bind_error h _)
  exact observedRun_eq (exec_bind_error hplan _)

theorem faultsOf_glob (log : Log) (root : Path) (text : String) :
    faultsOf denials log (.glob root text) =
      if denials.glob.any root.endsWith then some (.denied .glob) else none := rfl

/-- Without a pattern, a run ends where it enumerates. -/
theorem observedRun_badPattern (hchoose : choose options.framework = .ok fixed)
    {error : Glob.PatternError} (hpattern : Glob.Pattern.ofString options.pattern = .error error)
    (s : Memory) :
    (observedRun (faultsOf denials) options s).result =
      .error (.store (options.rootFrom s.workingDir)
        (if denials.glob.any (options.rootFrom s.workingDir).endsWith then .denied .glob
          else .badPattern options.pattern error)) := by
  have hglob := @exec_glob (faultsOf denials) [] s (options.rootFrom s.workingDir) options.pattern
  have hbad : Store.pattern options.pattern = .error (.badPattern options.pattern error) := by
    rw [Store.pattern, hpattern]
    rfl
  rw [hbad, faultsOf_glob] at hglob
  split
  next hdenied =>
    rw [if_pos hdenied] at hglob
    rw [observedRun_unenumerated hchoose hglob]
  next hallowed =>
    rw [if_neg hallowed] at hglob
    rw [observedRun_unenumerated hchoose hglob]

end running

/-! ### Accepted settings -/

/-- How a run with these settings can end on a store in memory with denials. -/
structure Accepted (denials : Denials) (settings : Settings) (s : Memory)
    (result : Except Failure (List Generated)) : Prop where
  /-- The framework is known. -/
  known : ∀ name available, result ≠ .error (.unknownFramework name available)
  /-- A failure tells of the project, or of a pattern that is none. -/
  failures : ∀ failure, result = .error failure →
    failure.OfProject denials (settings.options.rootFrom s.workingDir) ∨
    ∃ error, Glob.Pattern.ofString settings.pattern = .error error ∧
      failure = .store (settings.options.rootFrom s.workingDir)
        (.badPattern settings.pattern error)
  /-- The run ends with a fault in its input exactly if the pattern is not well-formed and the
  enumeration is allowed. -/
  input : (∃ path fault, result = .error (.store path fault) ∧ fault.kind = .invalidInput) ↔
    ¬ Glob.WellFormed none settings.pattern.toList ∧
      ¬ Denied denials .glob (settings.options.rootFrom s.workingDir)

/-- A failure that tells of the project is none of the input. -/
theorem Failure.OfProject.kind_ne {denials : Denials} {root path : Path} {fault : Fault}
    (h : Failure.OfProject denials root (.store path fault)) : fault.kind ≠ .invalidInput := by
  cases h <;> simp [Fault.kind]

section accepting
variable {denials : Denials} {settings : Settings} {s : Memory}
  {result : Except Failure (List Generated)}

/-- What fails for the project only, with a pattern. -/
theorem accepted_of_ofProject {p : Glob.Pattern}
    (hpattern : Glob.Pattern.ofString settings.pattern = .ok p)
    (h : ∀ failure, result = .error failure →
      failure.OfProject denials (settings.options.rootFrom s.workingDir)) :
    Accepted denials settings s result where
  known name available hresult := by cases h _ hresult
  failures failure hresult := .inl (h failure hresult)
  input := by
    refine ⟨?_, fun hnot => absurd ((Glob.isPattern_iff _).mp ⟨p, hpattern⟩) hnot.1⟩
    rintro ⟨path, fault, hresult, hkind⟩
    exact absurd hkind (h _ hresult).kind_ne

/-- What ends where it enumerates, without a pattern. -/
theorem accepted_of_badPattern {error : Glob.PatternError}
    (hpattern : Glob.Pattern.ofString settings.pattern = .error error)
    (h : result = .error (.store (settings.options.rootFrom s.workingDir)
      (if denials.glob.any (settings.options.rootFrom s.workingDir).endsWith then .denied .glob
        else .badPattern settings.pattern error))) :
    Accepted denials settings s result := by
  have hnot : ¬ Glob.WellFormed none settings.pattern.toList := by
    intro hformed
    obtain ⟨p, hok⟩ := (Glob.isPattern_iff _).mpr hformed
    rw [hpattern] at hok
    cases hok
  subst h
  split
  next hdenied =>
    refine ⟨nofun, fun _ hfailure => ?_, ?_, fun hallowed => absurd hdenied hallowed.2⟩
    · cases hfailure
      exact .inl (.denied hdenied)
    · rintro ⟨path, fault, hfailure, hkind⟩
      cases hfailure
      cases hkind
  next hallowed =>
    refine ⟨nofun, fun _ hfailure => ?_, fun _ => ⟨hnot, hallowed⟩, fun _ => ⟨_, _, rfl, rfl⟩⟩
    cases hfailure
    exact .inr ⟨error, hpattern, rfl⟩

end accepting

/-- **How runs with accepted settings fail**, for every project in memory and whatever is denied
there: never for the framework, and for the pattern exactly if it is not well-formed and the
enumeration is allowed. -/
theorem generate_accepted {settings : Settings} (h : settings.defect? = none) (denials : Denials)
    (s : Memory) :
    Accepted denials settings s ((generate (denying denials memory) settings.options).run s).1 := by
  obtain ⟨fixed, hchoose⟩ := exists_convention h
  rw [generate_denying]
  cases hpattern : Glob.Pattern.ofString settings.pattern with
  | ok p =>
    have hok : Store.pattern settings.options.pattern = .ok p := by
      show (Glob.Pattern.ofString settings.pattern).mapError _ = _
      rw [hpattern]
      rfl
    exact accepted_of_ofProject hpattern fun _ => ofProject_observedRun hchoose hok
  | error error => exact accepted_of_badPattern hpattern (observedRun_badPattern hchoose hpattern s)

/-- Settings that say nothing are accepted. -/
theorem generate_accepted_default :
    let s : Memory := {
      workingDir := ⟨"/project"⟩
      files := [(⟨"/project/app/route.get.config.ts"⟩, "")] }
    ({} : Settings).defect? = none ∧
      Accepted { read := [⟨"route.get.config.ts"⟩] } {} s
        ((generate (denying { read := [⟨"route.get.config.ts"⟩] } memory)
          ({} : Settings).options).run s).1 := by
  intro s
  have h : ({} : Settings).defect? = none := by decide +kernel
  exact ⟨h, generate_accepted h _ s⟩

/-- Settings with an opening bracket for their pattern are accepted, and yet a run with them ends
with a fault in its input, although there is a descriptor file. -/
theorem badPattern_of_accepted :
    let s : Memory := {
      workingDir := ⟨"/project"⟩
      files := [(⟨"/project/app/route.get.config.ts"⟩, "")] }
    let settings : Settings := { pattern := "[" }
    let fault : Fault := .badPattern "[" ⟨0, .badClass⟩
    settings.defect? = none ∧
      ((generate (denying {} memory) settings.options).run s).1 =
        .error (.store ⟨"/project/."⟩ fault) ∧
      fault.kind = .invalidInput := by
  intro s settings fault
  have hpattern : Glob.Pattern.ofString "[" = .error ⟨0, .badClass⟩ := by
    show (Glob.scan [] 0 none ['[']).map Glob.Pattern.mk = _
    rw [Glob.scan]
    rfl
  have hroot : settings.options.rootFrom s.workingDir = ⟨"/project/."⟩ := by decide +kernel
  have hchoose : choose settings.options.framework = .ok none := by decide +kernel
  refine ⟨by decide +kernel, ?_, rfl⟩
  rw [generate_denying, observedRun_badPattern hchoose hpattern, hroot]
  rfl

end RouteScaffold.Run
