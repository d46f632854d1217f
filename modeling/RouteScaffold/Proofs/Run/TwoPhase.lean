import RouteScaffold.Proofs.Run.Performed

/-! A run has two phases.

A run looks at all it needs before it changes anything. What it needs can be told
from the memory state and the faults alone (`Blocked`): if any of it is missing,
nothing is changed, else only a fault in a change can end the run early.
`generate_twoPhase` says so for every memory state and all faults. -/
namespace RouteScaffold.Run
open Route Artifact Store

/-! ### What a run needs -/

/-- What is logged when the descriptor files are read one after another. -/
def reads (files : List DescriptorFile) : Log := files.map fun file => ⟨.read file.location, true⟩

/-- Whether all files can be read, each behind those before it. -/
def AllReadable (faults : Faults) (s : Memory) : Log → List DescriptorFile → Prop
  | _, [] => True
  | log, file :: files =>
    Readable faults log s file.location ∧
      AllReadable faults s (log ++ [⟨.read file.location, true⟩]) files

/-- The enumeration that a run starts with. -/
def Options.enumeration (options : Options) (s : Memory) : Call :=
  .glob (options.rootFrom s.workingDir) options.pattern

/-- The groups that a run finds in a memory state; none if the pattern is no pattern. -/
def Options.groupsIn (options : Options) (s : Memory) : List Group :=
  match Store.pattern options.pattern with
  | .ok p => groupsOf (options.rootFrom s.workingDir) (s.matching (options.rootFrom s.workingDir) p)
  | .error _ => []

/-- The descriptor files that a run reads, group by group. -/
def Options.filesIn (options : Options) (s : Memory) : List DescriptorFile :=
  (options.groupsIn s).flatMap Group.files

/-- What keeps a run from changing anything. -/
inductive Blocked (faults : Faults) (options : Options) (s : Memory) : Prop where
  | framework {failure : Failure} : choose options.framework = .error failure →
      Blocked faults options s
  | enumeration : faults [] (options.enumeration s) ≠ none ∨
      (Store.pattern options.pattern).toBool = false → Blocked faults options s
  | noDescriptors : options.groupsIn s = [] → Blocked faults options s
  | reading : ¬ AllReadable faults s [⟨options.enumeration s, true⟩] (options.filesIn s) →
      Blocked faults options s

/-! ### Looking -/

/-- Events of looking. -/
def Looks (log : Log) : Prop := ∀ e ∈ log, e.call.isChange = false

theorem allReadable_append {faults : Faults} {s : Memory} {log : Log} {a b : List DescriptorFile} :
    AllReadable faults s log (a ++ b) ↔
      AllReadable faults s log a ∧ AllReadable faults s (log ++ reads a) b := by
  induction a generalizing log with
  | nil => simp [AllReadable, reads]
  | cons file a ih =>
    rw [List.cons_append, AllReadable, AllReadable, ih, and_assoc, List.append_assoc]
    rfl

theorem Looks.append {a b : Log} (ha : Looks a) (hb : Looks b) : Looks (a ++ b) :=
  List.forall_mem_append.mpr ⟨ha, hb⟩

theorem looks_reads (files : List DescriptorFile) : Looks (reads files) :=
  List.forall_mem_map.mpr fun _ _ => rfl

section looking
variable {faults : Faults} {s : Memory} {log : Log}

/-- What a run reads in a descriptor file of a memory state. -/
def descriptorIn (s : Memory) (file : DescriptorFile) : Descriptor :=
  .ofSource file.method file.fileName ((s.file? file.location).getD "")

theorem exec_readAll {files : List DescriptorFile} (h : AllReadable faults s log files) :
    exec (files.mapM (readDescriptor (observed faults memory))) log s =
      (.ok (files.map (descriptorIn s)), log ++ reads files, s) := by
  induction files generalizing log with
  | nil => simp [reads]
  | cons file files ih =>
    have hread := exec_read_ok h.1
    have hrest := ih h.2
    rw [List.mapM_cons, exec_bind_ok (exec_bind_ok hread _), exec_bind_ok hrest, exec_pure,
      List.append_assoc]
    rfl

theorem exec_readAll_error {files : List DescriptorFile} (h : ¬ AllReadable faults s log files) :
    ∃ failure looks, exec (files.mapM (readDescriptor (observed faults memory))) log s =
      (.error failure, log ++ looks, s) ∧ Looks looks := by
  induction files generalizing log with
  | nil => exact absurd trivial h
  | cons file files ih =>
    rw [List.mapM_cons]
    by_cases hfile : Readable faults log s file.location
    · have hread := exec_read_ok hfile
      obtain ⟨failure, looks, hrest, hlooks⟩ := ih fun hrest => h ⟨hfile, hrest⟩
      refine ⟨failure, _, ?_, (looks_reads [file]).append hlooks⟩
      rw [exec_bind_ok (exec_bind_ok hread _), exec_bind_error hrest, List.append_assoc]
      rfl
    · obtain ⟨failure, hread⟩ := exec_read_error hfile
      exact ⟨failure, _, exec_bind_error (exec_bind_error hread _) _,
        List.forall_mem_singleton.mpr rfl⟩

variable {fixed : Option Convention} {outputDir : String} {root : Path}

/-- Where the files of a planned directory go. -/
def Planned.InPlace (root : Path) (outputDir : String) (planned : Planned) : Prop :=
  planned.outputPath = (root.join planned.directory).join ⟨outputDir⟩

/-- What is planned for the groups of a memory state once all their files are read. -/
def plansOf (s : Memory) (fixed : Option Convention) (outputDir : String) (root : Path)
    (groups : List Group) : List Planned :=
  groups.map fun group => render fixed outputDir root group (group.files.map (descriptorIn s))

theorem exec_planAll {groups : List Group}
    (h : AllReadable faults s log (groups.flatMap Group.files)) :
    exec (groups.mapM (planGroup (observed faults memory) fixed outputDir root)) log s =
      (.ok (plansOf s fixed outputDir root groups),
        log ++ reads (groups.flatMap Group.files), s) := by
  induction groups generalizing log with
  | nil => simp [reads, plansOf]
  | cons group groups ih =>
    rw [List.flatMap_cons, allReadable_append] at h
    have hgroup := exec_readAll h.1
    have hrest := ih h.2
    rw [List.mapM_cons, exec_bind_ok (exec_bind_ok hgroup _), exec_bind_ok hrest, exec_pure,
      List.append_assoc, List.flatMap_cons, reads, reads, reads, List.map_append]
    rfl

theorem directory_plansOf (groups : List Group) :
    (plansOf s fixed outputDir root groups).map Planned.directory = groups.map Group.directory := by
  rw [plansOf, List.map_map]
  rfl

theorem inPlace_plansOf (groups : List Group) :
    ∀ planned ∈ plansOf s fixed outputDir root groups, planned.InPlace root outputDir :=
  List.forall_mem_map.mpr fun _ _ => rfl

theorem exec_planAll_error {groups : List Group}
    (h : ¬ AllReadable faults s log (groups.flatMap Group.files)) :
    ∃ failure looks,
      exec (groups.mapM (planGroup (observed faults memory) fixed outputDir root)) log s =
        (.error failure, log ++ looks, s) ∧ Looks looks := by
  induction groups generalizing log with
  | nil => exact absurd trivial h
  | cons group groups ih =>
    rw [List.flatMap_cons, allReadable_append] at h
    rw [List.mapM_cons]
    by_cases hgroup : AllReadable faults s log group.files
    · have hread := exec_readAll hgroup
      obtain ⟨failure, looks, hrest, hlooks⟩ := ih fun hrest => h ⟨hgroup, hrest⟩
      refine ⟨failure, _, ?_, (looks_reads group.files).append hlooks⟩
      rw [exec_bind_ok (exec_bind_ok hread _), exec_bind_error hrest, List.append_assoc]
    · obtain ⟨failure, looks, hread, hlooks⟩ := exec_readAll_error hgroup
      exact ⟨failure, looks, exec_bind_error (exec_bind_error hread _) _, hlooks⟩

end looking

/-! ### Planning -/

section planning
variable {faults : Faults} {options : Options} {s : Memory}

theorem looks_enumeration (completed : Bool) : Looks [⟨options.enumeration s, completed⟩] :=
  List.forall_mem_singleton.mpr rfl

theorem exec_plan_unknown {failure : Failure} (h : choose options.framework = .error failure) :
    exec (plan (observed faults memory) options) [] s = (.error failure, [], s) := by
  rw [plan, h]
  rfl

/-- What a run that knows its convention goes on with. -/
theorem exec_plan_known {fixed : Option Convention} (h : choose options.framework = .ok fixed) :
    exec (plan (observed faults memory) options) [] s =
      exec (do
        let candidates ← attempt (options.rootFrom s.workingDir)
          ((observed faults memory).glob (options.rootFrom s.workingDir) options.pattern)
        match groupsOf (options.rootFrom s.workingDir) candidates with
        | [] => throw (.noDescriptors (options.rootFrom s.workingDir))
        | groups => groups.mapM (planGroup (observed faults memory) fixed options.outputDir
            (options.rootFrom s.workingDir))) [] s := by
  have hroot : exec (ExceptT.lift (options.rootIn (observed faults memory))) ([] : Log) s =
      (.ok (options.rootFrom s.workingDir), [], s) := by
    rw [lift_rootIn]
    rfl
  have hfixed : exec (ExceptT.mk (pure (.ok fixed)) : Process Log _) [] s =
      (.ok fixed, [], s) := rfl
  rw [plan, h]
  exact (exec_bind_ok hfixed _).trans (exec_bind_ok hroot _)

/-- An enumeration that fails ends the run. -/
theorem exec_plan_unenumerated {fixed : Option Convention}
    (hchoose : choose options.framework = .ok fixed)
    (h : faults [] (options.enumeration s) ≠ none ∨
      (Store.pattern options.pattern).toBool = false) :
    ∃ failure, exec (plan (observed faults memory) options) [] s =
      (.error failure, [⟨options.enumeration s, false⟩], s) := by
  have hglob := @exec_glob faults [] s (options.rootFrom s.workingDir) options.pattern
  rw [exec_plan_known hchoose]
  cases hfault : faults [] (options.enumeration s) with
  | some fault =>
    rw [show faults [] (.glob _ _) = some fault from hfault] at hglob
    exact ⟨_, exec_bind_error hglob _⟩
  | none =>
    have hbad : (Store.pattern options.pattern).toBool = false := h.resolve_left (by simp [hfault])
    rw [show faults [] (.glob _ _) = none from hfault] at hglob
    cases hpattern : Store.pattern options.pattern with
    | ok p => rw [hpattern] at hbad; cases hbad
    | error fault =>
      rw [hpattern] at hglob
      exact ⟨_, exec_bind_error hglob _⟩

/-- An enumeration that succeeds leads to the groups. -/
theorem exec_plan_enumerated {fixed : Option Convention}
    (hchoose : choose options.framework = .ok fixed)
    (hfault : faults [] (options.enumeration s) = none)
    (hpattern : (Store.pattern options.pattern).toBool = true) :
    exec (plan (observed faults memory) options) [] s =
      exec (match options.groupsIn s with
        | [] => throw (.noDescriptors (options.rootFrom s.workingDir))
        | groups => groups.mapM (planGroup (observed faults memory) fixed options.outputDir
            (options.rootFrom s.workingDir))) [⟨options.enumeration s, true⟩] s := by
  have hglob := @exec_glob faults [] s (options.rootFrom s.workingDir) options.pattern
  rw [show faults [] (.glob _ _) = none from hfault] at hglob
  rw [exec_plan_known hchoose]
  cases hp : Store.pattern options.pattern with
  | error fault => rw [hp] at hpattern; cases hpattern
  | ok p =>
    rw [hp] at hglob
    rw [exec_bind_ok hglob, Options.groupsIn, hp]
    rfl

/-- What a run plans in a memory state where nothing is missing. -/
def Options.plansIn (options : Options) (fixed : Option Convention) (s : Memory) : List Planned :=
  plansOf s fixed options.outputDir (options.rootFrom s.workingDir) (options.groupsIn s)

/-- Unless something is missing, a run goes through all its looks and has its plans. -/
theorem exec_plan_ok (h : ¬ Blocked faults options s) :
    ∃ fixed, choose options.framework = .ok fixed ∧
      exec (plan (observed faults memory) options) [] s =
        (.ok (options.plansIn fixed s), ⟨options.enumeration s, true⟩ :: reads (options.filesIn s),
          s) := by
  cases hchoose : choose options.framework with
  | error failure => exact absurd (.framework hchoose) h
  | ok fixed =>
    have hfault : faults [] (options.enumeration s) = none :=
      Decidable.by_contra fun hne => h (.enumeration (.inl hne))
    have hpattern : (Store.pattern options.pattern).toBool = true :=
      Decidable.by_contra fun hne => h (.enumeration (.inr (Bool.eq_false_iff.mpr hne)))
    have hreads : AllReadable faults s [⟨options.enumeration s, true⟩] (options.filesIn s) :=
      Classical.not_not.mp fun hne => h (.reading hne)
    refine ⟨fixed, rfl, ?_⟩
    rw [exec_plan_enumerated hchoose hfault hpattern]
    split
    next hnil => exact absurd (.noDescriptors hnil) h
    next => exact exec_planAll hreads

/-- Unless something is missing, a run plans one directory for each group it finds. -/
theorem exec_plan (h : ¬ Blocked faults options s) :
    ∃ plans, exec (plan (observed faults memory) options) [] s =
        (.ok plans, ⟨options.enumeration s, true⟩ :: reads (options.filesIn s), s) ∧
      plans.map Planned.directory = (options.groupsIn s).map Group.directory ∧
      ∀ planned ∈ plans, planned.InPlace (options.rootFrom s.workingDir) options.outputDir := by
  obtain ⟨fixed, -, hplan⟩ := exec_plan_ok h
  exact ⟨_, hplan, directory_plansOf _, inPlace_plansOf _⟩

/-- If something is missing, a run has only looked. -/
theorem exec_plan_error (h : Blocked faults options s) :
    ∃ failure looks, exec (plan (observed faults memory) options) [] s =
      (.error failure, looks, s) ∧ Looks looks := by
  cases hchoose : choose options.framework with
  | error failure => exact ⟨failure, [], exec_plan_unknown hchoose, List.forall_mem_nil _⟩
  | ok fixed =>
    by_cases henum : faults [] (options.enumeration s) ≠ none ∨
        (Store.pattern options.pattern).toBool = false
    · obtain ⟨failure, hplan⟩ := exec_plan_unenumerated hchoose henum
      exact ⟨failure, _, hplan, looks_enumeration false⟩
    · obtain ⟨hfault, hpattern⟩ := not_or.mp henum
      rw [exec_plan_enumerated hchoose (Decidable.not_not.mp hfault) (by simpa using hpattern)]
      split
      next => exact ⟨_, _, rfl, looks_enumeration true⟩
      next hne =>
        have hreads :
            ¬ AllReadable faults s [⟨options.enumeration s, true⟩] (options.filesIn s) := by
          cases h with
          | framework hfailure => rw [hchoose] at hfailure; cases hfailure
          | enumeration hfailure => exact absurd hfailure henum
          | noDescriptors hnil => exact absurd hnil hne
          | reading hreads => exact hreads
        obtain ⟨failure, looks, hplan, hlooks⟩ := exec_planAll_error hreads
        exact ⟨failure, _, hplan, (looks_enumeration true).append hlooks⟩

end planning

/-! ### Writing -/

/-- Events of changing. -/
def Changes (log : Log) : Prop := ∀ e ∈ log, e.call.isChange = true

/-- Events of operations that were all completed. -/
def Completed (log : Log) : Prop := ∀ e ∈ log, e.completed = true

/-- The computation changes the store only. It ends with the value once it has written the files,
in their order, or with a failure if one of its changes is not completed. -/
def Writes {α : Type} (files : List (Path × String)) (a : α) (x : Process Log α) : Prop :=
  ∀ log s, ∃ events, (exec x log s).2.1 = log ++ events ∧ Changes events ∧
    ((Completed events ∧ (exec x log s).1 = .ok a ∧ Log.written events = files) ∨
      (¬ Completed events ∧ ∃ failure, (exec x log s).1 = .error failure))

theorem writes_pure {α : Type} (a : α) : Writes [] a (pure a : Process Log α) := fun log s =>
  ⟨[], by simp, List.forall_mem_nil _, .inl ⟨List.forall_mem_nil _, rfl, rfl⟩⟩

theorem Writes.bind {α β : Type} {first second : List (Path × String)} {a : α} {b : β}
    {x : Process Log α} {f : α → Process Log β} (hx : Writes first a x)
    (hf : Writes second b (f a)) : Writes (first ++ second) b (x >>= f) := by
  intro log s
  obtain ⟨events, hlog, hchanges, hx⟩ := hx log s
  rcases hexec : exec x log s with ⟨result, log', s'⟩
  rw [hexec] at hlog hx
  obtain rfl : log' = log ++ events := hlog
  rcases hx with ⟨hdone, hresult, hfiles⟩ | ⟨hnot, failure, hresult⟩
  · obtain rfl : result = .ok a := hresult
    obtain ⟨more, hlog', hchanges', hf⟩ := hf (log ++ events) s'
    rw [exec_bind_ok hexec]
    refine ⟨events ++ more, by rw [hlog', List.append_assoc],
      List.forall_mem_append.mpr ⟨hchanges, hchanges'⟩, ?_⟩
    rcases hf with ⟨hdone', hresult', hfiles'⟩ | ⟨hnot, failure, hresult'⟩
    · exact .inl ⟨List.forall_mem_append.mpr ⟨hdone, hdone'⟩, hresult',
        by rw [Log.written_append, hfiles, hfiles']⟩
    · exact .inr ⟨fun hall => hnot (List.forall_mem_append.mp hall).2, failure, hresult'⟩
  · obtain rfl : result = .error failure := hresult
    rw [exec_bind_error hexec]
    exact ⟨events, rfl, hchanges, .inr ⟨hnot, failure, rfl⟩⟩

section writing
variable (faults : Faults)

theorem writes_has {α : Type} {files : List (Path × String)} {a : α} (path : Path)
    {f : Bool → Process Log α} (h : ∀ there, Writes files a (f there)) :
    Writes files a (ExceptT.lift ((observed faults memory).has path) >>= f) := by
  intro log s
  rw [exec_bind_ok (exec_has path)]
  exact h _ log s

theorem writes_makeDir (path : Path) :
    Writes [] () (attempt path ((observed faults memory).makeDir path)) := by
  intro log s
  rw [exec_makeDir]
  cases faults log (.makeDir path) with
  | none => exact ⟨_, rfl, List.forall_mem_singleton.mpr rfl,
      .inl ⟨List.forall_mem_singleton.mpr rfl, rfl, rfl⟩⟩
  | some fault => exact ⟨_, rfl, List.forall_mem_singleton.mpr rfl,
      .inr ⟨by simp [Completed], _, rfl⟩⟩

theorem writes_write (path : Path) (content : String) :
    Writes [(path, content)] () (attempt path ((observed faults memory).write path content)) := by
  intro log s
  rw [exec_write]
  cases faults log (.write path content) with
  | none => exact ⟨_, rfl, List.forall_mem_singleton.mpr rfl,
      .inl ⟨List.forall_mem_singleton.mpr rfl, rfl, rfl⟩⟩
  | some fault => exact ⟨_, rfl, List.forall_mem_singleton.mpr rfl,
      .inr ⟨by simp [Completed], _, rfl⟩⟩

/-- The files of a planned directory, where they go. -/
def Planned.outputs (planned : Planned) : List (Path × String) :=
  planned.files.map fun file => (planned.outputPath.join ⟨file.name⟩, file.content)

/-- What is told of a planned directory once it is written. -/
def Planned.generated (planned : Planned) : Generated :=
  ⟨planned.directory, planned.files.map (·.name)⟩

theorem writes_files (outputPath : Path) (files : List File) :
    Writes (files.map fun file => (outputPath.join ⟨file.name⟩, file.content)) ()
      (files.forM (writeFile (observed faults memory) outputPath)) := by
  induction files with
  | nil => exact writes_pure ()
  | cons file files ih => exact (writes_write faults _ _).bind ih

theorem writes_planned (planned : Planned) :
    Writes planned.outputs planned.generated (writePlanned (observed faults memory) planned) := by
  have hfiles := (writes_files faults planned.outputPath planned.files).bind
    (f := fun _ => pure planned.generated) (writes_pure _)
  rw [List.append_nil] at hfiles
  refine writes_has faults planned.outputPath fun there => ?_
  cases there with
  | true => exact hfiles
  | false => exact (writes_makeDir faults planned.outputPath).bind hfiles

theorem writes_plans (plans : List Planned) :
    Writes (plans.flatMap Planned.outputs) (plans.map Planned.generated)
      (plans.mapM (writePlanned (observed faults memory))) := by
  induction plans with
  | nil => exact writes_pure []
  | cons planned plans ih =>
    rw [List.mapM_cons]
    have := (writes_planned faults planned).bind
      (f := fun g => plans.mapM (writePlanned (observed faults memory)) >>= fun gs =>
        pure (g :: gs))
      (ih.bind (writes_pure _))
    rwa [List.append_nil] at this

end writing

/-! ### The whole run -/

/-- What can be said of every run, whatever the faults. -/
structure TwoPhase (faults : Faults) (options : Options) (s : Memory) (ending : Ending) : Prop where
  /-- No look comes behind a change. -/
  phases : ∃ looks changes, ending.log = looks ++ changes ∧ Looks looks ∧ Changes changes
  /-- What was changed is a first part of what is changed if no change is hindered. -/
  shortened : Log.changes ending.log <+:
    Log.changes (observedRun faults.sparingChanges options s).log
  /-- What was changed is all that became of the memory state. -/
  performed : ending.memory = (Log.changes ending.log).foldl Call.perform s
  /-- If something is missing, no change is even tried. -/
  untouched : Blocked faults options s → Looks ending.log ∧ ending.memory = s
  /-- If nothing is missing and all is completed, the report lists every group with the files
  written for it. -/
  success : ¬ Blocked faults options s → Completed ending.log → ∃ generated,
    Report.ofResult ending.result = { success := true, generated := some generated } ∧
      generated.map Generated.directory = (options.groupsIn s).map Group.directory ∧
      (Log.written ending.log).map Prod.fst = generated.flatMap fun g => g.files.map fun name =>
        (((options.rootFrom s.workingDir).join g.directory).join ⟨options.outputDir⟩).join ⟨name⟩
  /-- Else the report has an error and nothing else. -/
  failure : Blocked faults options s ∨ ¬ Completed ending.log → ∃ message,
    Report.ofResult ending.result = { success := false, error := some message }

section ending
variable {faults : Faults} {options : Options} {s : Memory}

theorem observedRun_blocked (h : Blocked faults options s) :
    ∃ failure looks, observedRun faults options s = ⟨.error failure, looks, s⟩ ∧ Looks looks := by
  obtain ⟨failure, looks, hplan, hlooks⟩ := exec_plan_error h
  exact ⟨failure, looks, observedRun_eq (exec_bind_error hplan _), hlooks⟩

/-- The outputs of planned directories are told by what is generated for them. -/
theorem outputs_generated {root : Path} {outputDir : String} {plans : List Planned}
    (h : ∀ planned ∈ plans, planned.InPlace root outputDir) :
    (plans.flatMap Planned.outputs).map Prod.fst =
      (plans.map Planned.generated).flatMap fun g => g.files.map fun name =>
        ((root.join g.directory).join ⟨outputDir⟩).join ⟨name⟩ := by
  induction plans with
  | nil => rfl
  | cons planned plans ih =>
    obtain ⟨hplaced, hrest⟩ := List.forall_mem_cons.mp h
    rw [List.flatMap_cons, List.map_append, ih hrest, List.map_cons, List.flatMap_cons,
      Planned.outputs, hplaced]
    simp [Planned.generated]

/-- Unless something is missing, a run goes through all its looks and then writes what it has
planned. -/
theorem observedRun_unblocked (h : ¬ Blocked faults options s) :
    ∃ (plans : List Planned) (looks changes : Log) (result : Except Failure (List Generated))
      (s' : Memory), observedRun faults options s = ⟨result, looks ++ changes, s'⟩ ∧
      plans.map Planned.directory = (options.groupsIn s).map Group.directory ∧
      (∀ planned ∈ plans, planned.InPlace (options.rootFrom s.workingDir) options.outputDir) ∧
      Looks looks ∧ Completed looks ∧ Changes changes ∧
      ((Completed changes ∧ result = .ok (plans.map Planned.generated) ∧
          Log.written changes = plans.flatMap Planned.outputs) ∨
        (¬ Completed changes ∧ ∃ failure, result = .error failure)) := by
  obtain ⟨plans, hplan, hdirs, hplaced⟩ := exec_plan h
  obtain ⟨changes, hlog, hchanges, hends⟩ := writes_plans faults plans
    (⟨options.enumeration s, true⟩ :: reads (options.filesIn s)) s
  rcases hexec : exec (plans.mapM (writePlanned (observed faults memory)))
    (⟨options.enumeration s, true⟩ :: reads (options.filesIn s)) s with ⟨result, log, s'⟩
  rw [hexec] at hlog hends
  obtain rfl : log = _ := hlog
  exact ⟨plans, ⟨options.enumeration s, true⟩ :: reads (options.filesIn s), changes, result, s',
    observedRun_eq (by rw [exec_bind_ok hplan, hexec]), hdirs, hplaced,
    (looks_enumeration true).append (looks_reads _),
    List.forall_mem_cons.mpr ⟨rfl, List.forall_mem_map.mpr fun _ _ => rfl⟩, hchanges, hends⟩

/-- **A run has two phases, and a failing run has done a part of the work**, for every memory
state, all options and all faults. -/
theorem generate_twoPhase (faults : Faults) (options : Options) (s : Memory) :
    TwoPhase faults options s (observedRun faults options s) := by
  by_cases h : Blocked faults options s
  · obtain ⟨failure, looks, heq, hlooks⟩ := observedRun_blocked h
    have hshort := changes_shortened faults options s
    have hmemory := memory_observedRun faults options s
    rw [heq] at hshort hmemory ⊢
    exact ⟨⟨looks, [], by simp, hlooks, List.forall_mem_nil _⟩, hshort, hmemory,
      fun _ => ⟨hlooks, rfl⟩, fun hnot => absurd h hnot, fun _ => ⟨_, rfl⟩⟩
  · obtain ⟨plans, looks, changes, result, s', heq, hdirs, hplaced, hlooks, hdone, hchanges,
      hends⟩ := observedRun_unblocked h
    have hshort := changes_shortened faults options s
    have hmemory := memory_observedRun faults options s
    rw [heq] at hshort hmemory ⊢
    refine ⟨⟨looks, changes, rfl, hlooks, hchanges⟩, hshort, hmemory,
      fun hblocked => absurd hblocked h, fun _ hall => ?_, fun hfailed => ?_⟩
    · have hall : Completed changes := (List.forall_mem_append.mp hall).2
      rcases hends with ⟨-, rfl, hwritten⟩ | ⟨hnot, -⟩
      · refine ⟨_, rfl, ?_, ?_⟩
        · rw [List.map_map, ← hdirs]
          rfl
        · rw [Log.written_append, Log.written_of_looks hlooks, List.nil_append, hwritten,
            outputs_generated hplaced]
      · exact absurd hall hnot
    · rcases hends with ⟨hall, -, -⟩ | ⟨-, failure, rfl⟩
      · exact absurd (List.forall_mem_append.mpr ⟨hdone, hall⟩) (hfailed.resolve_left h)
      · exact ⟨_, rfl⟩

end ending

end RouteScaffold.Run
