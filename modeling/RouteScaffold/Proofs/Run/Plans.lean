import RouteScaffold.Proofs.Run.TwoPhase
import RouteScaffold.Proofs.Store.Files

/-! What a successful run has done.

Without faults, a run succeeds exactly if nothing is missing (`succeeds_iff`). It has
then planned one directory for each group, from what it read there and nothing else
(`run_plan`), and has written all that it planned (`observedRun_never`). -/
namespace RouteScaffold.Run
open Route Artifact Store

/-! ### Candidates -/

/-- The candidates that a run finds in a memory state; none if the pattern is no pattern. -/
def Options.candidatesIn (options : Options) (s : Memory) : List Path :=
  match Store.pattern options.pattern with
  | .ok p => s.matching (options.rootFrom s.workingDir) p
  | .error _ => []

theorem groupsIn_eq (options : Options) (s : Memory) :
    options.groupsIn s =
      groupsOf (options.rootFrom s.workingDir) (options.candidatesIn s) := by
  rw [Options.groupsIn, Options.candidatesIn]
  cases Store.pattern options.pattern <;> rfl

/-- The descriptor files that a run finds in a memory state. -/
def Options.foundIn (options : Options) (s : Memory) : List DescriptorFile :=
  (options.candidatesIn s).filterMap
    (DescriptorFile.ofCandidate? (options.rootFrom s.workingDir))

/-- What is found is what is read, group by group. -/
theorem perm_filesIn (options : Options) (s : Memory) :
    (options.filesIn s).Perm (options.foundIn s) := by
  rw [Options.filesIn, groupsIn_eq]
  exact perm_groupsOf _ _

theorem groupsIn_eq_nil_iff (options : Options) (s : Memory) :
    options.groupsIn s = [] ↔ options.foundIn s = [] := by
  constructor
  · intro hnil
    have hperm := perm_filesIn options s
    rw [Options.filesIn, hnil] at hperm
    exact hperm.nil_eq.symm
  · intro hnil
    have hperm := perm_filesIn options s
    rw [hnil, Options.filesIn, groupsIn_eq] at hperm
    rw [groupsIn_eq, List.eq_nil_iff_forall_not_mem]
    intro group hgroup
    refine (partition_groupsOf _ _).nonempty group hgroup ?_
    exact List.flatMap_eq_nil_iff.mp hperm.eq_nil group hgroup

theorem ordered_candidatesIn {s : Memory} (h : s.Ordered) (options : Options) :
    (options.candidatesIn s).Pairwise fun p q => p.compare q = .lt := by
  rw [Options.candidatesIn]
  cases Store.pattern options.pattern with
  | ok p => exact Memory.ordered_matching h _ p
  | error fault => exact .nil

/-! ### Where the candidates lie -/

section places
variable {options : Options} {s : Memory}

/-- Below a root that is not empty, a candidate has no lead. -/
theorem isStep_of_candidate (hroot : (options.rootFrom s.workingDir).text ≠ "") {candidate : Path}
    (h : candidate ∈ options.candidatesIn s) : ∀ c ∈ candidate.components, c.isStep = true := by
  have hne : (s.resolve (options.rootFrom s.workingDir)).components ≠ [] := fun hnil =>
    Path.text_resolve_ne_empty s.workingDir hroot (Path.text_of_components hnil)
  rw [Options.candidatesIn] at h
  cases hpattern : Store.pattern options.pattern with
  | error fault =>
    rw [hpattern] at h
    cases h
  | ok p =>
    rw [hpattern] at h
    obtain ⟨hmem, -⟩ := List.mem_filter.mp h
    obtain ⟨file, -, hstrip⟩ := List.mem_filterMap.mp hmem
    exact Path.isStep_of_components (Path.components_of_stripBase? hstrip) hne

/-- What leads to a candidate lies below the root, whatever the working directory is. -/
theorem components_join_below {candidate p : Path} (h : candidate ∈ options.candidatesIn s)
    (hp : p.components <+: candidate.components) :
    ((options.rootFrom s.workingDir).join p).components =
      (options.rootFrom s.workingDir).components ++ p.components := by
  by_cases hroot : (options.rootFrom s.workingDir).text = ""
  · have hempty : options.rootFrom s.workingDir = ⟨""⟩ := congrArg Path.mk hroot
    rw [hempty, Path.empty_join]
    rfl
  · apply Path.components_join_steps
    exact fun c hc => isStep_of_candidate hroot h c (hp.subset hc)

theorem components_group {group : Group} (hgroup : group ∈ options.groupsIn s) :
    ((options.rootFrom s.workingDir).join group.directory).components =
      (options.rootFrom s.workingDir).components ++ group.directory.components := by
  rw [groupsIn_eq] at hgroup
  have hpart := partition_groupsOf (options.rootFrom s.workingDir) (options.candidatesIn s)
  obtain ⟨file, hfile⟩ := List.exists_mem_of_ne_nil _ (hpart.nonempty group hgroup)
  obtain ⟨candidate, hcandidate, hof⟩ := of_mem_groupsOf hgroup hfile
  refine components_join_below hcandidate ?_
  rw [hof.components, hpart.directory group hgroup file hfile]
  exact List.prefix_append ..

/-- A descriptor file lies in the directory of its group under its name. -/
theorem components_location {group : Group} (hgroup : group ∈ options.groupsIn s)
    {file : DescriptorFile} (hfile : file ∈ group.files) :
    file.location.components =
      ((options.rootFrom s.workingDir).join group.directory).components ++
        [.normal file.fileName] := by
  rw [components_group hgroup]
  rw [groupsIn_eq] at hgroup
  obtain ⟨candidate, hcandidate, hof⟩ := of_mem_groupsOf hgroup hfile
  rw [hof.location, components_join_below hcandidate List.prefix_rfl, hof.components,
    (partition_groupsOf _ _).directory group hgroup file hfile, List.append_assoc]

end places

/-- The convention that a run follows in a directory. -/
def conventionOf (fixed : Option Convention) (directory : Path) : Convention :=
  fixed.getD (.ofDirectory directory)

/-- The endpoint that a group is in a memory state. -/
def endpointOf (fixed : Option Convention) (s : Memory) (group : Group) : Endpoint :=
  .ofDirectory (conventionOf fixed group.directory) group.directory
    (group.files.map (descriptorIn s))

theorem files_render (fixed : Option Convention) (outputDir : String) (root : Path) (s : Memory)
    (group : Group) :
    (render fixed outputDir root group (group.files.map (descriptorIn s))).files =
      (endpointOf fixed s group).files (conventionOf fixed group.directory) := rfl

/-! ### Writing unhindered -/

section running
variable {faults : Faults} (hspare : faults.SparesChanges)
include hspare

/-- The computation comes to an end with a value. -/
def Ends {α : Type} (x : Process Log α) : Prop := ∀ log s, ∃ a, (exec x log s).1 = .ok a

omit hspare in
theorem Ends.bind {α β : Type} {x : Process Log α} {f : α → Process Log β} (hx : Ends x)
    (hf : ∀ a, Ends (f a)) : Ends (x >>= f) := by
  intro log s
  obtain ⟨a, ha⟩ := hx log s
  rcases hexec : exec x log s with ⟨result, log', s'⟩
  rw [hexec] at ha
  obtain rfl : result = .ok a := ha
  rw [exec_bind_ok hexec]
  exact hf a log' s'

omit hspare in
theorem ends_sequenced : Sequenced fun _ x (_ : Process Log _) => Ends x where
  pure a _ _ := ⟨a, rfl⟩
  bind hx hf := hx.bind hf

theorem ends_changes (path : Path) :
    ChangesAlike (fun _ x (_ : Process Log _) => Ends x) (observed faults memory)
      (observed faults memory) path where
  has _ s := ⟨s.has path, rfl⟩
  makeDir log _ := ⟨(), by rw [exec_makeDir, hspare log _ rfl]⟩
  write _ log _ := ⟨(), by rw [exec_write, hspare log _ rfl]⟩

theorem ends_plans (plans : List Planned) :
    Ends (plans.mapM (writePlanned (observed faults memory))) :=
  writeAll_alike ends_sequenced fun _ _ path _ => ends_changes hspare path

/-- If nothing is missing and no change is hindered, a run plans its groups and writes all of their
files. -/
theorem observedRun_unhindered {options : Options} {s : Memory} (h : ¬ Blocked faults options s) :
    ∃ fixed log s', choose options.framework = .ok fixed ∧
      observedRun faults options s =
        ⟨.ok ((options.plansIn fixed s).map Planned.generated), log, s'⟩ ∧
      Log.written log = (options.plansIn fixed s).flatMap Planned.outputs := by
  obtain ⟨fixed, hchoose, hplan⟩ := exec_plan_ok h
  obtain ⟨events, hlog, -, hends⟩ := writes_plans faults (options.plansIn fixed s)
    (⟨options.enumeration s, true⟩ :: reads (options.filesIn s)) s
  obtain ⟨generated, hok⟩ := ends_plans hspare (options.plansIn fixed s)
    (⟨options.enumeration s, true⟩ :: reads (options.filesIn s)) s
  rcases hexec : exec ((options.plansIn fixed s).mapM (writePlanned (observed faults memory)))
    (⟨options.enumeration s, true⟩ :: reads (options.filesIn s)) s with ⟨result, log, s'⟩
  rw [hexec] at hlog hends hok
  rcases hends with ⟨-, hresult, hwritten⟩ | ⟨-, failure, hfailed⟩
  · obtain rfl : result = _ := hresult
    refine ⟨fixed, log, s', hchoose, observedRun_eq (by rw [exec_bind_ok hplan, hexec]), ?_⟩
    have hlooks : Looks (⟨options.enumeration s, true⟩ :: reads (options.filesIn s)) :=
      (looks_enumeration true).append (looks_reads _)
    rw [show log = _ from hlog, Log.written_append, Log.written_of_looks hlooks, List.nil_append,
      hwritten]
  · obtain rfl : result = _ := hfailed
    cases hok

end running

/-- Whatever the faults, what is written is a first part of what is planned. -/
theorem written_prefix (faults : Faults) (options : Options) (s : Memory) :
    Log.written (observedRun faults options s).log = [] ∨
      ∃ fixed, choose options.framework = .ok fixed ∧
        Log.written (observedRun faults options s).log <+:
          (options.plansIn fixed s).flatMap Planned.outputs := by
  have hshort : Log.written (observedRun faults options s).log <+:
      Log.written (observedRun faults.sparingChanges options s).log :=
    (changes_shortened faults options s).filterMap _
  by_cases h : Blocked faults.sparingChanges options s
  · obtain ⟨failure, looks, heq, hlooks⟩ := observedRun_blocked h
    rw [heq, Log.written_of_looks hlooks] at hshort
    exact .inl (List.prefix_nil.mp hshort)
  · obtain ⟨fixed, log, s', hchoose, heq, hwritten⟩ :=
      observedRun_unhindered (Faults.sparesChanges_sparingChanges faults) h
    rw [heq, hwritten] at hshort
    exact .inr ⟨fixed, hchoose, hshort⟩

/-! ### Succeeding -/

/-- A run on the memory state, without faults, succeeds. -/
def Succeeds (options : Options) (s : Memory) : Prop :=
  ∃ generated, ((generate memory options).run s).1 = .ok generated

section succeeding
variable {options : Options} {s : Memory}

/-- If nothing is missing, a run without faults plans its groups and writes all of their files. -/
theorem observedRun_never (h : ¬ Blocked .never options s) :
    ∃ fixed log s', choose options.framework = .ok fixed ∧
      observedRun .never options s =
        ⟨.ok ((options.plansIn fixed s).map Planned.generated), log, s'⟩ ∧
      Log.written log = (options.plansIn fixed s).flatMap Planned.outputs :=
  observedRun_unhindered Faults.sparesChanges_never h

theorem succeeds_iff : Succeeds options s ↔ ¬ Blocked .never options s := by
  rw [Succeeds, generate_memory]
  constructor
  · rintro ⟨generated, hok⟩ hblocked
    obtain ⟨failure, looks, heq, -⟩ := observedRun_blocked hblocked
    rw [heq] at hok
    cases hok
  · intro h
    obtain ⟨fixed, log, s', -, heq, -⟩ := observedRun_never h
    exact ⟨_, by rw [heq]⟩

theorem allReadable_never {log : Log} {files : List DescriptorFile} :
    AllReadable .never s log files ↔ ∀ file ∈ files, s.file? file.location ≠ none := by
  induction files generalizing log with
  | nil => simp [AllReadable]
  | cons file files ih =>
    rw [AllReadable, ih, List.forall_mem_cons, Readable]
    exact and_congr_left' ⟨And.right, fun h => ⟨rfl, h⟩⟩

/-- A run succeeds exactly if its framework and its pattern are known, if it finds descriptor
files, and if all of them can be read. -/
theorem succeeds_iff_readable : Succeeds options s ↔ (choose options.framework).toBool = true ∧
    (Store.pattern options.pattern).toBool = true ∧ options.foundIn s ≠ [] ∧
    ∀ file ∈ options.foundIn s, s.file? file.location ≠ none := by
  rw [succeeds_iff]
  constructor
  · intro h
    refine ⟨?_, ?_, fun hnil => h (.noDescriptors ((groupsIn_eq_nil_iff options s).mpr hnil)),
      fun file hfile => ?_⟩
    · cases hchoose : choose options.framework with
      | ok fixed => rfl
      | error failure => exact absurd (.framework hchoose) h
    · exact Decidable.by_contra fun hne => h (.enumeration (.inr (Bool.eq_false_iff.mpr hne)))
    · have hreads := Classical.not_not.mp fun hne => h (.reading hne)
      exact allReadable_never.mp hreads file ((perm_filesIn options s).mem_iff.mpr hfile)
  · rintro ⟨hchoose, hpattern, hne, hreads⟩ hblocked
    cases hblocked with
    | framework hfailure =>
      rw [hfailure] at hchoose
      cases hchoose
    | enumeration hfailure =>
      rcases hfailure with hfault | hfault
      · exact hfault rfl
      · rw [hfault] at hpattern
        cases hpattern
    | noDescriptors hnil => exact hne ((groupsIn_eq_nil_iff options s).mp hnil)
    | reading hfailure =>
      refine hfailure (allReadable_never.mpr fun file hfile => ?_)
      exact hreads file ((perm_filesIn options s).mem_iff.mp hfile)

/-- A run that succeeds could read all descriptor files. -/
theorem Succeeds.readable (h : Succeeds options s) :
    ∀ file ∈ options.foundIn s, s.file? file.location ≠ none :=
  (succeeds_iff_readable.mp h).2.2.2

/-- A run that succeeds has planned its groups, and only looked until then. -/
theorem run_plan (h : Succeeds options s) : ∃ fixed, choose options.framework = .ok fixed ∧
    (plan memory options).run s = (.ok (options.plansIn fixed s), s) := by
  obtain ⟨fixed, hchoose, hplan⟩ := exec_plan_ok (succeeds_iff.mp h)
  obtain ⟨log, herased⟩ := plan_alike erases_kept (erases_looks {}) options [] s
  have hnever : faultsOf {} = .never := by
    funext log call
    cases call <;> rfl
  rw [hnever, hplan] at herased
  have hresult := congrArg Prod.fst herased
  have hstate := congrArg (fun e => e.2.2) herased
  exact ⟨fixed, hchoose, Prod.ext hresult.symm hstate.symm⟩

end succeeding

end RouteScaffold.Run
