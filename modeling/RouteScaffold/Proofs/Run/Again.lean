import RouteScaffold.Proofs.Artifact.FileNames
import RouteScaffold.Proofs.Run.Plans
import RouteScaffold.Proofs.Store.Notes

/-! Running again.

States with the same descriptor files are alike to a run: it finds the same, plans the
same and writes the same (`SameDescriptors`). A run writes files that are not descriptor
files, and so a second run is alike to the first (`writes_ran`). -/
namespace RouteScaffold.Run
open Route Artifact Store

/-! ### What is written -/

/-- What a run on the overlay notes. -/
def rehearsed (options : Options) (s : Memory) : Notes :=
  (((generate (dryRun memory) options).run {}).run s).1.2

/-- What a run makes of a memory state. -/
def ran (options : Options) (s : Memory) : Memory := ((generate memory options).run s).2

section notes
variable {options : Options} {s : Memory}

theorem ran_eq (h : s.workingDir.isAbsolute = true) (options : Options) :
    ran options s = (rehearsed options s).perform s := by
  obtain ⟨result, notes, log, s', hdry, hdirect, hends⟩ := generate_rehearses h options
  have hnotes : ((generate (dryRun memory) options).run {}).run s = ((result, notes), s) :=
    run_of_exec hdry
  rw [ran, generate_memory, hdirect, rehearsed, hnotes]
  exact hends.memory

/-- What is noted are the files that are planned. -/
theorem writes_rehearsed (h : s.workingDir.isAbsolute = true) (hok : Succeeds options s)
    {fixed : Option Convention} (hchoose : choose options.framework = .ok fixed) :
    (rehearsed options s).writes =
      ((options.plansIn fixed s).flatMap Planned.outputs).map fun out => ⟨out.1, out.2⟩ := by
  obtain ⟨result, notes, log, s', hdry, hdirect, hends⟩ := generate_rehearses h options
  obtain ⟨fixed', log', s'', hchoose', hrun, hwritten⟩ := observedRun_never (succeeds_iff.mp hok)
  obtain rfl := Except.ok.inj (hchoose.symm.trans hchoose')
  have hlog : log = log' := by
    rw [hdirect] at hrun
    exact congrArg Ending.log hrun
  have hmap : notes.writes.map (fun w => (w.path, w.content)) =
      (options.plansIn fixed s).flatMap Planned.outputs := by
    rw [← hends.written, hlog, hwritten]
  have hnotes : ((generate (dryRun memory) options).run {}).run s = ((result, notes), s) :=
    run_of_exec hdry
  rw [rehearsed, hnotes, ← hmap, List.map_map]
  exact (List.map_id _).symm

theorem isAbsolute_rootFrom (h : s.workingDir.isAbsolute = true) (options : Options) :
    (options.rootFrom s.workingDir).isAbsolute = true := by
  unfold Options.rootFrom
  split
  · exact Path.isAbsolute_resolve h _
  · exact h

/-- A noted write is a file of a planned directory. -/
structure Output (options : Options) (s : Memory) (planned : Planned) (w : Written) : Prop where
  isPlanned : ∃ fixed, planned ∈ options.plansIn fixed s
  isFile : ∃ file ∈ planned.files, w = ⟨planned.outputPath.join ⟨file.name⟩, file.content⟩
  absolute : planned.outputPath.isAbsolute = true

theorem output_of_mem (h : s.workingDir.isAbsolute = true) (hok : Succeeds options s) {w : Written}
    (hw : w ∈ (rehearsed options s).writes) : ∃ planned, Output options s planned w := by
  obtain ⟨fixed, hchoose, -⟩ := run_plan hok
  rw [writes_rehearsed h hok hchoose] at hw
  obtain ⟨out, hout, rfl⟩ := List.mem_map.mp hw
  obtain ⟨planned, hplanned, hout⟩ := List.mem_flatMap.mp hout
  obtain ⟨file, hfile, rfl⟩ := List.mem_map.mp hout
  exact ⟨planned, ⟨fixed, hplanned⟩, ⟨file, hfile, rfl⟩,
    isAbsolute_of_inPlace h (inPlace_plansOf _ planned hplanned) _ (List.mem_cons_self ..)⟩

theorem mem_writes (h : s.workingDir.isAbsolute = true) (hok : Succeeds options s)
    {fixed : Option Convention} (hchoose : choose options.framework = .ok fixed)
    {planned : Planned} (hplanned : planned ∈ options.plansIn fixed s) {file : File}
    (hfile : file ∈ planned.files) :
    ⟨planned.outputPath.join ⟨file.name⟩, file.content⟩ ∈ (rehearsed options s).writes := by
  rw [writes_rehearsed h hok hchoose]
  exact List.mem_map.mpr ⟨_, List.mem_flatMap.mpr ⟨planned, hplanned,
    List.mem_map.mpr ⟨file, hfile, rfl⟩⟩, rfl⟩

theorem absolute_rehearsed (h : s.workingDir.isAbsolute = true) (hok : Succeeds options s) :
    (rehearsed options s).Absolute := by
  intro w hw
  obtain ⟨planned, -, ⟨file, -, rfl⟩, habs⟩ := output_of_mem h hok hw
  exact Path.isAbsolute_join habs _

/-- The names of the files that are planned for a directory. -/
theorem mem_possibleNames_of_planned {fixed : Option Convention} {planned : Planned}
    (h : planned ∈ options.plansIn fixed s) {file : File} (hfile : file ∈ planned.files) :
    file.name ∈ possibleNames := by
  obtain ⟨group, -, rfl⟩ := List.mem_map.mp h
  exact Endpoint.mem_possibleNames _ _ (List.mem_map_of_mem hfile)

/-- No file that is written is a descriptor file. -/
theorem not_descriptor_of_mem (h : s.workingDir.isAbsolute = true) (hok : Succeeds options s)
    {w : Written} (hw : w ∈ (rehearsed options s).writes) : isDescriptor w.path = false := by
  obtain ⟨planned, ⟨fixed, hplanned⟩, ⟨file, hfile, rfl⟩, habs⟩ := output_of_mem h hok hw
  have hname := mem_possibleNames_of_planned hplanned hfile
  have hlast : (planned.outputPath.join ⟨file.name⟩).fileName? = some file.name :=
    Path.fileName?_eq_some_iff.mpr
      ⟨_, Path.components_join_name _ (isName_of_mem_possibleNames _ hname)⟩
  rw [isDescriptor, hlast, Option.bind_some, methodOf?_of_mem_possibleNames _ hname]
  rfl

end notes

/-! ### The same descriptor files -/

/-- Two states have one working directory and the same descriptor files. -/
structure SameDescriptors (s t : Memory) : Prop where
  workingDir : t.workingDir = s.workingDir
  descriptors : t.descriptors = s.descriptors

section same
variable {options : Options} {s t : Memory}

theorem isDescriptor_location {file : DescriptorFile} (hfile : file ∈ options.foundIn s) :
    isDescriptor file.location = true := by
  obtain ⟨candidate, hcandidate, hof⟩ := List.mem_filterMap.mp hfile
  have hof := ofCandidate?_eq_some_iff.mp hof
  have hcomponents := components_join_below hcandidate List.prefix_rfl
  rw [hof.components, ← List.append_assoc] at hcomponents
  have hlast : file.location.fileName? = some file.fileName := by
    rw [hof.location]
    exact Path.fileName?_eq_some_iff.mpr ⟨_, hcomponents⟩
  rw [isDescriptor, hlast, Option.bind_some, hof.method]
  rfl

theorem isAbsolute_location (h : s.workingDir.isAbsolute = true) {file : DescriptorFile}
    (hfile : file ∈ options.foundIn s) : file.location.isAbsolute = true := by
  obtain ⟨candidate, -, hof⟩ := List.mem_filterMap.mp hfile
  rw [(ofCandidate?_eq_some_iff.mp hof).location]
  exact Path.isAbsolute_join (isAbsolute_rootFrom h options) _

namespace SameDescriptors
variable (hsame : SameDescriptors s t) (h : s.workingDir.isAbsolute = true)
include hsame

theorem foundIn (options : Options) : options.foundIn t = options.foundIn s := by
  rw [Options.foundIn, Options.foundIn, Options.candidatesIn, Options.candidatesIn,
    hsame.workingDir]
  cases Store.pattern options.pattern with
  | error fault => rfl
  | ok p =>
    dsimp only
    rw [Memory.filterMap_matching, Memory.filterMap_matching, hsame.descriptors, Memory.resolve,
      hsame.workingDir]
    rfl

theorem groupsIn (options : Options) : options.groupsIn t = options.groupsIn s := by
  have hfound := hsame.foundIn options
  rw [Options.foundIn, Options.foundIn, hsame.workingDir] at hfound
  rw [groupsIn_eq, groupsIn_eq, hsame.workingDir, groupsOf_eq, groupsOf_eq, hfound]

include h

theorem file?_location {file : DescriptorFile} (hfile : file ∈ options.foundIn s) :
    t.file? file.location = s.file? file.location := by
  have hresolve (u : Memory) : u.resolve file.location = file.location :=
    Path.resolve_of_isAbsolute _ (isAbsolute_location h hfile)
  have hdescriptor := isDescriptor_location hfile
  rw [Memory.file?_descriptors (by rwa [hresolve]), Memory.file?_descriptors (by rwa [hresolve]),
    hresolve, hresolve, hsame.descriptors]

theorem succeeds (hok : Succeeds options s) : Succeeds options t := by
  obtain ⟨hchoose, hpattern, hne, hreads⟩ := succeeds_iff_readable.mp hok
  refine succeeds_iff_readable.mpr ⟨hchoose, hpattern, hsame.foundIn options ▸ hne,
    fun file hfile => ?_⟩
  rw [hsame.foundIn] at hfile
  rw [hsame.file?_location h hfile]
  exact hreads file hfile

/-- The same is planned. -/
theorem plansIn (options : Options) (fixed : Option Convention) :
    options.plansIn fixed t = options.plansIn fixed s := by
  rw [Options.plansIn, Options.plansIn, hsame.workingDir, hsame.groupsIn, plansOf, plansOf]
  refine List.map_congr_left fun group hgroup => ?_
  have hconfigs : group.files.map (descriptorIn t) = group.files.map (descriptorIn s) := by
    refine List.map_congr_left fun file hfile => ?_
    have hfound := (perm_filesIn options s).mem_iff.mp (List.mem_flatMap.mpr ⟨group, hgroup, hfile⟩)
    rw [descriptorIn, hsame.file?_location h hfound, descriptorIn]
  rw [hconfigs]

/-- The same is written. -/
theorem writes (hok : Succeeds options s) :
    (rehearsed options t).writes = (rehearsed options s).writes := by
  obtain ⟨fixed, hchoose, -⟩ := run_plan hok
  have h' : t.workingDir.isAbsolute = true := hsame.workingDir ▸ h
  rw [writes_rehearsed h' (hsame.succeeds h hok) hchoose, writes_rehearsed h hok hchoose,
    hsame.plansIn h]

theorem content? (hok : Succeeds options s) (q : Path) :
    (rehearsed options t).content? q = (rehearsed options s).content? q := by
  simp only [Notes.content?, hsame.writes h hok]

end SameDescriptors

/-! ### Running again -/

theorem workingDir_ran (h : s.workingDir.isAbsolute = true) (options : Options) :
    (ran options s).workingDir = s.workingDir := by
  rw [ran_eq h, workingDir_perform]

/-- A run leaves the descriptor files. -/
theorem sameDescriptors_ran (h : s.workingDir.isAbsolute = true) (hok : Succeeds options s) :
    SameDescriptors s (ran options s) where
  workingDir := workingDir_ran h options
  descriptors := by
    rw [ran_eq h]
    exact descriptors_perform (absolute_rehearsed h hok) (fun _ => not_descriptor_of_mem h hok) s

theorem groupsIn_ran (h : s.workingDir.isAbsolute = true) (hok : Succeeds options s) :
    options.groupsIn (ran options s) = options.groupsIn s :=
  (sameDescriptors_ran h hok).groupsIn options

theorem succeeds_ran (h : s.workingDir.isAbsolute = true) (hok : Succeeds options s) :
    Succeeds options (ran options s) := (sameDescriptors_ran h hok).succeeds h hok

theorem plansIn_ran (h : s.workingDir.isAbsolute = true) (hok : Succeeds options s)
    (fixed : Option Convention) :
    options.plansIn fixed (ran options s) = options.plansIn fixed s :=
  (sameDescriptors_ran h hok).plansIn h options fixed

theorem writes_ran (h : s.workingDir.isAbsolute = true) (hok : Succeeds options s) :
    (rehearsed options (ran options s)).writes = (rehearsed options s).writes :=
  (sameDescriptors_ran h hok).writes h hok

end same

end RouteScaffold.Run
