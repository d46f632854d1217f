import RouteScaffold.Proofs.Run.Again
import RouteScaffold.Proofs.Run.Directories
import RouteScaffold.Proofs.Source.Facets
import RouteScaffold.Settings

/-! Telling what is out of date.

Something is told to be out of date exactly if a run creates or changes a file, or if
two of its writes at one path do not agree (`stale_iff_differs_or`). Accepted settings
keep the directories apart, and within one directory two files have one name only if
two descriptors have one method. Where no directory has two of them, checking agrees
with running (`stale_iff_differs`); where one has, and their hooks differ, a file stays
out of date for good (`disagree_of_hooks`, `stale_without_difference`). -/
namespace RouteScaffold.Run
open Route Artifact Store Text

section agreeing
variable {options : Options} {s : Memory}

/-! ### Agreeing -/

/-- A run creates or changes a file exactly at the paths where what is noted last is not there
already. -/
theorem differs_ran_iff (h : s.workingDir.isAbsolute = true) (hok : Succeeds options s) :
    Differs s (ran options s) ↔ ∃ q, q.isAbsolute = true ∧ ∃ content,
      (rehearsed options s).content? q = some content ∧ s.file? q ≠ some content := by
  have habs := absolute_rehearsed h hok
  constructor
  · rintro ⟨path, hne⟩
    have hq : (s.resolve path).isAbsolute = true := Path.isAbsolute_resolve h path
    have hresolved (s' : Memory) (hdir : s'.workingDir = s.workingDir) :
        s'.file? path = s'.file? (s.resolve path) := by
      rw [Memory.file?, Memory.file?, Memory.resolve, Memory.resolve, hdir,
        Path.resolve_of_isAbsolute _ hq]
      rfl
    rw [hresolved s rfl, hresolved _ (workingDir_ran h options), ran_eq h,
      file?_perform habs s hq] at hne
    cases hcontent : (rehearsed options s).content? (s.resolve path) with
    | none => exact absurd (by rw [hcontent, Option.none_or]) hne
    | some content =>
      rw [hcontent, Option.some_or] at hne
      exact ⟨_, hq, content, hcontent, hne.symm⟩
  · rintro ⟨q, hq, content, hcontent, hne⟩
    refine ⟨q, ?_⟩
    rw [ran_eq h, file?_perform habs s hq, hcontent, Option.some_or]
    exact hne.symm

/-- Something is out of date exactly if a run creates or changes a file, or if two of the writes at
one path do not agree. -/
theorem stale_iff_differs_or (h : s.workingDir.isAbsolute = true) (hok : Succeeds options s) :
    Stale s (rehearsed options s) ↔
      Differs s (ran options s) ∨ (rehearsed options s).Disagree := by
  rw [stale_iff, differs_ran_iff h hok]
  constructor
  · rintro ⟨w, hw, hne⟩
    obtain ⟨content, hcontent⟩ := exists_content? hw
    obtain ⟨last, hlast, hsame, rfl⟩ := mem_of_content? hcontent
    by_cases heq : last.content = w.content
    · exact .inl ⟨w.path, absolute_rehearsed h hok w hw, _, hcontent, heq ▸ hne⟩
    · exact .inr ⟨last, hlast, w, hw, hsame, heq⟩
  · rintro (⟨q, -, content, hcontent, hne⟩ | ⟨a, ha, b, hb, hsame, hne⟩)
    · obtain ⟨w, hw, hsame, rfl⟩ := mem_of_content? hcontent
      exact ⟨w, hw, by rwa [s.file?_congr hsame]⟩
    · -- A state cannot hold both contents at their path.
      by_cases hfile : s.file? a.path = some a.content
      · refine ⟨b, hb, fun hother => hne (Option.some.inj ?_)⟩
        rw [← hfile, ← hother, s.file?_congr hsame]
      · exact ⟨a, ha, hfile⟩

theorem content?_ran (h : s.workingDir.isAbsolute = true) (hok : Succeeds options s) (q : Path) :
    (rehearsed options (ran options s)).content? q = (rehearsed options s).content? q :=
  (sameDescriptors_ran h hok).content? h hok q

/-- After a run, a path holds what was written there last. -/
theorem file?_ran_of_content? (h : s.workingDir.isAbsolute = true) (hok : Succeeds options s)
    {q : Path} (hq : q.isAbsolute = true) {content : String}
    (hcontent : (rehearsed options s).content? q = some content) :
    (ran options s).file? q = some content := by
  rw [ran_eq h, file?_perform (absolute_rehearsed h hok) s hq, hcontent, Option.some_or]

/-- A second run changes nothing. -/
theorem not_differs_again (h : s.workingDir.isAbsolute = true) (hok : Succeeds options s) :
    ¬ Differs (ran options s) (ran options (ran options s)) := by
  have h' : (ran options s).workingDir.isAbsolute = true := by rw [workingDir_ran h, h]
  rw [differs_ran_iff h' (succeeds_ran h hok)]
  rintro ⟨q, hq, content, hcontent, hne⟩
  rw [content?_ran h hok] at hcontent
  exact hne (file?_ran_of_content? h hok hq hcontent)

/-- After a run, only what two writes do not agree on is out of date. -/
theorem stale_ran_iff (h : s.workingDir.isAbsolute = true) (hok : Succeeds options s) :
    Stale (ran options s) (rehearsed options (ran options s)) ↔
      (rehearsed options s).Disagree := by
  have h' : (ran options s).workingDir.isAbsolute = true := by rw [workingDir_ran h, h]
  rw [stale_iff_differs_or h' (succeeds_ran h hok), or_iff_right (not_differs_again h hok),
    Notes.Disagree, writes_ran h hok]
  rfl

/-! ### One descriptor for each method -/

theorem method_descriptorIn (s : Memory) (file : DescriptorFile) :
    (descriptorIn s file).method = file.method := Source.method_ofSource _ _ _

theorem fileName_descriptorIn (s : Memory) (file : DescriptorFile) :
    (descriptorIn s file).fileName = file.fileName := Source.fileName_ofSource _ _ _

/-- Where a file of a group is written. -/
theorem components_output (hdir : Path.IsName options.outputDir) {group : Group}
    (hgroup : group ∈ options.groupsIn s) {name : String} (hname : Path.IsName name) :
    ((((options.rootFrom s.workingDir).join group.directory).join ⟨options.outputDir⟩).join
        ⟨name⟩).components =
      (options.rootFrom s.workingDir).components ++ group.directory.components ++
        [.normal options.outputDir, .normal name] := by
  rw [Path.components_join_name _ hname, Path.components_join_name _ hdir, components_group hgroup,
    List.append_assoc _ _ [_]]
  rfl

/-- Files at one path are of one directory and have one name. -/
theorem same_output (hdir : Path.IsName options.outputDir)
    {a b : Group} (ha : a ∈ options.groupsIn s) (hb : b ∈ options.groupsIn s) {name other : String}
    (hname : Path.IsName name) (hother : Path.IsName other)
    (hsame : Path.same
      ((((options.rootFrom s.workingDir).join a.directory).join ⟨options.outputDir⟩).join ⟨name⟩)
      ((((options.rootFrom s.workingDir).join b.directory).join ⟨options.outputDir⟩).join ⟨other⟩)
        = true) :
    a.directory.components = b.directory.components ∧ name = other := by
  rw [Path.same_iff, components_output hdir ha hname, components_output hdir hb hother] at hsame
  obtain ⟨hfront, hback⟩ := List.append_inj' hsame rfl
  exact ⟨List.append_cancel_left hfront, by simpa using hback⟩

/-- No directory has two descriptor files of one method. -/
def OneEach (options : Options) (s : Memory) : Prop :=
  (options.foundIn s).Pairwise fun a b => a.directory.same b.directory = true → a.method ≠ b.method

theorem OneEach.nodup (h : OneEach options s) {group : Group}
    (hgroup : group ∈ options.groupsIn s) : (group.files.map DescriptorFile.method).Nodup := by
  have hsymm {a b : DescriptorFile}
      (hab : a.directory.same b.directory = true → a.method ≠ b.method)
      (hba : b.directory.same a.directory = true) : b.method ≠ a.method :=
    (hab (by rwa [Path.same_comm])).symm
  have hfiles := ((perm_filesIn options s).pairwise_iff hsymm).mpr h
  have hgroupFiles := (List.pairwise_flatMap.mp hfiles).1 group hgroup
  rw [groupsIn_eq] at hgroup
  have hdir := (partition_groupsOf _ _).directory group hgroup
  refine List.pairwise_map.mpr (hgroupFiles.imp_of_mem fun {a b} ha hb hab => hab ?_)
  exact Path.same_iff.mpr ((hdir a ha).trans (hdir b hb).symm)

/-- The files that are rendered for one directory have different names. -/
theorem OneEach.nodup_names (h : OneEach options s) (fixed : Option Convention) {group : Group}
    (hgroup : group ∈ options.groupsIn s) :
    (((endpointOf fixed s group).files (conventionOf fixed group.directory)).map
      File.name).Nodup := by
  have hmethods : ((group.files.map (descriptorIn s)).map Descriptor.method).Nodup := by
    have hsame : Descriptor.method ∘ descriptorIn s = DescriptorFile.method := by
      funext file
      exact method_descriptorIn s file
    rw [List.map_map, hsame]
    exact h.nodup hgroup
  exact (endpointOf fixed s group).nodup_names (conventionOf fixed group.directory) hmethods

/-- If there is one descriptor file for each method, all writes are at different paths. -/
theorem distinct_writes (h : s.workingDir.isAbsolute = true) (hok : Succeeds options s)
    (hdir : Path.IsName options.outputDir) (hone : OneEach options s) :
    (rehearsed options s).writes.Pairwise fun a b => a.path.same b.path = false := by
  obtain ⟨fixed, hchoose, -⟩ := run_plan hok
  have hnames {planned : Planned} (hplanned : planned ∈ options.plansIn fixed s) {file : File}
      (hfile : file ∈ planned.files) : Path.IsName file.name :=
    isName_of_mem_possibleNames _ (mem_possibleNames_of_planned hplanned hfile)
  rw [writes_rehearsed h hok hchoose, List.pairwise_map, List.pairwise_flatMap]
  constructor
  · -- Within one directory, the names differ.
    intro planned hplanned
    obtain ⟨group, hgroup, rfl⟩ := List.mem_map.mp hplanned
    have hnodup := List.pairwise_map.mp (hone.nodup_names fixed hgroup)
    refine List.pairwise_map.mpr (hnodup.imp_of_mem fun ha hb hne => ?_)
    rw [Bool.eq_false_iff]
    intro hsame
    exact hne (same_output hdir hgroup hgroup (hnames hplanned ha) (hnames hplanned hb) hsame).2
  · -- From one directory to the next, the directories differ.
    have hincreasing : (options.groupsIn s).Pairwise
        fun a b => a.directory.compare b.directory = .lt := by
      rw [groupsIn_eq]
      exact (partition_groupsOf _ _).increasing
    refine List.pairwise_map.mpr (hincreasing.imp_of_mem fun {a b} ha hb hlt => ?_)
    intro x hx y hy
    obtain ⟨file, hfile, rfl⟩ := List.mem_map.mp hx
    obtain ⟨other, hother, rfl⟩ := List.mem_map.mp hy
    rw [Bool.eq_false_iff]
    intro hsame
    obtain ⟨hdirs, -⟩ := same_output hdir ha hb (hnames (List.mem_map_of_mem ha) hfile)
      (hnames (List.mem_map_of_mem hb) hother) hsame
    rw [Path.compare_eq_iff.mpr hdirs] at hlt
    cases hlt

/-- Two descriptor files of one method write into one hook file. If their hooks differ, the writes
disagree. -/
theorem disagree_of_hooks (h : s.workingDir.isAbsolute = true) (hok : Succeeds options s)
    {fixed : Option Convention} (hchoose : choose options.framework = .ok fixed) {group : Group}
    (hgroup : group ∈ options.groupsIn s) {a b : DescriptorFile} (ha : a ∈ group.files)
    (hb : b ∈ group.files) (hmethod : a.method = b.method)
    (hdiffer : ((endpointOf fixed s group).hookScript (descriptorIn s a)).text ≠
      ((endpointOf fixed s group).hookScript (descriptorIn s b)).text) :
    (rehearsed options s).Disagree := by
  let planned := render fixed options.outputDir (options.rootFrom s.workingDir) group
    (group.files.map (descriptorIn s))
  have hplanned : planned ∈ options.plansIn fixed s := List.mem_map_of_mem hgroup
  have hhook {file : DescriptorFile} (hfile : file ∈ group.files) :
      ((endpointOf fixed s group).hookScript (descriptorIn s file)).file ∈ planned.files := by
    rw [files_render]
    exact Endpoint.hook_mem_files _ _ (List.mem_map_of_mem hfile)
  refine ⟨_, mem_writes h hok hchoose hplanned (hhook ha),
    _, mem_writes h hok hchoose hplanned (hhook hb), ?_, ?_⟩
  · rw [Endpoint.name_hookScript, Endpoint.name_hookScript, method_descriptorIn,
      method_descriptorIn, hmethod]
    exact Path.same_iff.mpr rfl
  · dsimp only
    rw [Script.content_file, Script.content_file]
    exact hdiffer

end agreeing

/-! ### Accepted settings -/

/-- The output directory of accepted settings is a name, with the blanks around it. -/
theorem isName_outputDir {settings : Settings} (h : settings.defect? = none) :
    Path.IsName settings.outputDir := by
  have hone : Settings.isOneName settings.outputDir = true := by
    by_contra hnot
    rw [Settings.defect?, Bool.eq_false_iff.mpr hnot] at h
    split at h <;> cases h
  have hmem : ∀ c ∈ settings.outputDir.toList, isBlank c = false →
      c ∈ trim settings.outputDir.toList := by
    intro c hc hblank
    refine List.mem_reverse.mpr (mem_dropWhile_of_not (List.mem_reverse.mpr ?_) hblank)
    exact mem_dropWhile_of_not hc hblank
  simp only [Settings.isOneName, Bool.and_eq_true, Bool.not_eq_true', bne_iff_ne, ne_eq] at hone
  obtain ⟨⟨⟨hempty, hdot⟩, hdots⟩, hslash⟩ := hone
  refine ⟨fun hc => ?_, ?_, ?_⟩
  · have := List.any_eq_false.mp hslash '/' (hmem _ hc (by decide))
    simp at this
  · rw [Path.isIdle, Bool.or_eq_false_iff, beq_eq_false_iff_ne, beq_eq_false_iff_ne]
    refine ⟨fun hnil => ?_, fun hsingle => ?_⟩
    · rw [hnil] at hempty
      cases hempty
    · rw [hsingle] at hdot
      exact hdot (by decide)
  · intro hparent
    rw [hparent] at hdots
    exact hdots (by decide)

/-! ### Checking and running -/

/-- **Checking agrees with running** where no directory has two descriptor files of one method: for
accepted settings, from an absolute working directory, something is out of date exactly if a run
that succeeds creates or changes a file, and after the run nothing is. -/
theorem stale_iff_differs {settings : Settings} {s : Memory} (haccepted : settings.defect? = none)
    (h : s.workingDir.isAbsolute = true) (hok : Succeeds settings.options s)
    (hone : OneEach settings.options s) :
    (Stale s (rehearsed settings.options s) ↔ Differs s (ran settings.options s)) ∧
      ¬ Stale (ran settings.options s)
        (rehearsed settings.options (ran settings.options s)) := by
  have hagree : ¬ (rehearsed settings.options s).Disagree :=
    not_disagree (distinct_writes h hok (isName_outputDir haccepted) hone)
  refine ⟨(stale_iff_differs_or h hok).trans (or_iff_left hagree), ?_⟩
  rwa [stale_ran_iff h hok]

/-- A state where nothing is generated yet. -/
theorem stale_iff_differs_new :
    let s : Memory := {
      workingDir := ⟨"/"⟩
      files := [(⟨"/app/route.get.config.ts"⟩, ""), (⟨"/app/route.put.config.ts"⟩, "")] }
    let settings : Settings := {}
    (settings.defect? = none ∧ s.workingDir.isAbsolute = true ∧ Succeeds settings.options s ∧
      OneEach settings.options s) ∧
    (Stale s (rehearsed settings.options s) ↔ Differs s (ran settings.options s)) ∧
      ¬ Stale (ran settings.options s)
        (rehearsed settings.options (ran settings.options s)) := by
  intro s settings
  have haccepted : settings.defect? = none := by decide +kernel
  have h : s.workingDir.isAbsolute = true := by decide +kernel
  have hok : Succeeds settings.options s := succeeds_iff_readable.mpr (by decide +kernel)
  have hone : OneEach settings.options s := by
    unfold OneEach
    decide +kernel
  exact ⟨⟨haccepted, h, hok, hone⟩, stale_iff_differs haccepted h hok hone⟩

/-- Two descriptor files of one method: after a run, another run changes nothing, and yet a file is
out of date. -/
theorem stale_without_difference :
    let s : Memory := {
      workingDir := ⟨"/project"⟩
      files := [
        (⟨"/project/app/route.get.config.js"⟩,
          "export const requestValidator = f(\x7b \x7d);\n"),
        (⟨"/project/app/route.get.config.ts"⟩,
          "export const requestValidator = f(\x7b params: p \x7d);\n")] }
    let settings : Settings := {}
    let after := ran settings.options s
    (settings.defect? = none ∧ after.workingDir.isAbsolute = true ∧
      Succeeds settings.options after) ∧
    ¬ Differs after (ran settings.options after) ∧
      Stale after (rehearsed settings.options after) := by
  intro s settings after
  have haccepted : settings.defect? = none := by decide +kernel
  have h : s.workingDir.isAbsolute = true := by decide +kernel
  have hok : Succeeds settings.options s := succeeds_iff_readable.mpr (by decide +kernel)
  have hchoose : choose settings.options.framework = .ok none := rfl
  let location (name : String) : Path := ⟨"/project/./app/" ++ name⟩
  let js : DescriptorFile :=
    ⟨⟨"app"⟩, .get, "route.get.config.js", location "route.get.config.js"⟩
  let ts : DescriptorFile :=
    ⟨⟨"app"⟩, .get, "route.get.config.ts", location "route.get.config.ts"⟩
  have hrecords : settings.options.recordsIn s ⟨"app"⟩ = [js, ts] := by decide +kernel
  have hgroup : Group.sorted ⟨⟨"app"⟩, [js, ts]⟩ ∈ settings.options.groupsIn s := by
    refine List.mem_of_find?_eq_some (p := (·.directory.same ⟨"app"⟩)) ?_
    rw [find?_groupsIn, hrecords]
  have hmem : ∀ file ∈ [js, ts], file ∈ (Group.sorted ⟨⟨"app"⟩, [js, ts]⟩).files :=
    fun file hfile => (perm_sorted _).mem_iff.mpr hfile
  have hdisagree : (rehearsed settings.options s).Disagree := by
    refine disagree_of_hooks h hok hchoose hgroup (hmem js (by simp)) (hmem ts (by simp)) rfl ?_
    decide +kernel
  exact ⟨⟨haccepted, by rw [workingDir_ran h, h], succeeds_ran h hok⟩,
    not_differs_again h hok, (stale_ran_iff h hok).mpr hdisagree⟩

end RouteScaffold.Run
