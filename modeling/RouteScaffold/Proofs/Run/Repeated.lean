import RouteScaffold.Proofs.Run.Stale

/-! Running twice.

Where every output directory is there already, a run makes none and writes its files
one after another (`observedRun_there`). A run leaves its own output directories
behind, and no file of it is a descriptor file, so a second run finds the same groups,
makes no directory and leaves every path with the content it has
(`generate_idempotent`). -/
namespace RouteScaffold.Store

/-! ### Writing into directories that are there -/

/-- Writes files one after another. -/
def Memory.writeAll (s : Memory) (files : List (Path × String)) : Memory :=
  files.foldl (fun s file => s.write file.1 file.2) s

theorem Memory.writeAll_append (s : Memory) (a b : List (Path × String)) :
    s.writeAll (a ++ b) = (s.writeAll a).writeAll b :=
  List.foldl_append

/-- What is there stays there. -/
theorem Memory.has_writeAll {s : Memory} {path : Path} (h : s.has path = true)
    (files : List (Path × String)) : (s.writeAll files).has path = true := by
  induction files generalizing s with
  | nil => exact h
  | cons file files ih =>
    refine ih ?_
    rw [Memory.has_write, h, Bool.or_true]

theorem Memory.dirs_writeAll (s : Memory) (files : List (Path × String)) :
    (s.writeAll files).dirs = s.dirs := by
  induction files generalizing s with
  | nil => rfl
  | cons file files ih => exact ih (s.write file.1 file.2)

/-- The directory of a file is there. -/
theorem Memory.has_above {s : Memory} {base : Path} (hbase : base.isAbsolute = true)
    {name : String} (hname : Path.IsName name) {content : String}
    (h : s.file? (base.join ⟨name⟩) = some content) : s.has base = true := by
  obtain ⟨file, hfile, -⟩ := Option.map_eq_some_iff.mp h
  have hfound := List.find?_some hfile
  have hsame := Path.same_iff.mp hfound
  rw [Memory.resolve, Path.resolve_of_isAbsolute _ (Path.isAbsolute_join hbase _),
    Path.components_join_name _ hname] at hsame
  rw [Memory.has, Bool.or_eq_true]
  refine .inl (List.any_eq_true.mpr ⟨file, List.mem_of_find?_eq_some hfile, ?_⟩)
  rw [Path.startsWith, hsame, Memory.resolve, Path.resolve_of_isAbsolute _ hbase]
  exact List.isPrefixOf_iff_prefix.mpr (List.prefix_append ..)

end RouteScaffold.Store

namespace RouteScaffold.Run
open Route Artifact Store

/-- What is logged when files are written one after another. -/
def writings (files : List (Path × String)) : Log :=
  files.map fun file => ⟨.write file.1 file.2, true⟩

theorem writings_append (a b : List (Path × String)) :
    writings (a ++ b) = writings a ++ writings b :=
  List.map_append

theorem changes_writings (files : List (Path × String)) :
    Log.changes (writings files) = files.map fun file => .write file.1 file.2 := by
  induction files with
  | nil => rfl
  | cons file files ih => exact congrArg (Call.write file.1 file.2 :: ·) ih

theorem made_writings (files : List (Path × String)) : Log.made (writings files) = [] := by
  rw [Log.made, changes_writings]
  exact List.filterMap_eq_nil_iff.mpr (List.forall_mem_map.mpr fun _ _ => rfl)

theorem written_writings (files : List (Path × String)) :
    Log.written (writings files) = files := by
  rw [Log.written, changes_writings, List.filterMap_map]
  exact List.filterMap_some

section writing
variable (log : Log) (s : Memory)

theorem exec_writeFiles (outputPath : Path) (files : List File) :
    let outputs := files.map fun file => (outputPath.join ⟨file.name⟩, file.content)
    exec (files.forM (writeFile (observed .never memory) outputPath)) log s =
      (.ok (), log ++ writings outputs, s.writeAll outputs) := by
  induction files generalizing log s with
  | nil => exact congrArg (fun log => (_, log, s)) (List.append_nil log).symm
  | cons file files ih =>
    have hwrite := @exec_write .never log s (outputPath.join ⟨file.name⟩) file.content
    refine (exec_bind_ok hwrite _).trans ((ih _ _).trans ?_)
    rw [List.append_assoc]
    rfl

/-- In a directory that is there, a run only writes its files. -/
theorem exec_writePlanned_there {planned : Planned} (h : s.has planned.outputPath = true) :
    exec (writePlanned (observed .never memory) planned) log s =
      (.ok planned.generated, log ++ writings planned.outputs, s.writeAll planned.outputs) := by
  have hhas := @exec_has .never log s planned.outputPath
  rw [h] at hhas
  exact (exec_bind_ok hhas _).trans
    (exec_bind_ok (exec_writeFiles log s planned.outputPath planned.files) _)

theorem exec_writeAll_there {plans : List Planned}
    (h : ∀ planned ∈ plans, s.has planned.outputPath = true) :
    exec (plans.mapM (writePlanned (observed .never memory))) log s =
      (.ok (plans.map Planned.generated), log ++ writings (plans.flatMap Planned.outputs),
        s.writeAll (plans.flatMap Planned.outputs)) := by
  induction plans generalizing log s with
  | nil => exact congrArg (fun log => (_, log, s)) (List.append_nil log).symm
  | cons planned plans ih =>
    obtain ⟨hfirst, hrest⟩ := List.forall_mem_cons.mp h
    have hwrite := exec_writePlanned_there log s hfirst
    have hplans := ih (log ++ writings planned.outputs) (s.writeAll planned.outputs)
      fun other hother => Memory.has_writeAll (hrest other hother) _
    rw [List.mapM_cons, exec_bind_ok hwrite, exec_bind_ok hplans, exec_pure, List.flatMap_cons,
      writings_append, Memory.writeAll_append, List.append_assoc]
    rfl

end writing

/-! ### The second run -/

theorem files_ne_nil (convention : Convention) (e : Endpoint) : e.files convention ≠ [] := by
  cases convention <;> simp [Endpoint.files, Endpoint.scripts]

section again
variable {options : Options} {s : Memory}

/-- A run whose output directories are all there makes no directory. -/
theorem observedRun_there {fixed : Option Convention} (hok : Succeeds options s)
    (hchoose : choose options.framework = .ok fixed)
    (h : ∀ planned ∈ options.plansIn fixed s, s.has planned.outputPath = true) :
    observedRun .never options s =
      ⟨.ok ((options.plansIn fixed s).map Planned.generated),
        ⟨options.enumeration s, true⟩ :: reads (options.filesIn s) ++
          writings ((options.plansIn fixed s).flatMap Planned.outputs),
        s.writeAll ((options.plansIn fixed s).flatMap Planned.outputs)⟩ := by
  obtain ⟨fixed', hchoose', hplan⟩ := exec_plan_ok (succeeds_iff.mp hok)
  obtain rfl := Except.ok.inj (hchoose.symm.trans hchoose')
  exact observedRun_eq ((exec_bind_ok hplan _).trans (exec_writeAll_there _ s h))

/-- A run leaves its output directories behind. -/
theorem has_outputPath_ran (h : s.workingDir.isAbsolute = true) (hok : Succeeds options s)
    {fixed : Option Convention} (hchoose : choose options.framework = .ok fixed)
    {planned : Planned} (hplanned : planned ∈ options.plansIn fixed s) :
    (ran options s).has planned.outputPath = true := by
  have habs : ∀ path ∈ planned.paths, path.isAbsolute = true :=
    isAbsolute_of_inPlace h (inPlace_plansOf _ planned hplanned)
  have hdir : planned.outputPath.isAbsolute = true := habs _ (List.mem_cons_self ..)
  have hne : planned.files ≠ [] := by
    obtain ⟨group, -, rfl⟩ := List.mem_map.mp hplanned
    exact files_ne_nil _ _
  obtain ⟨file, hfile⟩ := List.exists_mem_of_ne_nil _ hne
  have hname : Path.IsName file.name :=
    isName_of_mem_possibleNames _ (mem_possibleNames_of_planned hplanned hfile)
  obtain ⟨content, hcontent⟩ := exists_content? (mem_writes h hok hchoose hplanned hfile)
  exact Memory.has_above hdir hname
    (file?_ran_of_content? h hok (Path.isAbsolute_join hdir _) hcontent)

/-- No file that is planned is a descriptor file. -/
theorem not_descriptor_of_output (h : s.workingDir.isAbsolute = true) (hok : Succeeds options s)
    {fixed : Option Convention} (hchoose : choose options.framework = .ok fixed)
    {out : Path × String} (hout : out ∈ (options.plansIn fixed s).flatMap Planned.outputs) :
    isDescriptor out.1 = false := by
  obtain ⟨planned, hplanned, hout⟩ := List.mem_flatMap.mp hout
  obtain ⟨file, hfile, rfl⟩ := List.mem_map.mp hout
  have hwritten := mem_writes h hok hchoose hplanned hfile
  have hnot := not_descriptor_of_mem h hok hwritten
  exact hnot

/-- The second of two runs in a row, under observation. -/
def again (options : Options) (s : Memory) : Ending :=
  observedRun .never options (ran options s)

theorem again_eq (h : s.workingDir.isAbsolute = true) (hok : Succeeds options s)
    {fixed : Option Convention} (hchoose : choose options.framework = .ok fixed) :
    again options s =
      ⟨.ok ((options.plansIn fixed s).map Planned.generated),
        ⟨options.enumeration (ran options s), true⟩ :: reads (options.filesIn (ran options s)) ++
          writings ((options.plansIn fixed s).flatMap Planned.outputs),
        (ran options s).writeAll ((options.plansIn fixed s).flatMap Planned.outputs)⟩ := by
  have hplans := plansIn_ran h hok fixed
  have hthere : ∀ planned ∈ options.plansIn fixed (ran options s),
      (ran options s).has planned.outputPath = true := fun planned hplanned =>
    has_outputPath_ran h hok hchoose (hplans ▸ hplanned)
  rw [again, observedRun_there (succeeds_ran h hok) hchoose hthere, hplans]

/-- **Running twice is running once**, for every memory state with an absolute working directory and
all options with which a run succeeds. The second run has the same result and finds the same groups.
None of the files it writes is a descriptor file, it makes no directory, and no path gets another
content. -/
theorem generate_idempotent (h : s.workingDir.isAbsolute = true) (hok : Succeeds options s) :
    (∃ generated, ((generate memory options).run s).1 = .ok generated ∧
      ((generate memory options).run (ran options s)).1 = .ok generated) ∧
    options.groupsIn (ran options s) = options.groupsIn s ∧
    (∀ written ∈ Log.written (again options s).log, isDescriptor written.1 = false) ∧
    Log.made (again options s).log = [] ∧
    (ran options (ran options s)).dirs = (ran options s).dirs ∧
    ∀ path, (ran options (ran options s)).file? path = (ran options s).file? path := by
  obtain ⟨fixed, log, s', hchoose, hfirst, -⟩ := observedRun_never (succeeds_iff.mp hok)
  have hagain := again_eq h hok hchoose
  have hlooks : Looks (⟨options.enumeration (ran options s), true⟩ ::
      reads (options.filesIn (ran options s))) :=
    (looks_enumeration true).append (looks_reads _)
  have hstate : ran options (ran options s) = (again options s).memory := by
    rw [ran, generate_memory, again]
  have hmade : Log.made (again options s).log = [] := by
    rw [hagain, Log.made_append, made_writings, Log.made, Log.changes_of_looks hlooks]
    rfl
  have hwritten : Log.written (again options s).log =
      (options.plansIn fixed s).flatMap Planned.outputs := by
    rw [hagain, Log.written_append, written_writings, Log.written_of_looks hlooks]
    rfl
  refine ⟨⟨(options.plansIn fixed s).map Planned.generated, ?_, ?_⟩, groupsIn_ran h hok,
    fun out hout => not_descriptor_of_output h hok hchoose (hwritten ▸ hout), hmade, ?_,
    fun path => ?_⟩
  · rw [generate_memory, hfirst]
  · rw [generate_memory]
    show (again options s).result = _
    rw [hagain]
  · rw [hstate, hagain]
    exact Memory.dirs_writeAll _ _
  · exact not_not.mp fun hne => not_differs_again h hok ⟨path, hne⟩

/-- The output of one group is written into the directory of another, where a pattern for all files
finds it. -/
theorem generate_idempotent_nested :
    let s : Memory := {
      workingDir := ⟨"/project"⟩
      files := [(⟨"/project/app/route.get.config.ts"⟩, ""),
        (⟨"/project/app/api/route.put.config.ts"⟩, "")] }
    let options : Options := { outputDir := "../app/api", pattern := "**/*" }
    (s.workingDir.isAbsolute = true ∧ Succeeds options s) ∧
    (∃ generated, ((generate memory options).run s).1 = .ok generated ∧
      ((generate memory options).run (ran options s)).1 = .ok generated) ∧
    options.groupsIn (ran options s) = options.groupsIn s ∧
    (∀ written ∈ Log.written (again options s).log, isDescriptor written.1 = false) ∧
    Log.made (again options s).log = [] ∧
    (ran options (ran options s)).dirs = (ran options s).dirs ∧
    ∀ path, (ran options (ran options s)).file? path = (ran options s).file? path := by
  intro s options
  have h : s.workingDir.isAbsolute = true := by decide +kernel
  have hok : Succeeds options s := succeeds_iff_readable.mpr (by decide +kernel)
  exact ⟨⟨h, hok⟩, generate_idempotent h hok⟩

end again

end RouteScaffold.Run
