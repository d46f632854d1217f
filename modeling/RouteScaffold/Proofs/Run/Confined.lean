import RouteScaffold.Proofs.Artifact.Imports
import RouteScaffold.Proofs.Route.DescriptorNames
import RouteScaffold.Proofs.Run.Stale

/-! What accepted settings make sure of.

The output directory of accepted settings is one name, although only its text without
the blanks around it is looked at. So whatever the working directory, the root and the
faults are, a run writes into the output directories of the groups it found and
nowhere else, no two groups share a path, no descriptor file is written, and what a
module imports from the directory above it is the descriptor it was made from
(`generate_confined`). -/
namespace RouteScaffold.Run
open Route Artifact Store

/-- What a run plans for a group of a memory state. -/
def Options.plannedIn (options : Options) (fixed : Option Convention) (s : Memory)
    (group : Group) : Planned :=
  render fixed options.outputDir (options.rootFrom s.workingDir) group
    (group.files.map (descriptorIn s))

theorem plansIn_eq (options : Options) (fixed : Option Convention) (s : Memory) :
    options.plansIn fixed s = (options.groupsIn s).map (options.plannedIn fixed s) := rfl

/-- The import names the module of a descriptor file of the directory, seen from the output
directory. -/
structure LeadsTo (directory outputPath : Path) (i : Import) (file : DescriptorFile) : Prop where
  /-- Going by its components, the module lies in the directory. -/
  target : Path.followedFrom outputPath.components ⟨i.module⟩ =
    directory.components ++ [.normal (stem file.fileName)]
  /-- With one extension, the module is the file's name. -/
  extended : ∃ extension, file.fileName = stem file.fileName ++ "." ++ extension ∧
    extension ≠ "" ∧ '.' ∉ extension.toList
  /-- The file was read in the directory. -/
  location : file.location.components = directory.components ++ [.normal file.fileName]

/-- What is planned stays within the output directories. -/
structure Confined (options : Options) (fixed : Option Convention) (s : Memory) : Prop where
  /-- The output directory is one component. -/
  oneName : (⟨options.outputDir⟩ : Path).components = [.normal options.outputDir]
  /-- A file lies under a name in the output directory of its group. -/
  inside : ∀ group ∈ options.groupsIn s, ∀ out ∈ (options.plannedIn fixed s group).outputs,
    ∃ name, '/' ∉ name.toList ∧ out.1.components =
      ((options.rootFrom s.workingDir).join group.directory).components ++
        [.normal options.outputDir, .normal name]
  /-- Two groups have no path in common. -/
  apart : (options.groupsIn s).Pairwise fun a b =>
    ∀ x ∈ (options.plannedIn fixed s a).outputs, ∀ y ∈ (options.plannedIn fixed s b).outputs,
      x.1.same y.1 = false
  /-- No descriptor file is written. -/
  noDescriptor : ∀ group ∈ options.groupsIn s,
    ∀ out ∈ (options.plannedIn fixed s group).outputs, isDescriptor out.1 = false
  /-- What a module imports from the directory above it is a descriptor of its group. -/
  imports : ∀ group ∈ options.groupsIn s,
    ∀ script ∈ (endpointOf fixed s group).scripts (conventionOf fixed group.directory),
      script.file ∈ (options.plannedIn fixed s group).files ∧
      ∀ i ∈ script.imports, i.isAbove = true → i.text ∈ script.lines ∧
        ∃ file ∈ group.files, ∃ typeOnly, i = .config typeOnly (descriptorIn s file) ∧
          LeadsTo ((options.rootFrom s.workingDir).join group.directory)
            (options.plannedIn fixed s group).outputPath i file

section confining
variable {options : Options} {fixed : Option Convention} {s : Memory} {group : Group}

/-- The outputs of a group are names in its output directory. -/
theorem exists_name_of_output (hdir : Path.IsName options.outputDir)
    (hgroup : group ∈ options.groupsIn s) {out : Path × String}
    (hout : out ∈ (options.plannedIn fixed s group).outputs) :
    ∃ name ∈ possibleNames, out.1.components =
      ((options.rootFrom s.workingDir).join group.directory).components ++
        [.normal options.outputDir, .normal name] := by
  obtain ⟨file, hfile, rfl⟩ := List.mem_map.mp hout
  have hname : file.name ∈ possibleNames :=
    Endpoint.mem_possibleNames _ _ (List.mem_map_of_mem hfile)
  refine ⟨file.name, hname, ?_⟩
  rw [components_group hgroup]
  exact components_output hdir hgroup (isName_of_mem_possibleNames _ hname)

/-- Outputs at one path are of one directory. -/
theorem directory_of_same (hdir : Path.IsName options.outputDir) {a b : Group}
    (ha : a ∈ options.groupsIn s) (hb : b ∈ options.groupsIn s) {x y : Path × String}
    (hx : x ∈ (options.plannedIn fixed s a).outputs)
    (hy : y ∈ (options.plannedIn fixed s b).outputs) (hsame : x.1.same y.1 = true) :
    a.directory.components = b.directory.components := by
  obtain ⟨name, -, hname⟩ := exists_name_of_output hdir ha hx
  obtain ⟨other, -, hother⟩ := exists_name_of_output hdir hb hy
  rw [Path.same_iff, hname, hother, components_group ha, components_group hb] at hsame
  exact List.append_cancel_left (List.append_inj_left' hsame rfl)

theorem isName_stem (m : Method) : Path.IsName ("route." ++ m.token ++ ".config") := by
  cases m <;> decide

/-- The specifier of a descriptor leads out of the output directory to the descriptor's file. -/
theorem leadsTo_config (hdir : Path.IsName options.outputDir) (hgroup : group ∈ options.groupsIn s)
    {file : DescriptorFile} (hfile : file ∈ group.files) (typeOnly : Bool) :
    LeadsTo ((options.rootFrom s.workingDir).join group.directory)
      (options.plannedIn fixed s group).outputPath (.config typeOnly (descriptorIn s file))
      file := by
  have hmethod : methodOf? file.fileName = some file.method := by
    rw [groupsIn_eq] at hgroup
    obtain ⟨candidate, -, hof⟩ := of_mem_groupsOf hgroup hfile
    exact hof.method
  obtain ⟨extension, hnamed⟩ := methodOf?_eq_some_iff.mp hmethod
  have hstem : Path.IsName (stem file.fileName) := hnamed.stem_eq ▸ isName_stem _
  refine ⟨?_, exists_extension hmethod, components_location hgroup hfile⟩
  rw [Import.config, Descriptor.specifier, fileName_descriptorIn]
  show Path.followedFrom (Path.join _ ⟨options.outputDir⟩).components _ = _
  rw [Path.components_join_name _ hdir]
  exact Path.followedFrom_above _ _ hstem

theorem confined (hdir : Path.IsName options.outputDir) : Confined options fixed s where
  oneName := hdir.components
  inside group hgroup out hout := by
    obtain ⟨name, hname, hcomponents⟩ := exists_name_of_output hdir hgroup hout
    exact ⟨name, (isName_of_mem_possibleNames name hname).slashless, hcomponents⟩
  apart := by
    have hincreasing : (options.groupsIn s).Pairwise
        fun a b => a.directory.compare b.directory = .lt := by
      rw [groupsIn_eq]
      exact (partition_groupsOf _ _).increasing
    refine hincreasing.imp_of_mem fun {a b} ha hb hlt x hx y hy => ?_
    rw [Bool.eq_false_iff]
    intro hsame
    rw [Path.compare_eq_iff.mpr (directory_of_same hdir ha hb hx hy hsame)] at hlt
    cases hlt
  noDescriptor group hgroup out hout := by
    obtain ⟨name, hname, hcomponents⟩ := exists_name_of_output hdir hgroup hout
    have hlast : out.1.fileName? = some name :=
      Path.fileName?_eq_some_iff.mpr ⟨_, hcomponents.trans (List.append_assoc _ [_] [_]).symm⟩
    rw [isDescriptor, hlast, Option.bind_some, methodOf?_of_mem_possibleNames _ hname]
    rfl
  imports group hgroup script hscript := by
    refine ⟨(Endpoint.mem_files_iff _ _).mpr (.inl ⟨script, hscript, rfl⟩),
      fun i hi habove => ⟨Script.mem_lines_import hi, ?_⟩⟩
    obtain ⟨d, hd, typeOnly, rfl⟩ := (Endpoint.hasScript_of_mem hscript).config_of_isAbove hi habove
    obtain ⟨file, hfile, rfl⟩ := List.mem_map.mp hd
    exact ⟨file, hfile, typeOnly, rfl, leadsTo_config hdir hgroup hfile typeOnly⟩

end confining

/-- The framework of accepted settings is known. -/
theorem exists_convention {settings : Settings} (h : settings.defect? = none) :
    ∃ fixed, choose settings.options.framework = .ok fixed := by
  have hknown : Convention.isKnown settings.framework = true := by
    by_contra hnot
    rw [Settings.defect?, Bool.eq_false_iff.mpr hnot] at h
    cases h
  show ∃ fixed, choose settings.framework = .ok fixed
  rw [choose]
  by_cases hdetecting : settings.framework == Convention.detecting
  · exact ⟨none, if_pos hdetecting⟩
  · rw [Convention.isKnown, Bool.eq_false_iff.mpr hdetecting, Bool.false_or,
      Option.isSome_iff_exists] at hknown
    obtain ⟨convention, hnamed⟩ := hknown
    exact ⟨some convention, by rw [if_neg hdetecting, hnamed]⟩

/-- **Accepted settings confine a run**, whatever the working directory, the files and the faults
are: what is written is a first part of the outputs of the groups, and these stay where they
belong. -/
theorem generate_confined {settings : Settings} (h : settings.defect? = none) (faults : Faults)
    (s : Memory) :
    ∃ fixed, choose settings.options.framework = .ok fixed ∧
      Log.written (observedRun faults settings.options s).log <+:
        ((settings.options.groupsIn s).flatMap fun group =>
          (settings.options.plannedIn fixed s group).outputs) ∧
      Confined settings.options fixed s := by
  have hconfined (fixed : Option Convention) : Confined settings.options fixed s :=
    confined (isName_outputDir h)
  rcases written_prefix faults settings.options s with hnone | ⟨fixed, hchoose, hprefix⟩
  · obtain ⟨fixed, hchoose⟩ := exists_convention h
    exact ⟨fixed, hchoose, hnone ▸ List.nil_prefix, hconfined fixed⟩
  · rw [plansIn_eq, List.flatMap_map] at hprefix
    exact ⟨fixed, hchoose, hprefix, hconfined fixed⟩

/-- The blanks around the output directory are part of its name, also in a run that succeeds. -/
theorem generate_confined_blanks :
    let settings : Settings := ({} : Settings).override { outputDir := some " out " }
    let s : Memory := {
      workingDir := ⟨"/work"⟩
      files := [(⟨"/work/app/route.get.config.ts"⟩, "")] }
    (settings.defect? = none ∧ Succeeds settings.options s) ∧
    ∃ fixed, choose settings.options.framework = .ok fixed ∧
      Log.written (observedRun .never settings.options s).log <+:
        ((settings.options.groupsIn s).flatMap fun group =>
          (settings.options.plannedIn fixed s group).outputs) ∧
      Confined settings.options fixed s := by
  intro settings s
  have haccepted : settings.defect? = none := by decide +kernel
  have hok : Succeeds settings.options s := succeeds_iff_readable.mpr (by decide +kernel)
  exact ⟨⟨haccepted, hok⟩, generate_confined haccepted .never s⟩

end RouteScaffold.Run
