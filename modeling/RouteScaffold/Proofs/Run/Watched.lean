import RouteScaffold.Proofs.Store.Scanned
import RouteScaffold.Watch

/-! What a watcher asks for a run for.

A scan with the default pattern finds a file exactly if it has the name of a descriptor
file and no skipped directory lies between the root and it (`scanned_iff`). A watcher
looks at the whole path instead, so it agrees with the scan exactly where no directory
above the root has the name of a skipped one or of an output directory
(`concerns_iff_scanned`, `concerns_not_below_skipped`). -/
namespace RouteScaffold.Watch
open Route Store

/-! ### Scanning -/

section scanning
variable {s : Memory} {root rel candidate : Path}

/-- A scan of the root with the default pattern finds the file at a path below it. -/
def Scanned (s : Memory) (root rel : Path) : Prop :=
  ∃ found, (memory.glob root descriptorPattern).run s = (.ok found, s) ∧
    ∃ group ∈ groupsOf root found, ∃ file ∈ group.files,
      file.directory.components ++ [.normal file.fileName] = rel.steps ∧
        file.location.same (root.join rel) = true

theorem scanned_iff_mem : Scanned s root rel ↔
    ∃ group ∈ groupsOf root (s.matching root ⟨Glob.descriptorTokens⟩), ∃ file ∈ group.files,
      file.directory.components ++ [.normal file.fileName] = rel.steps ∧
        file.location.same (root.join rel) = true := by
  rw [Scanned, Memory.run_glob_descriptors]
  constructor
  · rintro ⟨found, hfound, h⟩
    obtain rfl := Except.ok.inj (Prod.mk.inj hfound).1
    exact h
  · exact fun h => ⟨_, rfl, h⟩

theorem isDescriptor_join (hroot : root.isAbsolute = true) (hrel : rel.isAbsolute = false)
    (hbelow : rel.steps ≠ []) (h : candidate.components = rel.steps) :
    isDescriptor (root.join rel) = isDescriptor candidate := by
  have hjoin := Path.components_join (Path.text_ne_empty hroot) hrel
  rw [isDescriptor, isDescriptor, Path.fileName?_congr (hjoin.trans (congrArg _ h.symm))]
  rw [h]
  exact hbelow

/-- A file is found exactly if it is among the candidates, however it is spelled there. -/
theorem scanned_iff_exists_candidate (hroot : root.isAbsolute = true)
    (hrel : rel.isAbsolute = false) : Scanned s root rel ↔
      ∃ candidate ∈ s.matching root ⟨Glob.descriptorTokens⟩, isDescriptor candidate = true ∧
        candidate.components = rel.steps := by
  rw [scanned_iff_mem]
  constructor
  · rintro ⟨group, hgroup, file, hmem, hsteps, -⟩
    obtain ⟨candidate, hcandidate, hof⟩ := of_mem_groupsOf hgroup hmem
    refine ⟨candidate, hcandidate, ?_, hof.components.trans hsteps⟩
    rw [isDescriptor, hof.fileName, Option.bind_some, hof.method]
    rfl
  · rintro ⟨candidate, hcandidate, hnamed, hcomponents⟩
    obtain ⟨file, hof⟩ : ∃ file, DescriptorFile.ofCandidate? root candidate = some file := by
      rw [← Option.isSome_iff_exists, isSome_ofCandidate?]
      exact hnamed
    have hmem := (perm_groupsOf root _).mem_iff.mpr (List.mem_filterMap.mpr ⟨_, hcandidate, hof⟩)
    obtain ⟨group, hgroup, hfile⟩ := List.mem_flatMap.mp hmem
    have hof := ofCandidate?_eq_some_iff.mp hof
    refine ⟨group, hgroup, file, hfile, hof.components.symm.trans hcomponents, ?_⟩
    have hstep : ∀ c ∈ candidate.components, c.isStep = true := fun c hc =>
      Path.isStep_of_mem_steps (hcomponents ▸ hc)
    rw [Path.same_iff, hof.location, Path.components_join_steps root hstep, hcomponents,
      Path.components_join (Path.text_ne_empty hroot) hrel]

/-- What is left of a file's path behind the root. -/
theorem exists_stripped_entry (hroot : root.isAbsolute = true) (hrel : rel.isAbsolute = false)
    (hfile : s.file? (root.join rel) ≠ none) :
    ∃ entry ∈ s.files, ∃ candidate, entry.1.stripBase? root = some candidate ∧
      candidate.components = rel.steps := by
  obtain ⟨content, hcontent⟩ := Option.ne_none_iff_exists'.mp hfile
  obtain ⟨entry, hfind, -⟩ := Option.map_eq_some_iff.mp hcontent
  have hsame := List.find?_some hfind
  rw [Memory.resolve, Path.resolve_of_isAbsolute _ (Path.isAbsolute_join hroot _)] at hsame
  have hentry : entry.1.components = root.components ++ rel.steps :=
    (Path.same_iff.mp hsame).trans (Path.components_join (Path.text_ne_empty hroot) hrel)
  obtain ⟨candidate, hstrip⟩ : ∃ q, entry.1.stripBase? root = some q := by
    refine Path.exists_stripBase? (List.isPrefixOf_iff_prefix.mpr ?_)
    rw [hentry]
    exact List.prefix_append ..
  have hsplit := Path.components_of_stripBase? hstrip
  rw [hentry] at hsplit
  exact ⟨entry, List.mem_of_find?_eq_some hfind, candidate, hstrip,
    (List.append_cancel_left hsplit).symm⟩

/-- A scan finds a file exactly if it is named as a descriptor file and no skipped directory lies
between the root and it. -/
theorem scanned_iff (hroot : root.isAbsolute = true) (hrel : rel.isAbsolute = false)
    (hbelow : rel.steps ≠ []) (hfile : s.file? (root.join rel) ≠ none) :
    Scanned s root rel ↔
      isDescriptor (root.join rel) = true ∧ ∀ name ∈ rel.names, name ∉ skippedDirs := by
  have hresolve : s.resolve root = root := Path.resolve_of_isAbsolute _ hroot
  rw [scanned_iff_exists_candidate hroot hrel]
  constructor
  · rintro ⟨candidate, hcandidate, hnamed, hcomponents⟩
    obtain ⟨-, hskipped⟩ := (Memory.mem_matching_iff hnamed).mp hcandidate
    rw [inSkippedDir_eq_false_iff, Path.names_of_components hcomponents] at hskipped
    exact ⟨(isDescriptor_join hroot hrel hbelow hcomponents).trans hnamed, hskipped⟩
  · rintro ⟨hnamed, hskipped⟩
    obtain ⟨entry, hentry, candidate, hstrip, hcomponents⟩ :=
      exists_stripped_entry hroot hrel hfile
    rw [isDescriptor_join hroot hrel hbelow hcomponents] at hnamed
    refine ⟨candidate, (Memory.mem_matching_iff hnamed).mpr ⟨⟨entry, hentry, ?_⟩, ?_⟩, hnamed,
      hcomponents⟩
    · rw [hresolve]
      exact hstrip
    · rw [inSkippedDir_eq_false_iff, Path.names_of_components hcomponents]
      exact hskipped

end scanning

/-! ### Watching -/

theorem concerns_iff {outputDir : String} {path : Path} : concerns outputDir path = true ↔
    (∀ name ∈ path.names, name ≠ outputDir ∧ name ∉ skippedDirs) ∧ isDescriptor path = true := by
  rw [concerns, Bool.and_eq_true, Bool.not_eq_true', List.any_eq_false]
  refine and_congr_left' (forall₂_congr fun name _ => ?_)
  simp

/-- **A watcher agrees with the scan but for what lies above the root**: for a file below an
absolute root and outside the output directories, it asks for a run exactly if a scan finds the
file and no directory of the root itself has the name of an output directory or of one that a scan
does not enter. -/
theorem concerns_iff_scanned {s : Memory} {root rel : Path} {outputDir : String}
    (hroot : root.isAbsolute = true) (hrel : rel.isAbsolute = false) (hbelow : rel.steps ≠ [])
    (hfile : s.file? (root.join rel) ≠ none) (hout : outputDir ∉ rel.names) :
    concerns outputDir (root.join rel) = true ↔
      Scanned s root rel ∧ ∀ name ∈ root.names, name ≠ outputDir ∧ name ∉ skippedDirs := by
  have hnames := Path.names_join (Path.text_ne_empty hroot) hrel
  have hrelNames : (∀ name ∈ rel.names, name ≠ outputDir ∧ name ∉ skippedDirs) ↔
      ∀ name ∈ rel.names, name ∉ skippedDirs :=
    forall₂_congr fun name hname => and_iff_right fun h => hout (h ▸ hname)
  rw [concerns_iff, scanned_iff hroot hrel hbelow hfile, hnames, List.forall_mem_append, hrelNames]
  exact ⟨fun ⟨⟨habove, hskipped⟩, hnamed⟩ => ⟨⟨hnamed, hskipped⟩, habove⟩,
    fun ⟨⟨hnamed, hskipped⟩, habove⟩ => ⟨⟨habove, hskipped⟩, hnamed⟩⟩

/-- A project with spellings that do not count, and a directory that version control hides. -/
theorem concerns_iff_scanned_app :
    let s : Memory := {
      workingDir := ⟨"/"⟩
      files := [(⟨"/work/shop/app/.cache/route.get.config.ts"⟩, "")] }
    let root : Path := ⟨"/work/shop/"⟩
    let rel : Path := ⟨"./app//.cache/route.get.config.ts/."⟩
    (root.isAbsolute = true ∧ rel.isAbsolute = false ∧ rel.steps ≠ [] ∧
      s.file? (root.join rel) ≠ none ∧ ".generated" ∉ rel.names) ∧
    (concerns ".generated" (root.join rel) = true ↔
      Scanned s root rel ∧ ∀ name ∈ root.names, name ≠ ".generated" ∧ name ∉ skippedDirs) := by
  intro s root rel
  have hroot : root.isAbsolute = true := by decide +kernel
  have hrel : rel.isAbsolute = false := by decide +kernel
  have hbelow : rel.steps ≠ [] := by decide +kernel
  have hfile : s.file? (root.join rel) ≠ none := by decide +kernel
  have hout : ".generated" ∉ rel.names := by decide +kernel
  exact ⟨⟨hroot, hrel, hbelow, hfile, hout⟩, concerns_iff_scanned hroot hrel hbelow hfile hout⟩

/-- Below a directory named as a skipped one, a descriptor file is scanned and yet not watched. -/
theorem concerns_not_below_skipped :
    let s : Memory := {
      workingDir := ⟨"/"⟩
      files := [(⟨"/home/me/node_modules/shop/app/route.get.config.ts"⟩, "")] }
    let root : Path := ⟨"/home/me/node_modules/shop"⟩
    let rel : Path := ⟨"app/route.get.config.ts"⟩
    root.isAbsolute = true ∧ rel.isAbsolute = false ∧ ".generated" ∉ rel.names ∧
      Scanned s root rel ∧ concerns ".generated" (root.join rel) = false := by
  intro s root rel
  have hroot : root.isAbsolute = true := by decide +kernel
  have hrel : rel.isAbsolute = false := by decide +kernel
  have hbelow : rel.steps ≠ [] := by decide +kernel
  have hfile : s.file? (root.join rel) ≠ none := by decide +kernel
  have hscanned : Scanned s root rel :=
    (scanned_iff hroot hrel hbelow hfile).mpr (by decide +kernel)
  exact ⟨hroot, hrel, by decide +kernel, hscanned, by decide +kernel⟩

end RouteScaffold.Watch
