import RouteScaffold.Proofs.Glob.Descriptors
import RouteScaffold.Proofs.Store.Files

/-! What a scan with the default pattern finds.

The default pattern matches every path that has the name of a descriptor file, so what a
scan leaves out is told by the components of the paths alone: it records the files that
have such a name and lie below the root without a skipped directory in between, each
once and no others (`scan_finds_sought`). -/
namespace RouteScaffold.Store
open Route

/-! ### Candidates -/

namespace Memory
variable {s : Memory} {root candidate : Path}

theorem run_glob_descriptors (s : Memory) (root : Path) :
    (memory.glob root descriptorPattern).run s =
      (.ok (s.matching root ⟨Glob.descriptorTokens⟩), s) := by
  show (Except.map _ (Store.pattern descriptorPattern), s) = _
  rw [Store.pattern, Glob.ofString_descriptorPattern]
  rfl

/-- The default pattern matches what is left of a path that is named as a descriptor file. -/
theorem matchesPath_of_isDescriptor {path base : Path} (h : path.stripBase? base = some candidate)
    (hcandidate : isDescriptor candidate = true) :
    Glob.Pattern.matchesPath ⟨Glob.descriptorTokens⟩ candidate = true := by
  obtain ⟨m, hmethod⟩ := Option.isSome_iff_exists.mp hcandidate
  obtain ⟨name, hname, hmethod⟩ := Option.bind_eq_some_iff.mp hmethod
  exact Glob.matchesPath_of_stripBase? h hname hmethod

/-- The default pattern leaves out no descriptor file below the root. -/
theorem mem_matching_iff (hcandidate : isDescriptor candidate = true) :
    candidate ∈ s.matching root ⟨Glob.descriptorTokens⟩ ↔
      (∃ file ∈ s.files, file.1.stripBase? (s.resolve root) = some candidate) ∧
        inSkippedDir candidate = false := by
  rw [Memory.matching, List.mem_filter, List.mem_filterMap, Bool.and_eq_true, Bool.not_eq_true']
  refine and_congr_right fun hfile => and_iff_left_of_imp fun _ => ?_
  obtain ⟨file, -, hstrip⟩ := hfile
  exact matchesPath_of_isDescriptor hstrip hcandidate

end Memory

/-! ### What is sought -/

/-- A path that a scan is to find below a base: it is named as a descriptor file, and no component
behind the base is a directory that is skipped. -/
def Sought (base path : Path) : Prop :=
  ∃ front name, path.components = base.components ++ (front ++ [.normal name]) ∧
    (methodOf? name).isSome = true ∧
    ∀ skipped ∈ skippedDirs, .normal skipped ∉ front ++ [.normal name]

theorem inSkippedDir_iff {p : Path} :
    inSkippedDir p = false ↔ ∀ skipped ∈ skippedDirs, .normal skipped ∉ p.components := by
  have hname (name : String) : name ∈ p.names ↔ .normal name ∈ p.components := by
    rw [Path.names, List.mem_filterMap]
    constructor
    · rintro ⟨c, hc, h⟩
      cases c <;> cases h
      exact hc
    · exact fun h => ⟨_, h, rfl⟩
  simp only [inSkippedDir_eq_false_iff, hname]
  exact ⟨fun h name hskipped hmem => h name hmem hskipped,
    fun h name hmem hskipped => h name hskipped hmem⟩

/-- A path is sought exactly if what is left of it behind the base is named as a descriptor file and
leads through no skipped directory. -/
theorem sought_iff {base path : Path} :
    Sought base path ↔ ∃ candidate, path.stripBase? base = some candidate ∧
      isDescriptor candidate = true ∧ inSkippedDir candidate = false := by
  constructor
  · rintro ⟨front, name, hpath, hmethod, hskipped⟩
    have hstart : path.startsWith base = true := by
      rw [Path.startsWith, List.isPrefixOf_iff_prefix, hpath]
      exact List.prefix_append ..
    obtain ⟨candidate, hstrip⟩ := Path.exists_stripBase? hstart
    have hcandidate : candidate.components = front ++ [.normal name] := by
      have hsplit := Path.components_of_stripBase? hstrip
      rw [hpath] at hsplit
      exact (List.append_cancel_left hsplit).symm
    refine ⟨candidate, hstrip, ?_, ?_⟩
    · rw [isDescriptor, Path.fileName?_eq_some_iff.mpr ⟨front, hcandidate⟩]
      exact hmethod
    · rw [inSkippedDir_iff, hcandidate]
      exact hskipped
  · rintro ⟨candidate, hstrip, hnamed, hskipped⟩
    obtain ⟨m, hm⟩ := Option.isSome_iff_exists.mp hnamed
    obtain ⟨name, hname, hmethod⟩ := Option.bind_eq_some_iff.mp hm
    obtain ⟨front, hcandidate⟩ := Path.fileName?_eq_some_iff.mp hname
    rw [inSkippedDir_iff, hcandidate] at hskipped
    refine ⟨front, name, ?_, Option.isSome_of_eq_some hmethod, hskipped⟩
    rw [Path.components_of_stripBase? hstrip, hcandidate]

instance (base path : Path) : Decidable (Sought base path) :=
  decidable_of_iff
    ((path.stripBase? base).any (fun candidate =>
      isDescriptor candidate && !inSkippedDir candidate) = true)
    (by simp [sought_iff, Option.any_eq_true])

/-! ### What is found -/

/-- What a scan of the root records of a file at a path. -/
structure Memory.Records (s : Memory) (root path : Path) (file : DescriptorFile) : Prop where
  place : path.components =
    (s.resolve root).components ++ (file.directory.components ++ [.normal file.fileName])
  method : methodOf? file.fileName = some file.method
  /-- The file is read where it lies. -/
  location : (s.resolve file.location).components = path.components

/-- What is recorded of a candidate is true of the file that it is left of. -/
theorem Memory.records_of {s : Memory} {root path candidate : Path} {file : DescriptorFile}
    (h : path.stripBase? (s.resolve root) = some candidate) (hof : file.Of root candidate) :
    s.Records root path file where
  place := by rw [Path.components_of_stripBase? h, hof.components]
  method := hof.method
  location := by
    have hsplit := Path.components_of_stripBase? h
    rw [hof.location, hsplit]
    exact Path.components_resolve_join fun hne => Path.isStep_of_components hsplit hne

/-- What is recorded of a path, if it is a candidate and named as a descriptor file. -/
def Memory.recorded? (s : Memory) (root path : Path) : Option DescriptorFile :=
  (path.stripBase? (s.resolve root)).bind fun candidate =>
    if !inSkippedDir candidate && Glob.Pattern.matchesPath ⟨Glob.descriptorTokens⟩ candidate then
      DescriptorFile.ofCandidate? root candidate
    else none

theorem Memory.recorded?_eq_some_iff {s : Memory} {root path : Path} {file : DescriptorFile} :
    s.recorded? root path = some file ↔
      ∃ candidate, path.stripBase? (s.resolve root) = some candidate ∧
        inSkippedDir candidate = false ∧ file.Of root candidate := by
  rw [recorded?, Option.bind_eq_some_iff]
  refine exists_congr fun candidate => and_congr_right fun hstrip => ?_
  rw [Option.ite_none_right_eq_some, Bool.and_eq_true, Bool.not_eq_true', ofCandidate?_eq_some_iff,
    and_assoc]
  refine and_congr_right fun _ => and_iff_right_of_imp fun hof => ?_
  refine matchesPath_of_isDescriptor hstrip ?_
  rw [isDescriptor, hof.fileName, Option.bind_some, hof.method]
  rfl

/-- A path is recorded exactly if it is sought. -/
theorem Memory.isSome_recorded? (s : Memory) (root path : Path) :
    (s.recorded? root path).isSome = decide (Sought (s.resolve root) path) := by
  rw [Bool.eq_iff_iff, decide_eq_true_iff, sought_iff, Option.isSome_iff_exists]
  constructor
  · rintro ⟨file, hfile⟩
    obtain ⟨candidate, hstrip, hskipped, hof⟩ := recorded?_eq_some_iff.mp hfile
    refine ⟨candidate, hstrip, ?_, hskipped⟩
    rw [← isSome_ofCandidate? root, ofCandidate?_eq_some_iff.mpr hof]
    rfl
  · rintro ⟨candidate, hstrip, hnamed, hskipped⟩
    rw [← isSome_ofCandidate? root, Option.isSome_iff_exists] at hnamed
    obtain ⟨file, hof⟩ := hnamed
    exact ⟨file, recorded?_eq_some_iff.mpr
      ⟨candidate, hstrip, hskipped, ofCandidate?_eq_some_iff.mp hof⟩⟩

/-- A scan records its files path by path. -/
theorem Memory.perm_recorded (s : Memory) (root : Path) :
    ((groupsOf root (s.matching root ⟨Glob.descriptorTokens⟩)).flatMap Group.files).Perm
      (s.files.filterMap fun entry => s.recorded? root entry.1) := by
  refine (perm_groupsOf _ _).trans ?_
  rw [matching, List.filterMap_filter, List.filterMap_filterMap]
  rfl

/-- **The default pattern hides no descriptor file.** Whatever files a store in memory has, a scan
below a root, in whichever spelling, records each file that lies below it, is named as a descriptor
file and is in none of the skipped directories there, once as what it is, and it records no other. -/
theorem scan_finds_sought (s : Memory) (root : Path) :
    ∃ candidates, (memory.glob root descriptorPattern).run s = (.ok candidates, s) ∧
      ∃ found, ((groupsOf root candidates).flatMap Group.files).Perm found ∧
        List.Forall₂ (fun entry file => s.Records root entry.1 file)
          (s.files.filter fun entry => Sought (s.resolve root) entry.1) found := by
  refine ⟨_, Memory.run_glob_descriptors s root, _, s.perm_recorded root, ?_⟩
  simp only [← Memory.isSome_recorded?]
  refine (forall₂_filterMap _ s.files).imp fun entry file hfile => ?_
  obtain ⟨candidate, hstrip, -, hof⟩ := Memory.recorded?_eq_some_iff.mp hfile
  exact Memory.records_of hstrip hof

/-- Files at the root and deep below it, one with a line break in its directory, and beside them one
in a skipped directory, one outside and one with another name. -/
example :
    let s : Memory := {
      workingDir := ⟨"/work"⟩
      files := [(⟨"/shop/route.get.config.ts"⟩, ""), (⟨"/work/shop/.git/route.get.config.ts"⟩, ""),
        (⟨"/work/shop/a\nb//[id]/route.put.config.tsx"⟩, ""),
        (⟨"/work/shop/route.get.config.d.ts"⟩, ""), (⟨"/work/shop/route.get.config.ts"⟩, "")] }
    s.files.filter (fun entry => Sought (s.resolve ⟨"./shop/"⟩) entry.1) =
      [(⟨"/work/shop/a\nb//[id]/route.put.config.tsx"⟩, ""),
        (⟨"/work/shop/route.get.config.ts"⟩, "")] := by
  decide +kernel

end RouteScaffold.Store
