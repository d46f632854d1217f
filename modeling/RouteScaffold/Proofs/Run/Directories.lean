import Mathlib.Data.List.Sort
import RouteScaffold.Proofs.Run.Plans

/-! Directories do not interfere.

What is planned for a directory depends on its own descriptor files and on what is
read in them. It does not matter what else a memory state holds, in which order
the candidates are found, nor, where the convention is told from the directory,
which convention other directories follow (`plannedFor_separate`). Paths count as
they are spelled, since a readme shows the directory in the spelling of its first
descriptor file. -/
namespace RouteScaffold.Run
open Route Artifact Store

/-! ### The descriptor files of a directory -/

/-- Whether a candidate is a descriptor file of a directory. -/
def liesIn (dir candidate : Path) : Bool :=
  isDescriptor candidate && candidate.parent?.any (·.same dir)

/-- A run finds a descriptor file in a directory and reads its content. -/
structure Options.Holds (options : Options) (s : Memory) (dir candidate : Path)
    (content : String) : Prop where
  found : candidate ∈ options.candidatesIn s
  inside : liesIn dir candidate = true
  content : s.file? ((options.rootFrom s.workingDir).join candidate) = some content

theorem holds_iff {options : Options} {s : Memory} {dir candidate : Path} {content : String} :
    options.Holds s dir candidate content ↔
      candidate ∈ (options.candidatesIn s).filter (liesIn dir) ∧
        s.file? ((options.rootFrom s.workingDir).join candidate) = some content := by
  rw [List.mem_filter]
  exact ⟨fun h => ⟨⟨h.found, h.inside⟩, h.content⟩, fun h => ⟨h.1.1, h.1.2, h.2⟩⟩

/-- The files that a run plans for a directory; nothing if it does not plan, or not for this
directory. -/
def Options.plannedFor (options : Options) (s : Memory) (dir : Path) : Option (List File) :=
  match ((plan memory options).run s).1 with
  | .ok plans => (plans.find? (·.directory.same dir)).map Planned.files
  | .error _ => none

section directories
variable {options : Options} {s : Memory} {dir : Path}

/-- A run that succeeds could read every descriptor file that it found. -/
theorem Succeeds.content (h : Succeeds options s) {candidate : Path}
    (hfound : candidate ∈ options.candidatesIn s) (hinside : liesIn dir candidate = true) :
    ∃ content, options.Holds s dir candidate content := by
  have hdescriptor : isDescriptor candidate = true := (Bool.and_eq_true_iff.mp hinside).1
  obtain ⟨file, hfile⟩ := Option.isSome_iff_exists.mp
    ((isSome_ofCandidate? (options.rootFrom s.workingDir) candidate).trans hdescriptor)
  have hmem : file ∈ options.foundIn s := List.mem_filterMap.mpr ⟨candidate, hfound, hfile⟩
  obtain ⟨content, hcontent⟩ := Option.ne_none_iff_exists'.mp (h.readable file hmem)
  rw [(ofCandidate?_eq_some_iff.mp hfile).location] at hcontent
  exact ⟨content, hfound, hinside, hcontent⟩

/-- States in which a directory holds the same files propose the same candidates in it. -/
theorem candidates_congr {other : Memory} (hs : s.Ordered) (hother : other.Ordered)
    (hok : Succeeds options s) (hok' : Succeeds options other)
    (h : ∀ candidate content,
      options.Holds s dir candidate content ↔ options.Holds other dir candidate content) :
    (options.candidatesIn s).filter (liesIn dir) =
      (options.candidatesIn other).filter (liesIn dir) := by
  have hirrefl : Std.Irrefl fun p q : Path => p.compare q = .lt :=
    ⟨fun p hp => Std.OrientedCmp.not_lt_of_lt hp hp⟩
  have hantisymm : Std.Antisymm fun p q : Path => p.compare q = .lt :=
    ⟨fun p q hpq hqp => absurd hqp (Std.OrientedCmp.not_lt_of_lt hpq)⟩
  refine ((ordered_candidatesIn hs options).filter _).eq_of_mem_iff
    ((ordered_candidatesIn hother options).filter _) fun candidate => ?_
  rw [List.mem_filter, List.mem_filter]
  constructor
  · rintro ⟨hfound, hinside⟩
    obtain ⟨content, hholds⟩ := hok.content hfound hinside
    exact ⟨((h candidate content).mp hholds).found, hinside⟩
  · rintro ⟨hfound, hinside⟩
    obtain ⟨content, hholds⟩ := hok'.content hfound hinside
    exact ⟨((h candidate content).mpr hholds).found, hinside⟩

/-! ### What a plan sees of them -/

/-- All that a plan sees of a descriptor file. -/
structure Sight where
  directory : Path
  method : Method
  fileName : String
  content : Option String

namespace Sight

/-- Whether `a` may stand before `b` in a group. -/
def le (a b : Sight) : Bool :=
  a.method.token < b.method.token ||
    (a.method.token == b.method.token && decide (a.fileName ≤ b.fileName))

def descriptor (x : Sight) : Descriptor := .ofSource x.method x.fileName (x.content.getD "")

/-- The files of a directory of whose descriptors this is seen, in the order in which they are
found. -/
def files (fixed : Option Convention) : List Sight → Option (List File)
  | [] => none
  | first :: rest =>
    let convention := conventionOf fixed first.directory
    some <| (Endpoint.ofDirectory convention first.directory
      (((first :: rest).mergeSort le).map descriptor)).files convention

end Sight

/-- What is seen of a recorded file in a memory state. -/
def sightIn (s : Memory) (file : DescriptorFile) : Sight :=
  ⟨file.directory, file.method, file.fileName, s.file? file.location⟩

/-- The recorded files of a directory. -/
def Options.recordsIn (options : Options) (s : Memory) (dir : Path) : List DescriptorFile :=
  (options.foundIn s).filter (·.directory.same dir)

/-- A record below any root tells the same, but for where the file is read. -/
theorem ofCandidate?_root (root base candidate : Path) :
    DescriptorFile.ofCandidate? root candidate =
      (DescriptorFile.ofCandidate? base candidate).map
        ({ · with location := root.join candidate }) := by
  rw [DescriptorFile.ofCandidate?, DescriptorFile.ofCandidate?]
  cases candidate.fileName? with
  | none => rfl
  | some name => cases hmethod : methodOf? name <;> simp [hmethod]

theorem filter_ofCandidate? (root dir candidate : Path) :
    (DescriptorFile.ofCandidate? root candidate).filter (·.directory.same dir) =
      if liesIn dir candidate then DescriptorFile.ofCandidate? root candidate else none := by
  have hsome := isSome_ofCandidate? root candidate
  rw [liesIn]
  cases h : DescriptorFile.ofCandidate? root candidate with
  | none => simp
  | some file =>
    have hdir := (ofCandidate?_eq_some_iff.mp h).directory
    rw [h] at hsome
    rw [← hsome, hdir, Option.filter_some]
    simp

/-- What is seen of the files of a directory is told by its candidates and their contents. -/
theorem sights_recordsIn (options : Options) (s : Memory) (dir : Path) :
    (options.recordsIn s dir).map (sightIn s) =
      ((options.candidatesIn s).filter (liesIn dir)).filterMap fun candidate =>
        (DescriptorFile.ofCandidate? ⟨""⟩ candidate).map fun file =>
          ⟨file.directory, file.method, file.fileName,
            s.file? ((options.rootFrom s.workingDir).join candidate)⟩ := by
  rw [Options.recordsIn, Options.foundIn, List.filter_filterMap, List.map_filterMap,
    List.filterMap_filter]
  refine List.filterMap_congr fun candidate _ => ?_
  rw [filter_ofCandidate?, ofCandidate?_root _ ⟨""⟩ candidate]
  split
  next => rw [Option.map_map]; rfl
  next => rfl

theorem sights_congr {other : Memory} (hs : s.Ordered) (hother : other.Ordered)
    (hok : Succeeds options s) (hok' : Succeeds options other)
    (h : ∀ candidate content,
      options.Holds s dir candidate content ↔ options.Holds other dir candidate content) :
    (options.recordsIn s dir).map (sightIn s) =
      (options.recordsIn other dir).map (sightIn other) := by
  rw [sights_recordsIn, sights_recordsIn, ← candidates_congr hs hother hok hok' h]
  refine List.filterMap_congr fun candidate hcandidate => ?_
  obtain ⟨hfound, hinside⟩ := List.mem_filter.mp hcandidate
  obtain ⟨content, hholds⟩ := hok.content hfound hinside
  rw [hholds.content, ((h candidate content).mp hholds).content]

/-! ### The plan of a directory -/

/-- The group that a run makes of a directory. -/
theorem find?_groupsIn (options : Options) (s : Memory) (dir : Path) :
    (options.groupsIn s).find? (·.directory.same dir) =
      match options.recordsIn s dir with
      | [] => none
      | file :: rest => some (Group.sorted ⟨file.directory, file :: rest⟩) := by
  have hsorted : (fun group : Group => group.directory.same dir) ∘ Group.sorted =
      fun group => group.directory.same dir := rfl
  rw [groupsIn_eq, groupsOf_eq, List.find?_map, hsorted, find?_collect]
  change (match options.recordsIn s dir with
    | [] => none
    | file :: rest => some _ : Option Group).map Group.sorted = _
  cases options.recordsIn s dir <;> rfl

theorem plannedFor_eq (h : Succeeds options s) {fixed : Option Convention}
    (hchoose : choose options.framework = .ok fixed) (dir : Path) :
    options.plannedFor s dir =
      ((options.groupsIn s).find? (·.directory.same dir)).map fun group =>
        (endpointOf fixed s group).files (conventionOf fixed group.directory) := by
  obtain ⟨fixed', hchoose', hplan⟩ := run_plan h
  obtain rfl := Except.ok.inj (hchoose.symm.trans hchoose')
  have hplanned : options.plannedFor s dir =
      ((options.plansIn fixed s).find? (·.directory.same dir)).map Planned.files := by
    rw [Options.plannedFor, hplan]
  rw [hplanned, Options.plansIn, plansOf, List.find?_map, Option.map_map]
  rfl

/-- The descriptors of a group are told by what is seen of its files. -/
theorem descriptors_sorted (s : Memory) (files : List DescriptorFile) :
    (files.mergeSort DescriptorFile.le).map (descriptorIn s) =
      ((files.map (sightIn s)).mergeSort Sight.le).map Sight.descriptor := by
  have hsorted : (files.mergeSort DescriptorFile.le).map (sightIn s) =
      (files.map (sightIn s)).mergeSort Sight.le := List.map_mergeSort fun _ _ _ _ => rfl
  rw [← hsorted, List.map_map]
  rfl

/-- What is planned for a directory is told by what is seen of it. -/
theorem plannedFor_sights (h : Succeeds options s) {fixed : Option Convention}
    (hchoose : choose options.framework = .ok fixed) (dir : Path) :
    options.plannedFor s dir = Sight.files fixed ((options.recordsIn s dir).map (sightIn s)) := by
  rw [plannedFor_eq h hchoose, find?_groupsIn]
  cases options.recordsIn s dir with
  | nil => rfl
  | cons file rest =>
    have hconfigs := descriptors_sorted s (file :: rest)
    rw [List.map_cons] at hconfigs ⊢
    rw [Option.map_some, Sight.files, ← hconfigs, endpointOf]
    rfl

/-! ### Conventions -/

theorem ofDirectory_congr {p q : Path} (h : p.components = q.components) :
    Convention.ofDirectory p = Convention.ofDirectory q := by
  rw [Convention.ofDirectory, Path.names, h]
  rfl

theorem choose_name (c : Convention) : choose c.name = .ok (some c) := by
  cases c <;> decide +kernel

/-- A run that tells conventions from directories also succeeds with one that is fixed. -/
theorem Succeeds.fixed (h : Succeeds options s) (c : Convention) :
    Succeeds { options with framework := c.name } s := by
  obtain ⟨-, hrest⟩ := succeeds_iff_readable.mp h
  exact succeeds_iff_readable.mpr ⟨by rw [choose_name]; rfl, hrest⟩

/-- The groups do not depend on the convention. -/
theorem groupsIn_framework (options : Options) (s : Memory) (name : String) :
    Options.groupsIn { options with framework := name } s = options.groupsIn s := rfl

theorem plannedFor_detecting (h : Succeeds options s)
    (hauto : options.framework = Convention.detecting) (dir : Path) :
    options.plannedFor s dir =
      Options.plannedFor { options with framework := (Convention.ofDirectory dir).name } s dir := by
  have hchoose : choose options.framework = .ok none := by rw [hauto]; rfl
  have hgroups := groupsIn_framework options s (Convention.ofDirectory dir).name
  rw [plannedFor_eq h hchoose, plannedFor_eq (h.fixed _) (choose_name _), hgroups]
  cases hgroup : (options.groupsIn s).find? (·.directory.same dir) with
  | none => rw [Option.map_none, Option.map_none]
  | some group =>
    have hsame : group.directory.components = dir.components := by
      have hfound := List.find?_some hgroup
      exact Path.same_iff.mp hfound
    have hconvention : conventionOf none group.directory =
        conventionOf (some (.ofDirectory dir)) group.directory := ofDirectory_congr hsame
    rw [Option.map_some, Option.map_some, endpointOf, endpointOf, hconvention]

end directories

/-! ### Directories do not interfere -/

/-- **Directories do not interfere.** Runs with the same options that succeed on two memory states
plan the same files for a directory that holds the same descriptor files in both, whatever else the
states hold. If the convention is told from each directory, what is planned for a directory is
what a run with its convention fixed plans, and that run succeeds as well. -/
theorem plannedFor_separate {options : Options} {s : Memory} (dir : Path)
    (h : Succeeds options s) :
    (∀ other : Memory, s.Ordered → other.Ordered → Succeeds options other →
      (∀ candidate content,
        options.Holds s dir candidate content ↔ options.Holds other dir candidate content) →
      options.plannedFor s dir = options.plannedFor other dir) ∧
    (options.framework = Convention.detecting →
      let fixed : Options := { options with framework := (Convention.ofDirectory dir).name }
      Succeeds fixed s ∧ options.plannedFor s dir = fixed.plannedFor s dir) := by
  refine ⟨fun other hs hother hok hsame => ?_, fun hauto => ⟨h.fixed _, ?_⟩⟩
  · obtain ⟨fixed, hchoose, -⟩ := run_plan h
    rw [plannedFor_sights h hchoose, plannedFor_sights hok hchoose,
      sights_congr hs hother h hok hsame]
  · exact plannedFor_detecting h hauto dir

/-- The directory of the other convention has another descriptor file. -/
theorem plannedFor_separate_pages :
    let s : Memory := {
      workingDir := ⟨"/"⟩
      files := [(⟨"/app/route.get.config.ts"⟩, ""), (⟨"/pages/route.put.config.ts"⟩, "")] }
    let other : Memory := {
      workingDir := ⟨"/"⟩
      files := [(⟨"/app/route.put.config.ts"⟩, "y"), (⟨"/pages/route.put.config.ts"⟩, "")] }
    let options : Options := {}
    let dir : Path := ⟨"pages"⟩
    let fixed : Options := { options with framework := (Convention.ofDirectory dir).name }
    (Succeeds options s ∧ Succeeds options other ∧ s.Ordered ∧ other.Ordered) ∧
      (∀ candidate content,
        options.Holds s dir candidate content ↔ options.Holds other dir candidate content) ∧
      options.plannedFor s dir = options.plannedFor other dir ∧
      Succeeds fixed s ∧ options.plannedFor s dir = fixed.plannedFor s dir := by
  intro s other options dir fixed
  have hs : Succeeds options s := succeeds_iff_readable.mpr (by decide +kernel)
  have hother : Succeeds options other := succeeds_iff_readable.mpr (by decide +kernel)
  have hordered : s.Ordered ∧ other.Ordered := by
    unfold Memory.Ordered
    decide +kernel
  have hcandidates : (options.candidatesIn s).filter (liesIn dir) =
      (options.candidatesIn other).filter (liesIn dir) := by decide +kernel
  have hcontents : ∀ candidate ∈ (options.candidatesIn s).filter (liesIn dir),
      s.file? ((options.rootFrom s.workingDir).join candidate) =
        other.file? ((options.rootFrom other.workingDir).join candidate) := by decide +kernel
  have hholds (candidate : Path) (content : String) :
      options.Holds s dir candidate content ↔ options.Holds other dir candidate content := by
    rw [holds_iff, holds_iff, ← hcandidates]
    exact and_congr_right fun h => by rw [hcontents candidate h]
  obtain ⟨hseparate, hfixed⟩ := plannedFor_separate dir hs
  exact ⟨⟨hs, hother, hordered⟩, hholds,
    hseparate other hordered.1 hordered.2 hother hholds, hfixed rfl⟩

end RouteScaffold.Run
