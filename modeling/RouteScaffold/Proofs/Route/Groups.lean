import Mathlib.Data.List.Forall2
import Mathlib.Data.List.Induction
import RouteScaffold.Proofs.Path.Components
import RouteScaffold.Proofs.Path.Order
import RouteScaffold.Route.Scan

/-! Scanning partitions the candidates.

Files are put into groups one by one, and each step keeps the groups apart and in
order (`Grouped.insertFile`). Groups of the same files are the same but for the
spelling of their directories and the order of their files (`Grouped.unique`), and
sorting leaves but one order, so it does not matter in which order the candidates
are proposed. `groupsOf_partition` says all of it. -/
namespace RouteScaffold.Route

/-! ### Candidates -/

/-- Whether a candidate is named as a descriptor file. -/
def isDescriptor (candidate : Path) : Bool := (candidate.fileName?.bind methodOf?).isSome

/-- It does not matter how the path is spelled. -/
theorem isDescriptor_congr {p q : Path} (h : p.same q = true) :
    isDescriptor p = isDescriptor q := by
  have hname : p.fileName? = q.fileName? := by
    refine Option.ext fun name => ?_
    rw [Path.fileName?_eq_some_iff, Path.fileName?_eq_some_iff, Path.same_iff.mp h]
  rw [isDescriptor, hname, isDescriptor]

/-- What is recorded of a candidate that is a descriptor file. -/
structure DescriptorFile.Of (root candidate : Path) (file : DescriptorFile) : Prop where
  directory : candidate.parent? = some file.directory
  fileName : candidate.fileName? = some file.fileName
  method : methodOf? file.fileName = some file.method
  location : file.location = root.join candidate

theorem ofCandidate?_eq_some_iff {root candidate : Path} {file : DescriptorFile} :
    DescriptorFile.ofCandidate? root candidate = some file ↔ file.Of root candidate := by
  constructor
  · intro h
    obtain ⟨name, hname, h⟩ := Option.bind_eq_some_iff.mp h
    obtain ⟨method, hmethod, h⟩ := Option.bind_eq_some_iff.mp h
    obtain ⟨dir, hdir, -⟩ := Path.exists_parent hname
    obtain rfl := Option.some.inj h
    exact ⟨by rw [hdir]; rfl, hname, hmethod, rfl⟩
  · intro h
    obtain ⟨dir, method, name, location⟩ := file
    obtain ⟨hdir, hname, hmethod, rfl⟩ := h
    dsimp only at hdir hname hmethod
    rw [DescriptorFile.ofCandidate?, hname, hdir]
    simp [hmethod]

theorem isSome_ofCandidate? (root candidate : Path) :
    (DescriptorFile.ofCandidate? root candidate).isSome = isDescriptor candidate := by
  rw [DescriptorFile.ofCandidate?, isDescriptor]
  cases candidate.fileName? with
  | none => rfl
  | some name => cases hmethod : methodOf? name <;> simp [hmethod]

/-- Where a function gives something, element by element. -/
theorem forall₂_filterMap {α β : Type} (f : α → Option β) (l : List α) :
    List.Forall₂ (fun a b => f a = some b) (l.filter fun a => (f a).isSome) (l.filterMap f) := by
  induction l with
  | nil => exact .nil
  | cons a l ih =>
    cases h : f a with
    | none =>
      rw [List.filter_cons_of_neg (by simp [h]), List.filterMap_cons_none h]
      exact ih
    | some b =>
      rw [List.filter_cons_of_pos (by simp [h]), List.filterMap_cons_some h]
      exact .cons h ih

/-- The candidates that are descriptor files, one after another, and what is recorded of them. -/
theorem forall₂_ofCandidate? (root : Path) (candidates : List Path) :
    List.Forall₂ (fun candidate file => DescriptorFile.Of root candidate file)
      (candidates.filter isDescriptor)
      (candidates.filterMap (DescriptorFile.ofCandidate? root)) := by
  have h := forall₂_filterMap (DescriptorFile.ofCandidate? root) candidates
  simp only [isSome_ofCandidate?] at h
  exact h.imp fun _ _ => ofCandidate?_eq_some_iff.mp

/-- A candidate is found again in its directory under its name. -/
theorem DescriptorFile.Of.components {root candidate : Path} {file : DescriptorFile}
    (h : file.Of root candidate) :
    candidate.components = file.directory.components ++ [.normal file.fileName] := by
  obtain ⟨dir, hdir, hcomponents⟩ := Path.exists_parent h.fileName
  obtain rfl := Option.some.inj (hdir.symm.trans h.directory)
  exact hcomponents

/-! ### Putting files into groups -/

/-- Groups of files by their directory, each directory once and in their order. -/
structure Grouped (groups : List Group) : Prop where
  nonempty : ∀ group ∈ groups, group.files ≠ []
  directory : ∀ group ∈ groups, ∀ file ∈ group.files,
    file.directory.components = group.directory.components
  increasing : groups.Pairwise fun a b => a.directory.compare b.directory = .lt

theorem perm_insertFile (file : DescriptorFile) (groups : List Group) :
    ((insertFile file groups).flatMap Group.files).Perm (file :: groups.flatMap Group.files) := by
  induction groups with
  | nil => exact .refl _
  | cons group groups ih =>
    rw [insertFile]
    split
    · exact .refl _
    · simp
    · exact (ih.append_left group.files).trans List.perm_middle

theorem mem_insertFile {file : DescriptorFile} {groups : List Group} {group : Group}
    (h : group ∈ insertFile file groups) :
    group.directory = file.directory ∨ ∃ old ∈ groups, group.directory = old.directory := by
  induction groups with
  | nil => exact .inl (by rw [List.mem_singleton.mp h])
  | cons first groups ih =>
    rw [insertFile] at h
    split at h
    · rcases List.mem_cons.mp h with rfl | h
      · exact .inl rfl
      · exact .inr ⟨group, h, rfl⟩
    · rcases List.mem_cons.mp h with rfl | h
      · exact .inr ⟨first, List.mem_cons_self .., rfl⟩
      · exact .inr ⟨group, List.mem_cons_of_mem _ h, rfl⟩
    · rcases List.mem_cons.mp h with rfl | h
      · exact .inr ⟨group, List.mem_cons_self .., rfl⟩
      · rcases ih h with h | ⟨old, hold, h⟩
        · exact .inl h
        · exact .inr ⟨old, List.mem_cons_of_mem _ hold, h⟩

theorem grouped_cons_iff {group : Group} {groups : List Group} :
    Grouped (group :: groups) ↔ (group.files ≠ [] ∧
      ∀ file ∈ group.files, file.directory.components = group.directory.components) ∧
      (∀ other ∈ groups, group.directory.compare other.directory = .lt) ∧ Grouped groups := by
  constructor
  · rintro ⟨hne, hdir, hlt⟩
    obtain ⟨hne, hnes⟩ := List.forall_mem_cons.mp hne
    obtain ⟨hdir, hdirs⟩ := List.forall_mem_cons.mp hdir
    obtain ⟨hlt, hlts⟩ := List.pairwise_cons.mp hlt
    exact ⟨⟨hne, hdir⟩, hlt, hnes, hdirs, hlts⟩
  · rintro ⟨⟨hne, hdir⟩, hlt, hnes, hdirs, hlts⟩
    exact ⟨List.forall_mem_cons.mpr ⟨hne, hnes⟩, List.forall_mem_cons.mpr ⟨hdir, hdirs⟩,
      List.pairwise_cons.mpr ⟨hlt, hlts⟩⟩

/-- Putting one file into groups leaves groups. -/
theorem Grouped.insertFile {groups : List Group} (h : Grouped groups) (file : DescriptorFile) :
    Grouped (insertFile file groups) := by
  induction groups with
  | nil =>
    exact grouped_cons_iff.mpr ⟨⟨List.cons_ne_nil _ _, by simp⟩, List.forall_mem_nil _, h⟩
  | cons group groups ih =>
    obtain ⟨⟨hne, hdir⟩, hlt, hrest⟩ := grouped_cons_iff.mp h
    rw [Route.insertFile]
    split
    next hcompare =>
      refine grouped_cons_iff.mpr ⟨⟨List.cons_ne_nil _ _, by simp⟩, ?_, h⟩
      exact List.forall_mem_cons.mpr ⟨hcompare, fun other hother =>
        Std.TransCmp.lt_trans hcompare (hlt other hother)⟩
    next hcompare =>
      refine grouped_cons_iff.mpr ⟨⟨by simp, fun old hold => ?_⟩, hlt, hrest⟩
      rcases List.mem_append.mp hold with hold | hold
      · exact hdir old hold
      · rw [List.mem_singleton.mp hold]
        exact Path.components_of_compare hcompare
    next hcompare =>
      refine grouped_cons_iff.mpr ⟨⟨hne, hdir⟩, fun other hother => ?_, ih hrest⟩
      rcases mem_insertFile hother with hsame | ⟨old, hold, hsame⟩
      · rw [hsame]
        exact Std.OrientedCmp.gt_iff_lt.mp hcompare
      · rw [hsame]
        exact hlt old hold

/-- The groups that some files make, each file put in behind those before it. -/
def collect (files : List DescriptorFile) : List Group :=
  files.foldl (fun groups file => insertFile file groups) []

theorem collect_concat (files : List DescriptorFile) (file : DescriptorFile) :
    collect (files ++ [file]) = insertFile file (collect files) := by
  rw [collect, List.foldl_append]
  rfl

theorem grouped_collect (files : List DescriptorFile) : Grouped (collect files) := by
  induction files using List.reverseRecOn with
  | nil => exact ⟨List.forall_mem_nil _, List.forall_mem_nil _, .nil⟩
  | append_singleton files file ih =>
    rw [collect_concat]
    exact ih.insertFile file

theorem perm_collect (files : List DescriptorFile) :
    ((collect files).flatMap Group.files).Perm files := by
  induction files using List.reverseRecOn with
  | nil => exact .refl _
  | append_singleton files file ih =>
    rw [collect_concat]
    exact (perm_insertFile file _).trans ((ih.cons file).trans (List.perm_append_singleton ..).symm)

/-! ### The group of a directory -/

/-- Groups of directories that stand behind one are not of that directory. -/
theorem find?_eq_none_of_lt {groups : List Group} {dir : Path}
    (h : ∀ group ∈ groups, dir.compare group.directory = .lt) :
    groups.find? (·.directory.same dir) = none := by
  rw [List.find?_eq_none]
  intro group hgroup
  rw [Path.same_comm, Path.not_same_of_lt (h group hgroup)]
  exact Bool.false_ne_true

theorem find?_insertFile {groups : List Group} (h : Grouped groups) (file : DescriptorFile)
    (dir : Path) :
    (insertFile file groups).find? (·.directory.same dir) =
      if file.directory.same dir then
        some (match groups.find? (·.directory.same dir) with
          | some group => { group with files := group.files ++ [file] }
          | none => ⟨file.directory, [file]⟩)
      else groups.find? (·.directory.same dir) := by
  induction groups with
  | nil =>
    rw [insertFile, List.find?_singleton]
    rfl
  | cons group groups ih =>
    obtain ⟨-, hlt, hrest⟩ := grouped_cons_iff.mp h
    rw [insertFile]
    split
    next hcompare =>
      rw [List.find?_cons]
      cases hsame : file.directory.same dir with
      | false => rfl
      | true =>
        have hdir (q : Path) : dir.compare q = file.directory.compare q :=
          Path.compare_congr (Path.same_iff.mp hsame).symm rfl
        have hbehind : ∀ other ∈ group :: groups, dir.compare other.directory = .lt := by
          simp only [hdir, List.forall_mem_cons]
          exact ⟨hcompare, fun other hother => Std.TransCmp.lt_trans hcompare (hlt other hother)⟩
        rw [find?_eq_none_of_lt hbehind]
        rfl
    next hcompare =>
      have heq : file.directory.same dir = group.directory.same dir :=
        Path.same_congr_left (Path.same_of_compare hcompare) dir
      rw [List.find?_cons, List.find?_cons, heq]
      cases group.directory.same dir <;> rfl
    next hcompare =>
      rw [List.find?_cons, List.find?_cons, ih hrest]
      cases hsame : group.directory.same dir with
      | false => rfl
      | true =>
        have hfile : file.directory.same dir = false := by
          rw [← Path.same_congr hsame]
          exact Path.not_same_of_gt hcompare
        rw [hfile]
        rfl

/-- The group of a directory is made of the files of that directory in the order they are seen,
and it is named as in the first of them. -/
theorem find?_collect (files : List DescriptorFile) (dir : Path) :
    (collect files).find? (·.directory.same dir) =
      match files.filter (·.directory.same dir) with
      | [] => none
      | file :: rest => some ⟨file.directory, file :: rest⟩ := by
  induction files using List.reverseRecOn with
  | nil => rfl
  | append_singleton files file ih =>
    rw [collect_concat, find?_insertFile (grouped_collect files), ih, List.filter_append]
    cases hsame : file.directory.same dir with
    | false =>
      rw [List.filter_cons_of_neg (by simp [hsame]), List.filter_nil, List.append_nil]
      rfl
    | true =>
      rw [List.filter_cons_of_pos (by simp [hsame]), List.filter_nil]
      cases files.filter (·.directory.same dir) <;> rfl

/-! ### The order within a group -/

/-- What the files of a group are ordered by. -/
def Precedes (a b : DescriptorFile) : Prop :=
  a.method.token < b.method.token ∨ a.method.token = b.method.token ∧ a.fileName ≤ b.fileName

theorem le_iff {a b : DescriptorFile} : a.le b = true ↔ Precedes a b := by
  simp [DescriptorFile.le, Precedes]

theorem Precedes.trans {a b c : DescriptorFile} (hab : Precedes a b) (hbc : Precedes b c) :
    Precedes a c := by
  rcases hab with hab | ⟨hab, hname⟩
  · rcases hbc with hbc | ⟨hbc, -⟩
    · exact .inl (String.lt_trans hab hbc)
    · exact .inl (hbc ▸ hab)
  · rcases hbc with hbc | ⟨hbc, hname'⟩
    · exact .inl (hab ▸ hbc)
    · exact .inr ⟨hab.trans hbc, String.le_trans hname hname'⟩

theorem Precedes.total (a b : DescriptorFile) : Precedes a b ∨ Precedes b a := by
  by_cases hlt : a.method.token < b.method.token
  · exact .inl (.inl hlt)
  · by_cases hgt : b.method.token < a.method.token
    · exact .inr (.inl hgt)
    · have hsame : a.method.token = b.method.token :=
        String.le_antisymm (String.not_lt.mp hgt) (String.not_lt.mp hlt)
      rcases String.le_total a.fileName b.fileName with hname | hname
      · exact .inl (.inr ⟨hsame, hname⟩)
      · exact .inr (.inr ⟨hsame.symm, hname⟩)

/-- Files that may stand on either side of each other have one method and one name. -/
theorem Precedes.antisymm {a b : DescriptorFile} (hab : Precedes a b) (hba : Precedes b a) :
    a.method = b.method ∧ a.fileName = b.fileName := by
  rcases hab with hab | ⟨hab, hname⟩
  · rcases hba with hba | ⟨hba, -⟩
    · exact absurd hba (String.lt_asymm hab)
    · exact absurd hab (hba ▸ String.lt_irrefl _)
  · rcases hba with hba | ⟨-, hname'⟩
    · exact absurd hba (hab ▸ String.lt_irrefl _)
    · exact ⟨Method.token_injective hab, String.le_antisymm hname hname'⟩

theorem pairwise_sorted (group : Group) : group.sorted.files.Pairwise Precedes := by
  have htrans (a b c : DescriptorFile) (hab : a.le b = true) (hbc : b.le c = true) :
      a.le c = true := le_iff.mpr ((le_iff.mp hab).trans (le_iff.mp hbc))
  have htotal (a b : DescriptorFile) : (a.le b || b.le a) = true := by
    rw [Bool.or_eq_true, le_iff, le_iff]
    exact Precedes.total a b
  exact (List.pairwise_mergeSort htrans htotal group.files).imp le_iff.mp

theorem perm_sorted (group : Group) : group.sorted.files.Perm group.files :=
  List.mergeSort_perm _ _

/-- Sorting the files within each group leaves groups. -/
theorem Grouped.sorted {groups : List Group} (h : Grouped groups) :
    Grouped (groups.map Group.sorted) where
  nonempty := List.forall_mem_map.mpr fun group hgroup hnil =>
    h.nonempty group hgroup ((hnil ▸ perm_sorted group).nil_eq).symm
  directory := List.forall_mem_map.mpr fun group hgroup file hfile =>
    h.directory group hgroup file ((perm_sorted group).mem_iff.mp hfile)
  increasing := List.pairwise_map.mpr h.increasing

theorem perm_flatMap_sorted (groups : List Group) :
    ((groups.map Group.sorted).flatMap Group.files).Perm (groups.flatMap Group.files) := by
  induction groups with
  | nil => exact .refl _
  | cons group groups ih => exact (perm_sorted group).append ih

/-! ### One way to group -/

/-- The files of the first group are those of its directory, and the others are those of others. -/
theorem filter_flatMap {group : Group} {groups : List Group} (h : Grouped (group :: groups)) :
    ((group :: groups).flatMap Group.files).filter
        (·.directory.components = group.directory.components) = group.files ∧
      ((group :: groups).flatMap Group.files).filter
        (¬ ·.directory.components = group.directory.components) = groups.flatMap Group.files := by
  obtain ⟨⟨-, hdir⟩, hlt, hrest⟩ := grouped_cons_iff.mp h
  have hother : ∀ file ∈ groups.flatMap Group.files,
      ¬ file.directory.components = group.directory.components := by
    intro file hfile hsame
    obtain ⟨other, hmem, hfile⟩ := List.mem_flatMap.mp hfile
    have heq : group.directory.compare other.directory = .eq :=
      Path.compare_eq_iff.mpr (hsame.symm.trans (hrest.directory other hmem file hfile))
    rw [hlt other hmem] at heq
    cases heq
  rw [List.flatMap_cons, List.filter_append, List.filter_append]
  constructor
  · rw [List.filter_eq_self.mpr (by simpa using hdir),
      List.filter_eq_nil_iff.mpr (by simpa using hother), List.append_nil]
  · rw [List.filter_eq_nil_iff.mpr (by simpa using hdir),
      List.filter_eq_self.mpr (by simpa using hother), List.nil_append]

/-- The files of a group are all those of its directory. -/
theorem Grouped.filter_same {groups : List Group} (h : Grouped groups) {group : Group}
    (hgroup : group ∈ groups) :
    (groups.flatMap Group.files).filter (·.directory.same group.directory) = group.files := by
  induction groups with
  | nil => cases hgroup
  | cons first groups ih =>
    obtain ⟨hfirst, hlt, hrest⟩ := grouped_cons_iff.mp h
    rcases List.mem_cons.mp hgroup with rfl | hgroup
    · refine (List.filter_congr fun file _ => ?_).trans (filter_flatMap h).1
      rw [Path.same, beq_eq_decide]
    · have hnone : first.files.filter (·.directory.same group.directory) = [] := by
        rw [List.filter_eq_nil_iff]
        intro file hfile hsame
        have heq := Path.compare_eq_iff.mpr
          ((hfirst.2 file hfile).symm.trans (Path.same_iff.mp hsame))
        rw [hlt group hgroup] at heq
        cases heq
      rw [List.flatMap_cons, List.filter_append, hnone, List.nil_append, ih hrest hgroup]

/-- No file stands in front of the first group. -/
theorem not_lt_of_mem {group : Group} {groups : List Group} (h : Grouped (group :: groups))
    {file : DescriptorFile} (hfile : file ∈ (group :: groups).flatMap Group.files) :
    file.directory.compare group.directory ≠ .lt := by
  obtain ⟨⟨-, hdir⟩, hlt, hrest⟩ := grouped_cons_iff.mp h
  rw [List.flatMap_cons] at hfile
  rcases List.mem_append.mp hfile with hfile | hfile
  · rw [Path.compare_eq_iff.mpr (hdir file hfile)]
    decide
  · obtain ⟨other, hmem, hfile⟩ := List.mem_flatMap.mp hfile
    have hsame : file.directory.compare group.directory = other.directory.compare group.directory :=
      Path.compare_congr (hrest.directory other hmem file hfile) rfl
    rw [hsame, Std.OrientedCmp.gt_iff_lt.mpr (hlt other hmem)]
    decide

/-- The first groups of the same files have one directory. -/
theorem directory_of_perm {first second : Group} {firsts seconds : List Group}
    (h₁ : Grouped (first :: firsts)) (h₂ : Grouped (second :: seconds))
    (h : ((first :: firsts).flatMap Group.files).Perm ((second :: seconds).flatMap Group.files)) :
    first.directory.components = second.directory.components := by
  have hle {a b : Group} {as bs : List Group} (ha : Grouped (a :: as)) (hb : Grouped (b :: bs))
      (hsub : (a :: as).flatMap Group.files ⊆ (b :: bs).flatMap Group.files) :
      a.directory.compare b.directory ≠ .lt := by
    obtain ⟨file, hfile⟩ := List.exists_mem_of_ne_nil _ (ha.nonempty a (List.mem_cons_self ..))
    rw [← Path.compare_congr (ha.directory a (List.mem_cons_self ..) file hfile) rfl]
    exact not_lt_of_mem hb (hsub (List.mem_flatMap.mpr ⟨a, List.mem_cons_self .., hfile⟩))
  have hlt := hle h₁ h₂ h.subset
  have hgt := hle h₂ h₁ h.symm.subset
  rw [← Path.compare_eq_iff]
  rw [← Std.OrientedCmp.gt_iff_lt.ne] at hgt
  cases hcompare : first.directory.compare second.directory with
  | lt => exact absurd hcompare hlt
  | eq => rfl
  | gt => exact absurd hcompare hgt

/-- Groups of the same files are the same groups, but for the spelling of their directories and
the order of their files. -/
theorem Grouped.unique {a b : List Group} (ha : Grouped a) (hb : Grouped b)
    (h : (a.flatMap Group.files).Perm (b.flatMap Group.files)) :
    List.Forall₂ (fun x y : Group => x.directory.components = y.directory.components ∧
      x.files.Perm y.files) a b := by
  induction a generalizing b with
  | nil =>
    cases b with
    | nil => exact .nil
    | cons group b =>
      obtain ⟨⟨hne, -⟩, -, -⟩ := grouped_cons_iff.mp hb
      exact absurd (List.append_eq_nil_iff.mp h.nil_eq.symm).1 hne
  | cons first a ih =>
    cases b with
    | nil =>
      obtain ⟨⟨hne, -⟩, -, -⟩ := grouped_cons_iff.mp ha
      exact absurd (List.append_eq_nil_iff.mp h.eq_nil).1 hne
    | cons second b =>
      have hdir := directory_of_perm ha hb h
      obtain ⟨hfiles₁, hrest₁⟩ := filter_flatMap ha
      obtain ⟨hfiles₂, hrest₂⟩ := filter_flatMap hb
      rw [← hdir] at hfiles₂ hrest₂
      refine .cons ⟨hdir, ?_⟩ (ih (grouped_cons_iff.mp ha).2.2 (grouped_cons_iff.mp hb).2.2 ?_)
      · rw [← hfiles₁, ← hfiles₂]
        exact h.filter _
      · rw [← hrest₁, ← hrest₂]
        exact h.filter _

/-- Two records of one file, but for the spelling of paths. -/
structure DescriptorFile.Alike (a b : DescriptorFile) : Prop where
  directory : a.directory.components = b.directory.components
  method : a.method = b.method
  fileName : a.fileName = b.fileName
  location : a.location.components = b.location.components

/-- Two groups of the same files in the same order, but for the spelling of paths. -/
structure Group.Alike (a b : Group) : Prop where
  directory : a.directory.components = b.directory.components
  files : List.Forall₂ DescriptorFile.Alike a.files b.files

/-- What a record says, whichever way its paths are spelled. -/
def DescriptorFile.sense (file : DescriptorFile) :
    List Path.Component × Method × String × List Path.Component :=
  (file.directory.components, file.method, file.fileName, file.location.components)

theorem forall₂_alike_of_sense {a b : List DescriptorFile}
    (h : a.map DescriptorFile.sense = b.map DescriptorFile.sense) :
    List.Forall₂ DescriptorFile.Alike a b := by
  have hpairs := List.forall₂_eq_eq_eq.symm ▸ h
  rw [List.forall₂_map_left_iff, List.forall₂_map_right_iff] at hpairs
  refine hpairs.imp fun x y hxy => ?_
  obtain ⟨hdir, hmethod, hname, hlocation⟩ := by
    simpa [DescriptorFile.sense] using hxy
  exact ⟨hdir, hmethod, hname, hlocation⟩

/-- Files of one directory, recorded below one root, that have one name are recorded alike. -/
theorem DescriptorFile.Of.sense_congr {root candidate candidate' : Path} {a b : DescriptorFile}
    (ha : a.Of root candidate) (hb : b.Of root candidate')
    (hdir : a.directory.components = b.directory.components) (hname : a.fileName = b.fileName) :
    a.sense = b.sense := by
  have hmethod : a.method = b.method := by
    have := ha.method
    rw [hname, hb.method] at this
    exact (Option.some.inj this).symm
  have hcandidate : candidate.components = candidate'.components := by
    rw [ha.components, hb.components, hdir, hname]
  have hlocation : a.location.components = b.location.components := by
    rw [ha.location, hb.location]
    exact Path.components_join_congr root hcandidate
  rw [DescriptorFile.sense, DescriptorFile.sense, hdir, hmethod, hname, hlocation]

/-- Recorded files of one directory have but one order. -/
theorem sense_of_perm {root dir : Path} {a b : List DescriptorFile}
    (hdir : ∀ file ∈ a, file.directory.components = dir.components)
    (hof : ∀ file ∈ a, ∃ candidate, DescriptorFile.Of root candidate file)
    (ha : a.Pairwise Precedes) (hb : b.Pairwise Precedes) (h : a.Perm b) :
    a.map DescriptorFile.sense = b.map DescriptorFile.sense := by
  -- The order of files looks at their method and name only, so it is one of what they say.
  let le (x y : List Path.Component × Method × String × List Path.Component) : Prop :=
    x.2.1.token < y.2.1.token ∨ x.2.1.token = y.2.1.token ∧ x.2.2.1 ≤ y.2.2.1
  have ha : (a.map DescriptorFile.sense).Pairwise le := List.pairwise_map.mpr ha
  have hb : (b.map DescriptorFile.sense).Pairwise le := List.pairwise_map.mpr hb
  refine List.Perm.eq_of_pairwise (fun x y hx hy hxy hyx => ?_) ha hb (h.map _)
  obtain ⟨file, hfile, rfl⟩ := List.mem_map.mp hx
  obtain ⟨file', hfile', rfl⟩ := List.mem_map.mp hy
  have hfile' : file' ∈ a := h.mem_iff.mpr hfile'
  obtain ⟨candidate, hof₁⟩ := hof file hfile
  obtain ⟨candidate', hof₂⟩ := hof file' hfile'
  exact hof₁.sense_congr hof₂ ((hdir file hfile).trans (hdir file' hfile').symm)
    (Precedes.antisymm (a := file) (b := file') hxy hyx).2

/-! ### Scanning -/

/-- What a scan finds among candidates below a root. -/
structure Partition (root : Path) (candidates : List Path) (groups : List Group) : Prop
    extends Grouped groups where
  /-- Every candidate that is a descriptor file is recorded once, and nothing else is. -/
  complete : ∃ files, List.Forall₂ (fun candidate file => DescriptorFile.Of root candidate file)
    (candidates.filter isDescriptor) files ∧ (groups.flatMap Group.files).Perm files
  ordered : ∀ group ∈ groups, group.files.Pairwise Precedes

theorem groupsOf_eq (root : Path) (candidates : List Path) :
    groupsOf root candidates =
      (collect (candidates.filterMap (DescriptorFile.ofCandidate? root))).map Group.sorted := rfl

theorem perm_groupsOf (root : Path) (candidates : List Path) :
    ((groupsOf root candidates).flatMap Group.files).Perm
      (candidates.filterMap (DescriptorFile.ofCandidate? root)) :=
  (perm_flatMap_sorted _).trans (perm_collect _)

theorem partition_groupsOf (root : Path) (candidates : List Path) :
    Partition root candidates (groupsOf root candidates) where
  toGrouped := (grouped_collect _).sorted
  complete := ⟨_, forall₂_ofCandidate? root candidates, perm_groupsOf root candidates⟩
  ordered := List.forall_mem_map.mpr fun group _ => pairwise_sorted group

/-- Every file in a group is a candidate. -/
theorem of_mem_groupsOf {root : Path} {candidates : List Path} {group : Group}
    (hgroup : group ∈ groupsOf root candidates) {file : DescriptorFile}
    (hfile : file ∈ group.files) :
    ∃ candidate ∈ candidates, DescriptorFile.Of root candidate file := by
  have hmem := (perm_groupsOf root candidates).mem_iff.mp
    (List.mem_flatMap.mpr ⟨group, hgroup, hfile⟩)
  obtain ⟨candidate, hcandidate, hof⟩ := List.mem_filterMap.mp hmem
  exact ⟨candidate, hcandidate, ofCandidate?_eq_some_iff.mp hof⟩

/-- The methods of the descriptor files among the candidates of a directory. -/
def methodsIn (dir : Path) (candidates : List Path) : List Method :=
  candidates.filterMap fun candidate =>
    if (candidate.parent?.getD ⟨""⟩).same dir then candidate.fileName?.bind methodOf? else none

theorem method_ofCandidate? (root dir candidate : Path) :
    ((DescriptorFile.ofCandidate? root candidate).filter (·.directory.same dir)).map
        DescriptorFile.method =
      if (candidate.parent?.getD ⟨""⟩).same dir then candidate.fileName?.bind methodOf?
      else none := by
  rw [DescriptorFile.ofCandidate?]
  cases candidate.fileName? with
  | none => simp
  | some name => cases hmethod : methodOf? name <;> simp [hmethod, Option.filter]

/-- A group has the methods that its directory is proposed with. -/
theorem perm_methodsIn {root : Path} {candidates : List Path} {group : Group}
    (hgroup : group ∈ groupsOf root candidates) :
    (group.files.map DescriptorFile.method).Perm (methodsIn group.directory candidates) := by
  have hfiles := (perm_groupsOf root candidates).filter (·.directory.same group.directory)
  rw [(partition_groupsOf root candidates).toGrouped.filter_same hgroup] at hfiles
  refine (hfiles.map DescriptorFile.method).trans ?_
  rw [List.filter_filterMap, List.map_filterMap, methodsIn,
    List.filterMap_congr fun candidate _ => method_ofCandidate? root group.directory candidate]

/-- Candidates in another order make the same groups. -/
theorem alike_groupsOf {root : Path} {candidates other : List Path} (h : candidates.Perm other) :
    List.Forall₂ Group.Alike (groupsOf root candidates) (groupsOf root other) := by
  have hpart := partition_groupsOf root candidates
  have hpart' := partition_groupsOf root other
  have hperm : ((groupsOf root candidates).flatMap Group.files).Perm
      ((groupsOf root other).flatMap Group.files) :=
    (perm_groupsOf root candidates).trans ((h.filterMap _).trans (perm_groupsOf root other).symm)
  have hpairs := hpart.toGrouped.unique hpart'.toGrouped hperm
  refine List.forall₂_iff_zip.mpr ⟨hpairs.length_eq, fun {x y} hmem => ?_⟩
  obtain ⟨hdir, hfiles⟩ := List.forall₂_zip hpairs hmem
  obtain ⟨hx, hy⟩ := List.of_mem_zip hmem
  have hof : ∀ file ∈ x.files, ∃ candidate, DescriptorFile.Of root candidate file :=
    fun file hfile => (of_mem_groupsOf hx hfile).imp fun _ h => h.2
  exact ⟨hdir, forall₂_alike_of_sense
    (sense_of_perm (hpart.directory x hx) hof (hpart.ordered x hx) (hpart'.ordered y hy) hfiles)⟩

/-- **A scan partitions the candidates.** Each candidate that is named as a descriptor file is
recorded as often as it is proposed, in the group of its directory. No group is empty, directories
stand in their order and once each, and the files of one in the order of their method's token and
their name. In whichever order the candidates are proposed, the groups are the same but for the
spelling of paths. -/
theorem groupsOf_partition (root : Path) (candidates : List Path) :
    Partition root candidates (groupsOf root candidates) ∧
      ∀ other, candidates.Perm other →
        List.Forall₂ Group.Alike (groupsOf root candidates) (groupsOf root other) :=
  ⟨partition_groupsOf root candidates, fun _ h => alike_groupsOf h⟩

/-- Candidates of one directory in three spellings, and one that is no descriptor file. -/
theorem groupsOf_partition_spellings :
    let root : Path := ⟨"/project"⟩
    let candidates : List Path := [⟨"app//posts/route.post.config.ts"⟩, ⟨"app/route.get.config.ts"⟩,
      ⟨"app/posts/route.ts"⟩, ⟨"app/./posts/route.delete.config.js"⟩,
      ⟨"app/posts/route.post.config.js"⟩]
    candidates.Perm candidates.reverse ∧ Partition root candidates (groupsOf root candidates) ∧
      List.Forall₂ Group.Alike (groupsOf root candidates) (groupsOf root candidates.reverse) := by
  intro root candidates
  have h : candidates.Perm candidates.reverse := (List.reverse_perm candidates).symm
  obtain ⟨hpart, hperm⟩ := groupsOf_partition root candidates
  exact ⟨h, hpart, hperm _ h⟩

end RouteScaffold.Route
