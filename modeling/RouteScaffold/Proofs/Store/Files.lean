import RouteScaffold.Proofs.Path.Stripped
import RouteScaffold.Proofs.Path.Order
import RouteScaffold.Proofs.Route.Groups
import RouteScaffold.Store.Memory

/-! The files of a store in memory.

A memory state is a map from paths to contents, whichever way the paths are spelled:
a write is seen at its path and nowhere else (`file?_write`). Its files stand in the
order of their paths (`Ordered`), which every operation keeps, so an enumeration
proposes candidates in their order (`ordered_matching`). What is found of descriptor
files is told by those of the state (`filterMap_matching`), which no write of another
file changes (`descriptors_write`). -/
namespace RouteScaffold.Store

theorem inSkippedDir_eq_false_iff {p : Path} :
    inSkippedDir p = false ↔ ∀ name ∈ p.names, name ∉ skippedDirs := by
  simp [inSkippedDir]

namespace Memory
open Route

/-! ### Reading what was written -/

theorem find?_insertFile (path : Path) (content : String) (files : List (Path × String))
    (q : Path) :
    ((insertFile path content files).find? (·.1.same q)).map Prod.snd =
      if path.same q then some content else (files.find? (·.1.same q)).map Prod.snd := by
  induction files with
  | nil =>
    rw [insertFile, List.find?_singleton]
    cases path.same q <;> rfl
  | cons file files ih =>
    rw [insertFile]
    split
    next =>
      rw [List.find?_cons]
      cases path.same q <;> rfl
    next heq =>
      have hsame : file.1.same q = path.same q :=
        (Path.same_congr_left (Path.same_of_compare heq) q).symm
      rw [List.find?_cons, List.find?_cons, hsame]
      cases path.same q <;> rfl
    next hgt =>
      rw [List.find?_cons, List.find?_cons]
      cases hfile : file.1.same q with
      | false => exact ih
      | true =>
        have hother : path.same q = false := by
          rw [← Path.same_congr hfile]
          exact Path.not_same_of_gt hgt
        rw [hother]
        rfl

/-- A file that is put into a state is seen at its path, in whichever spelling, and nowhere else. -/
theorem file?_addFile (s : Memory) (path : Path) (content : String) (q : Path) :
    (s.addFile path content).file? q =
      if (s.resolve path).same (s.resolve q) then some content else s.file? q :=
  find?_insertFile (s.resolve path) content s.files (s.resolve q)

/-- A write is seen at its path, in whichever spelling, and nowhere else. -/
theorem file?_write (s : Memory) (path : Path) (content : String) (q : Path) :
    (s.write path content).file? q =
      if (s.resolve path).same (s.resolve q) then some content else s.file? q :=
  file?_addFile s path content q

/-! ### The order of the files -/

/-- The files stand in the order of their paths, each path once. -/
def Ordered (s : Memory) : Prop := s.files.Pairwise fun a b => a.1.compare b.1 = .lt

theorem mem_insertFile {path : Path} {content : String} {files : List (Path × String)}
    {file : Path × String} (h : file ∈ insertFile path content files) :
    file.1 = path ∨ ∃ old ∈ files, file.1 = old.1 := by
  induction files with
  | nil => exact .inl (by rw [List.mem_singleton.mp h])
  | cons first files ih =>
    rw [insertFile] at h
    split at h
    · rcases List.mem_cons.mp h with rfl | h
      · exact .inl rfl
      · exact .inr ⟨file, h, rfl⟩
    · rcases List.mem_cons.mp h with rfl | h
      · exact .inr ⟨first, List.mem_cons_self .., rfl⟩
      · exact .inr ⟨file, List.mem_cons_of_mem _ h, rfl⟩
    · rcases List.mem_cons.mp h with rfl | h
      · exact .inr ⟨file, List.mem_cons_self .., rfl⟩
      · rcases ih h with h | ⟨old, hold, h⟩
        · exact .inl h
        · exact .inr ⟨old, List.mem_cons_of_mem _ hold, h⟩

theorem pairwise_insertFile {files : List (Path × String)}
    (h : files.Pairwise fun a b => a.1.compare b.1 = .lt) (path : Path) (content : String) :
    (insertFile path content files).Pairwise fun a b => a.1.compare b.1 = .lt := by
  induction files with
  | nil => exact List.pairwise_singleton ..
  | cons file files ih =>
    obtain ⟨hfirst, hrest⟩ := List.pairwise_cons.mp h
    rw [insertFile]
    split
    next hlt =>
      exact List.pairwise_cons.mpr ⟨List.forall_mem_cons.mpr ⟨hlt, fun other hother =>
        Std.TransCmp.lt_trans hlt (hfirst other hother)⟩, h⟩
    next => exact List.pairwise_cons.mpr ⟨hfirst, hrest⟩
    next hgt =>
      refine List.pairwise_cons.mpr ⟨fun other hother => ?_, ih hrest⟩
      rcases mem_insertFile hother with hsame | ⟨old, hold, hsame⟩
      · rw [hsame]
        exact Std.OrientedCmp.gt_iff_lt.mp hgt
      · rw [hsame]
        exact hfirst old hold

theorem Ordered.addFile {s : Memory} (h : s.Ordered) (path : Path) (content : String) :
    (s.addFile path content).Ordered := pairwise_insertFile h _ content

theorem Ordered.write {s : Memory} (h : s.Ordered) (path : Path) (content : String) :
    (s.write path content).Ordered := pairwise_insertFile h _ content

theorem Ordered.makeDir {s : Memory} (h : s.Ordered) (path : Path) : (s.makeDir path).Ordered := h

/-- Candidates are proposed in the order of their paths, each path once. -/
theorem ordered_matching {s : Memory} (h : s.Ordered) (root : Path) (pattern : Glob.Pattern) :
    (s.matching root pattern).Pairwise fun p q => p.compare q = .lt := by
  refine List.Pairwise.filter _ (h.filterMap _ fun a b hlt p hp q hq => ?_)
  have hcompare := Path.compareComponents_append (s.resolve root).components p.components
    q.components
  rw [← Path.components_of_stripBase? hp, ← Path.components_of_stripBase? hq] at hcompare
  exact hcompare.symm.trans hlt

/-! ### Descriptor files -/

/-- The descriptor files of a state, as they are spelled, with their contents. -/
def descriptors (s : Memory) : List (Path × String) :=
  s.files.filter fun file => isDescriptor file.1

/-- Putting a file that is no descriptor file leaves those that are. -/
theorem filter_insertFile {path : Path} (h : isDescriptor path = false) (content : String)
    (files : List (Path × String)) :
    (insertFile path content files).filter (fun file => isDescriptor file.1) =
      files.filter fun file => isDescriptor file.1 := by
  induction files with
  | nil => simp [insertFile, h]
  | cons file files ih =>
    rw [insertFile]
    split
    next => simp [h]
    next heq =>
      have hsame := isDescriptor_congr (Path.same_iff.mpr (Path.components_of_compare heq))
      rw [h] at hsame
      simp [← hsame]
    next => rw [List.filter_cons, List.filter_cons, ih]

theorem descriptors_write {s : Memory} {path : Path} (h : isDescriptor (s.resolve path) = false)
    (content : String) : (s.write path content).descriptors = s.descriptors :=
  filter_insertFile h content s.files

/-- What is left of a path behind a base has the file name that the path has. -/
theorem isDescriptor_of_stripBase? {p base q : Path} (h : p.stripBase? base = some q)
    (hq : isDescriptor q = true) : isDescriptor p = true := by
  obtain ⟨method, hmethod⟩ := Option.isSome_iff_exists.mp hq
  obtain ⟨name, hname, hmethod⟩ := Option.bind_eq_some_iff.mp hmethod
  obtain ⟨front, hfront⟩ := Path.fileName?_eq_some_iff.mp hname
  have hp : p.fileName? = some name := Path.fileName?_eq_some_iff.mpr
    ⟨base.components ++ front, by
      rw [Path.components_of_stripBase? h, hfront, List.append_assoc]⟩
  rw [isDescriptor, hp, Option.bind_some, hmethod]
  rfl

/-- The descriptor files among the candidates are those of the state that lie below the root and
match the pattern. -/
theorem filterMap_matching (s : Memory) (root base : Path) (pattern : Glob.Pattern) :
    (s.matching root pattern).filterMap (DescriptorFile.ofCandidate? base) =
      s.descriptors.filterMap fun file =>
        (file.1.stripBase? (s.resolve root)).bind fun candidate =>
          if !inSkippedDir candidate && pattern.matchesPath candidate then
            DescriptorFile.ofCandidate? base candidate
          else none := by
  rw [matching, List.filterMap_filter, List.filterMap_filterMap, descriptors,
    List.filterMap_filter]
  refine List.filterMap_congr fun file _ => ?_
  cases hdescriptor : isDescriptor file.1 with
  | true => rfl
  | false =>
    refine Option.bind_eq_none_iff.mpr fun candidate hcandidate => ?_
    have hnone : DescriptorFile.ofCandidate? base candidate = none := by
      rw [← Option.not_isSome_iff_eq_none, isSome_ofCandidate?]
      intro hcandidate'
      rw [isDescriptor_of_stripBase? hcandidate hcandidate'] at hdescriptor
      cases hdescriptor
    rw [hnone, ite_self]

/-- At the path of a descriptor file only the descriptor files count. -/
theorem file?_descriptors {s : Memory} {path : Path}
    (h : isDescriptor (s.resolve path) = true) :
    s.file? path =
      (s.descriptors.find? fun file => file.1.same (s.resolve path)).map Prod.snd := by
  have hfind : (fun file : Path × String => file.1.same (s.resolve path)) =
      fun file => decide (isDescriptor file.1 = true ∧ file.1.same (s.resolve path) = true) := by
    funext file
    rw [Bool.eq_iff_iff, decide_eq_true_iff]
    exact ⟨fun hsame => ⟨(isDescriptor_congr hsame).trans h, hsame⟩, And.right⟩
  rw [file?, descriptors, List.find?_filter, hfind]

end Memory
end RouteScaffold.Store
