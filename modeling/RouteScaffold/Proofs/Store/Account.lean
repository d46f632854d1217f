import RouteScaffold.Proofs.Store.Notes

/-! One account of what a store in memory holds.

A store is filled by files and directories under paths in any spelling (`Filling`). What
it tells then, in enumerating, reading and being asked what exists, is told by the list of
what it was given: a file is one list of components, spelled as it first was, with the
content it had last (`account_filled`). -/
namespace RouteScaffold.Store

/-! ### How a store is filled -/

/-- What is done to a store in memory. -/
inductive Filling where
  /-- A file is there from the start. -/
  | file (path : Path) (content : String)
  | write (path : Path) (content : String)
  | makeDir (path : Path)

namespace Filling

def perform (s : Memory) : Filling → Memory
  | .file path content => s.addFile path content
  | .write path content => s.write path content
  | .makeDir path => s.makeDir path

/-- The file that is stored, with its path taken from a directory. -/
def file? (dir : Path) : Filling → Option (Path × String)
  | .file path content | .write path content => some (dir.resolve path, content)
  | .makeDir _ => none

/-- The directory that is made, with its path taken from a directory. -/
def made? (dir : Path) : Filling → Option Path
  | .file _ _ | .write _ _ => none
  | .makeDir path => some (dir.resolve path)

end Filling

/-- The state that an empty one becomes. -/
def Memory.filled (dir : Path) (fillings : List Filling) : Memory :=
  fillings.foldl Filling.perform { workingDir := dir }

/-- The files that were stored, in the order of the calls. -/
def storedFiles (dir : Path) (fillings : List Filling) : List (Path × String) :=
  fillings.filterMap (Filling.file? dir)

/-- The directories that were made. -/
def madeDirs (dir : Path) (fillings : List Filling) : List Path :=
  fillings.filterMap (Filling.made? dir)

/-- The content that was stored last under the components of a path. -/
def latest? (stored : List (Path × String)) (path : Path) : Option String :=
  (stored.reverse.find? (·.1.same path)).map Prod.snd

/-- The path was the first with its components that a file was stored under. -/
def FirstSpelled (stored : List (Path × String)) (path : Path) : Prop :=
  (stored.find? (·.1.same path)).map Prod.fst = some path

/-! ### One step -/

section filling
variable (dir : Path) (fillings : List Filling)

theorem filled_concat (filling : Filling) :
    Memory.filled dir (fillings ++ [filling]) =
      filling.perform (Memory.filled dir fillings) := by
  rw [Memory.filled, List.foldl_append]
  rfl

theorem storedFiles_concat (filling : Filling) :
    storedFiles dir (fillings ++ [filling]) =
      storedFiles dir fillings ++ (filling.file? dir).toList := by
  rw [storedFiles, List.filterMap_append]
  cases filling <;> rfl

theorem madeDirs_concat (filling : Filling) :
    madeDirs dir (fillings ++ [filling]) =
      madeDirs dir fillings ++ (filling.made? dir).toList := by
  rw [madeDirs, List.filterMap_append]
  cases filling <;> rfl

theorem workingDir_filled : (Memory.filled dir fillings).workingDir = dir := by
  induction fillings using List.reverseRecOn with
  | nil => rfl
  | append_singleton fillings filling ih =>
    rw [filled_concat]
    cases filling <;> exact ih

theorem resolve_filled (path : Path) :
    (Memory.filled dir fillings).resolve path = dir.resolve path := by
  rw [Memory.resolve, workingDir_filled]

theorem ordered_filled : (Memory.filled dir fillings).Ordered := by
  induction fillings using List.reverseRecOn with
  | nil => exact .nil
  | append_singleton fillings filling ih =>
    rw [filled_concat]
    cases filling with
    | file path content => exact ih.addFile path content
    | write path content => exact ih.write path content
    | makeDir path => exact ih.makeDir path

/-! ### Reading and asking what exists -/

theorem latest?_concat (stored : List (Path × String)) (file : Path × String) (path : Path) :
    latest? (stored ++ [file]) path =
      if file.1.same path then some file.2 else latest? stored path := by
  rw [latest?, latest?, List.reverse_append, List.reverse_singleton, List.singleton_append,
    List.find?_cons]
  cases file.1.same path <;> rfl

theorem file?_filled (path : Path) : (Memory.filled dir fillings).file? path =
    latest? (storedFiles dir fillings) (dir.resolve path) := by
  induction fillings using List.reverseRecOn with
  | nil => rfl
  | append_singleton fillings filling ih =>
    rw [filled_concat, storedFiles_concat]
    cases filling with
    | file p content =>
      rw [Filling.perform, Memory.file?_addFile, resolve_filled, resolve_filled, ih,
        Filling.file?, Option.toList_some, latest?_concat]
    | write p content =>
      rw [Filling.perform, Memory.file?_write, resolve_filled, resolve_filled, ih,
        Filling.file?, Option.toList_some, latest?_concat]
    | makeDir p =>
      rw [Filling.file?, Option.toList_none, List.append_nil, ← ih]
      rfl

theorem has_filled (path : Path) : (Memory.filled dir fillings).has path =
    ((storedFiles dir fillings).any (·.1.startsWith (dir.resolve path)) ||
      (madeDirs dir fillings).any (·.startsWith (dir.resolve path))) := by
  induction fillings using List.reverseRecOn with
  | nil => rfl
  | append_singleton fillings filling ih =>
    rw [filled_concat, storedFiles_concat, madeDirs_concat, List.any_append, List.any_append]
    cases filling with
    | file p content =>
      rw [Filling.perform, Memory.has_addFile, resolve_filled, resolve_filled, ih]
      simp [Filling.file?, Filling.made?, Bool.or_comm, Bool.or_left_comm]
    | write p content =>
      rw [Filling.perform, Memory.has_write, resolve_filled, resolve_filled, ih]
      simp [Filling.file?, Filling.made?, Bool.or_comm, Bool.or_left_comm]
    | makeDir p =>
      rw [Filling.perform, Memory.has_makeDir, resolve_filled, resolve_filled, ih]
      simp [Filling.file?, Filling.made?, Bool.or_comm, Bool.or_assoc]

/-! ### The paths of the files -/

variable {dir fillings}

theorem same_of_find? {stored : List (Path × String)} {path : Path} {file : Path × String}
    (h : stored.find? (·.1.same path) = some file) : file.1.same path = true :=
  List.find?_some (p := fun stored : Path × String => stored.1.same path) h

theorem find?_same_congr (stored : List (Path × String)) {p q : Path} (h : p.same q = true) :
    stored.find? (·.1.same p) = stored.find? (·.1.same q) := by
  have hsame : (fun file : Path × String => file.1.same p) = fun file => file.1.same q := by
    funext file
    exact Path.same_congr h file.1
  rw [hsame]

theorem firstSpelled_iff {stored : List (Path × String)} {path : Path} :
    FirstSpelled stored path ↔
      ∃ content, stored.find? (·.1.same path) = some (path, content) := by
  rw [FirstSpelled, Option.map_eq_some_iff]
  constructor
  · rintro ⟨⟨_, content⟩, hfound, rfl⟩
    exact ⟨content, hfound⟩
  · rintro ⟨content, hfound⟩
    exact ⟨_, hfound, rfl⟩

/-- The first file that was stored under the components of a path gave them their spelling. -/
theorem firstSpelled_of_find? {stored : List (Path × String)} {path : Path} {file : Path × String}
    (h : stored.find? (·.1.same path) = some file) : FirstSpelled stored file.1 := by
  rw [FirstSpelled, find?_same_congr stored (same_of_find? h), h, Option.map_some]

/-- A file stored behind others gives its path its spelling unless that has one. -/
theorem firstSpelled_concat {stored : List (Path × String)} {file : Path × String} {path : Path} :
    FirstSpelled (stored ++ [file]) path ↔ FirstSpelled stored path ∨
      path = file.1 ∧ ∀ p, FirstSpelled stored p → p.same file.1 = false := by
  rw [FirstSpelled, FirstSpelled, List.find?_append]
  cases hfound : stored.find? (·.1.same path) with
  | some first =>
    refine ⟨.inl, fun h => h.resolve_right ?_⟩
    rintro ⟨rfl, hnone⟩
    have hother := hnone first.1 (firstSpelled_of_find? hfound)
    rw [same_of_find? hfound] at hother
    cases hother
  | none =>
    have hnone (p : Path) (hp : FirstSpelled stored p) : p.same path = false := by
      obtain ⟨content, hfirst⟩ := firstSpelled_iff.mp hp
      have hmem := List.mem_of_find?_eq_some hfirst
      exact eq_false_of_ne_true (List.find?_eq_none.mp hfound (p, content) hmem)
    rw [Option.none_or, List.find?_singleton]
    constructor
    · intro h
      split at h
      · obtain rfl := Option.some.inj h
        exact .inr ⟨rfl, hnone⟩
      · cases h
    · rintro (h | ⟨rfl, -⟩)
      · cases h
      · rw [if_pos (Path.same_iff.mpr rfl)]
        rfl

/-- A file that is put among others in their order comes under its path, unless that is there. -/
theorem mem_paths_insertFile {path : Path} {content : String} {files : List (Path × String)}
    (h : files.Pairwise fun a b => a.1.compare b.1 = .lt) {p : Path} :
    p ∈ (Memory.insertFile path content files).map Prod.fst ↔ p ∈ files.map Prod.fst ∨
      p = path ∧ ∀ q ∈ files.map Prod.fst, q.same path = false := by
  induction files with
  | nil => simp [Memory.insertFile]
  | cons file files ih =>
    obtain ⟨hfirst, hrest⟩ := List.pairwise_cons.mp h
    rw [Memory.insertFile]
    split
    next hlt =>
      have hother (q : Path) (hq : path.compare q = .lt) : q.same path = false := by
        rw [Path.same_comm, Path.not_same_of_lt hq]
      have hall : ∀ q ∈ (file :: files).map Prod.fst, q.same path = false := by
        rw [List.map_cons, List.forall_mem_cons, List.forall_mem_map]
        exact ⟨hother _ hlt, fun later hlater =>
          hother _ (Std.TransCmp.lt_trans hlt (hfirst later hlater))⟩
      rw [List.map_cons, List.mem_cons, or_comm, iff_true_intro hall, and_true]
    next heq =>
      have hsame : file.1.same path = true := by
        rw [Path.same_comm, Path.same_of_compare heq]
      simp [hsame]
    next hgt =>
      have hother : file.1.same path = false := by
        rw [Path.same_comm, Path.not_same_of_gt hgt]
      rw [List.map_cons, List.mem_cons, ih hrest, List.map_cons, List.mem_cons,
        List.forall_mem_cons, or_assoc, iff_true_intro hother, true_and]

theorem mem_paths_filled {path : Path} :
    path ∈ (Memory.filled dir fillings).files.map Prod.fst ↔
      FirstSpelled (storedFiles dir fillings) path := by
  induction fillings using List.reverseRecOn generalizing path with
  | nil => simp [Memory.filled, storedFiles, FirstSpelled]
  | append_singleton fillings filling ih =>
    have hput (p : Path) (content : String) :
        path ∈ (Memory.insertFile (dir.resolve p) content
            (Memory.filled dir fillings).files).map Prod.fst ↔
          FirstSpelled (storedFiles dir fillings ++ [(dir.resolve p, content)]) path := by
      rw [mem_paths_insertFile (ordered_filled dir fillings), firstSpelled_concat, ih]
      simp only [ih]
    rw [filled_concat, storedFiles_concat]
    cases filling with
    | file p content | write p content =>
      rw [Filling.file?, Option.toList_some, ← hput, ← resolve_filled dir fillings]
      rfl
    | makeDir p =>
      rw [Filling.file?, Option.toList_none, List.append_nil, ← ih]
      rfl

/-! ### Enumerating -/

theorem mem_matching_filled {root : Path} {pattern : Glob.Pattern} {path : Path} :
    path ∈ (Memory.filled dir fillings).matching root pattern ↔
      (∃ first, FirstSpelled (storedFiles dir fillings) first ∧
        first.stripBase? (dir.resolve root) = some path) ∧
      (∀ name ∈ path.names, name ∉ skippedDirs) ∧ pattern.matchesPath path = true := by
  rw [Memory.matching, List.mem_filter, List.mem_filterMap, Bool.and_eq_true, Bool.not_eq_true',
    inSkippedDir_eq_false_iff, resolve_filled]
  refine and_congr_left fun _ => ?_
  constructor
  · rintro ⟨file, hfile, hleft⟩
    exact ⟨file.1, mem_paths_filled.mp (List.mem_map_of_mem hfile), hleft⟩
  · rintro ⟨first, hfirst, hleft⟩
    obtain ⟨file, hfile, rfl⟩ := List.mem_map.mp (mem_paths_filled.mpr hfirst)
    exact ⟨file, hfile, hleft⟩

/-- What is left of a file behind a root leads from there to the file. -/
theorem same_resolve_join {root first path : Path}
    (h : first.stripBase? (dir.resolve root) = some path) :
    first.same (dir.resolve (root.join path)) = true := by
  have hsplit := Path.components_of_stripBase? h
  have hjoin : (dir.resolve (root.join path)).components =
      (dir.resolve root).components ++ path.components :=
    Path.components_resolve_join fun hne => Path.isStep_of_components hsplit hne
  exact Path.same_iff.mpr (hsplit.trans hjoin.symm)

theorem exists_latest? {stored : List (Path × String)} {p path : Path} {content : String}
    (hfile : (p, content) ∈ stored) (hsame : p.same path = true) :
    ∃ last, latest? stored path = some last := by
  have hfound : (stored.reverse.find? (·.1.same path)).isSome = true :=
    List.find?_isSome.mpr ⟨(p, content), List.mem_reverse.mpr hfile, hsame⟩
  exact Option.isSome_iff_exists.mp (Option.isSome_map.trans hfound)

/-- A file that is stored below a base has a first spelling, of which something is left there. -/
theorem exists_left {stored : List (Path × String)} {file : Path × String} {base : Path}
    (hfile : file ∈ stored) (hbelow : base.components <+: file.1.components) :
    ∃ first path, FirstSpelled stored first ∧ first.same file.1 = true ∧
      first.stripBase? base = some path := by
  have hthere : (stored.find? (·.1.same file.1)).isSome = true :=
    List.find?_isSome.mpr ⟨file, hfile, Path.same_iff.mpr rfl⟩
  obtain ⟨first, hfound⟩ := Option.isSome_iff_exists.mp hthere
  have hsame := same_of_find? hfound
  have hstart : first.1.startsWith base = true := by
    rw [Path.startsWith, Path.same_iff.mp hsame]
    exact List.isPrefixOf_iff_prefix.mpr hbelow
  obtain ⟨path, hleft⟩ := Path.exists_stripBase? hstart
  exact ⟨first.1, path, firstSpelled_of_find? hfound, hsame, hleft⟩

end filling

/-! ### The account -/

/-- What is found of the stored files, from a root of which the path is resolved. -/
structure Enumerates (stored : List (Path × String)) (base : Path) (pattern : Glob.Pattern)
    (found : List Path) : Prop where
  /-- Nothing is found twice, in whichever spelling. -/
  once : found.Pairwise fun p q => p.same q = false
  /-- What is found is what the base leaves of the files, as each was first spelled, where no
  directory is skipped and the pattern matches. -/
  mem_iff : ∀ path, path ∈ found ↔
    (∃ first, FirstSpelled stored first ∧ first.stripBase? base = some path) ∧
      (∀ name ∈ path.names, name ∉ skippedDirs) ∧ pattern.matchesPath path = true
  /-- No file that was stored below the base is left out of these. -/
  covers : ∀ file ∈ stored, base.components <+: file.1.components →
    ∃ first path, FirstSpelled stored first ∧ first.same file.1 = true ∧
      first.stripBase? base = some path

/-- A state tells, in each of its answers, of the files that were stored and the directories that
were made, by the components of their paths. -/
structure Account (s : Memory) (stored : List (Path × String)) (made : List Path) : Prop where
  enumerates : ∀ root text pattern, Store.pattern text = .ok pattern → ∃ found,
    (memory.glob root text).run s = (.ok found, s) ∧
      Enumerates stored (s.resolve root) pattern found ∧
      -- What is found exists from the root, and reads as it was stored last.
      ∀ path ∈ found, (memory.has (root.join path)).run s = (true, s) ∧
        ∃ content, latest? stored (s.resolve (root.join path)) = some content ∧
          (memory.read (root.join path)).run s = (.ok content, s)
  reads : ∀ path, (memory.read path).run s = (textAt path (latest? stored (s.resolve path)), s)
  has_iff : ∀ path, ((memory.has path).run s).1 = true ↔
    (∃ file ∈ stored, (s.resolve path).components <+: file.1.components) ∨
      ∃ dir ∈ made, (s.resolve path).components <+: dir.components
  /-- A write is read back where a path leads to the written one, and nowhere else. -/
  writes : ∀ path content q,
    ((memory.read q).run ((memory.write path content).run s).2).1 =
      if (s.resolve path).same (s.resolve q) then .ok content else ((memory.read q).run s).1

/-- **A store in memory tells one story**, however it was filled. -/
theorem account_filled (dir : Path) (fillings : List Filling) :
    Account (Memory.filled dir fillings) (storedFiles dir fillings) (madeDirs dir fillings) := by
  have hresolve := resolve_filled dir fillings
  have hreads (path : Path) : (memory.read path).run (Memory.filled dir fillings) =
      (textAt path (latest? (storedFiles dir fillings) (dir.resolve path)),
        Memory.filled dir fillings) := by
    rw [Run.run_read, file?_filled]
  have hhas (path : Path) : (Memory.filled dir fillings).has path = true ↔
      (∃ file ∈ storedFiles dir fillings, (dir.resolve path).components <+: file.1.components) ∨
        ∃ made ∈ madeDirs dir fillings, (dir.resolve path).components <+: made.components := by
    simp only [has_filled, Bool.or_eq_true, List.any_eq_true, Path.startsWith,
      List.isPrefixOf_iff_prefix]
  refine ⟨fun root text pattern hpattern => ?_, fun path => ?_, fun path => ?_,
    fun path content q => ?_⟩
  · refine ⟨(Memory.filled dir fillings).matching root pattern, ?_, ⟨?_, ?_, ?_⟩, ?_⟩
    · show ((Store.pattern text).map _, _) = _
      rw [hpattern]
      rfl
    · exact (Memory.ordered_matching (ordered_filled dir fillings) root pattern).imp
        fun hlt => Path.not_same_of_compare (by rw [hlt]; decide)
    · intro path
      rw [hresolve]
      exact mem_matching_filled
    · intro file hfile hbelow
      exact exists_left hfile hbelow
    · intro path hpath
      obtain ⟨⟨first, hfirst, hleft⟩, -⟩ := mem_matching_filled.mp hpath
      have hsame := same_resolve_join hleft
      obtain ⟨content, hfound⟩ := firstSpelled_iff.mp hfirst
      have hmem := List.mem_of_find?_eq_some hfound
      obtain ⟨last, hlatest⟩ := exists_latest? hmem hsame
      refine ⟨?_, last, ?_, ?_⟩
      · have hbelow : (dir.resolve (root.join path)).components <+: first.components :=
          ⟨[], (List.append_nil _).trans (Path.same_iff.mp hsame).symm⟩
        have hthere := (hhas (root.join path)).mpr (.inl ⟨(first, content), hmem, hbelow⟩)
        show ((Memory.filled dir fillings).has (root.join path), _) = _
        rw [hthere]
      · rw [hresolve, hlatest]
      · rw [hreads, hlatest]
        rfl
  · rw [hresolve, hreads]
  · rw [hresolve]
    exact hhas path
  · show ((memory.read q).run ((Memory.filled dir fillings).write path content)).1 = _
    rw [Run.run_read, Memory.file?_write, Run.run_read]
    split <;> rfl

end RouteScaffold.Store
