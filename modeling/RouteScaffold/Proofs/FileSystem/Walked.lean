import RouteScaffold.Proofs.FileSystem.Ruleless

/-! What a walk of a disk finds.

Where no directory from the root of the disk down gives rules, a walk meets every file below its
root but those in skipped directories, each once and in the spelling of the root (`answers_walk`).
A step of it lists a directory and enters what it must (`answers_filesBelow`). -/
namespace RouteScaffold.Disk
open Store Ignore FileSystem

variable {disk : Disk} {path : Path} {dir names : List String} {name : String}

/-! ### Entering directories -/

/-- A path that leads to a directory, and that can be asked for. -/
structure Entered (disk : Disk) (path : Path) (dir : List String) : Prop where
  spelled : '\x00' ∉ path.text.toList
  resolved : disk.resolve path = .ok (dir, .dir)

/-- That a path leads to a directory is told without what files hold. -/
theorem Entered.of_kind (hspelled : '\x00' ∉ path.text.toList)
    (h : ((disk.resolve path).toOption.map fun found => (found.1, found.2.kind)) =
      some (dir, .dir)) : Entered disk path dir := by
  refine ⟨hspelled, ?_⟩
  cases hfound : disk.resolve path with
  | error refusal =>
    rw [hfound] at h
    cases h
  | ok found =>
    obtain ⟨names, node⟩ := found
    rw [hfound] at h
    obtain ⟨rfl, hkind⟩ := Prod.mk.inj (Option.some.inj h)
    cases node with
    | file content => cases hkind
    | dir => rfl

theorem Entered.leadsOnly (h : Entered disk path dir) : LeadsOnly disk path dir :=
  .of_resolve h.resolved

theorem Entered.spelled_eq {α : Type} (h : Entered disk path dir) {answer : Except Refusal α} :
    Disk.spelled path answer = answer.mapError .refused :=
  if_neg (by simpa using h.spelled)

theorem nul_not_mem_join (hpath : '\x00' ∉ path.text.toList) (h : Nameable name) :
    '\x00' ∉ (path.join ⟨name⟩).text.toList := by
  have hname := h.spelled
  rw [Path.join, if_neg (by simp [h.isName.not_isAbsolute])]
  split <;> simp [hpath, hname]

theorem node?_of_kind?_dir (h : disk.kind? names = some .dir) : disk.node? names = some .dir := by
  obtain ⟨node, hnode, hkind⟩ := Option.map_eq_some_iff.mp h
  cases node with
  | file content => cases hkind
  | dir => exact hnode

/-- A directory in one that was entered can be entered. -/
theorem Entered.join (h : Entered disk path dir) (hname : Nameable name)
    (hdir : disk.kind? (dir ++ [name]) = some .dir)
    (hfits : (path.join ⟨name⟩).text.utf8ByteSize ≤ Disk.longestPath) :
    Entered disk (path.join ⟨name⟩) (dir ++ [name]) := by
  refine ⟨nul_not_mem_join h.spelled hname, ?_⟩
  have hshort : ¬name.utf8ByteSize > longestName := Nat.not_lt.mpr hname.short
  rw [resolve_join h.leadsOnly.nonempty hname.isName hfits, h.resolved]
  show (disk.enter dir name).map _ = _
  rw [enter, if_neg hshort, node?_of_kind?_dir hdir]
  rfl

theorem Entered.answers_entries (h : Entered disk path dir) :
    Answers disk (fileSystem.entries path) (.ok (disk.namesIn dir)) := by
  show Answers disk (pure (Disk.spelled path (disk.listing path))) _
  rw [h.spelled_eq, listing, h.resolved]
  exact .pure ..

/-! ### Passing over -/

theorem passesOver_eq {search : Search} {own : List Level}
    (hown : ∀ level ∈ own, level.Silent) (habove : ∀ level ∈ search.above, level.Silent)
    (path : Path) (name : String) (kind : EntryKind) :
    search.passesOver own path name kind = skippedDirs.contains name := by
  have hsights : ∀ sight ∈ sights search.root search.real own search.above path,
      sight.level.Silent := by
    intro sight hsight
    rcases List.mem_append.mp hsight with hsight | hsight
    · obtain ⟨level, hlevel, rfl⟩ := List.mem_map.mp hsight
      exact hown level hlevel
    · obtain ⟨level, hlevel, rfl⟩ := List.mem_map.mp hsight
      exact habove level hlevel
  rw [Search.passesOver, hides_eq_false hsights, Bool.or_false]

/-! ### The walk -/

/-- Every directory below one that a walk enters gives no rules, and its path is not too long. -/
structure Open (disk : Disk) (versioned : Bool) (path : Path) (dir : List String) : Prop where
  ruleless : ∀ rel, disk.Ruleless versioned (dir ++ rel)
  fits : ∀ rel, disk.kind? (dir ++ rel) = some .dir → (∀ name ∈ rel, name ∉ skippedDirs) →
    (path.descend rel).text.utf8ByteSize ≤ Disk.longestPath

theorem Open.join {versioned : Bool} (h : Open disk versioned path dir)
    (hname : name ∉ skippedDirs) : Open disk versioned (path.join ⟨name⟩) (dir ++ [name]) := by
  refine ⟨fun rel => ?_, fun rel hdir hrel => ?_⟩
  · rw [List.append_assoc]
    exact h.ruleless _
  · rw [List.append_assoc] at hdir
    exact h.fits (name :: rel) hdir (List.forall_mem_cons.mpr ⟨hname, hrel⟩)

/-- Where the path of every entry is short enough, so is that of every directory. -/
theorem fits_of_entries (hdisk : disk.IsTree) (hpath : path.text.utf8ByteSize ≤ Disk.longestPath)
    (h : ∀ entry ∈ disk.entries,
      (path.descend (entry.1.drop dir.length)).text.utf8ByteSize ≤ Disk.longestPath)
    {rel : List String} (hdir : disk.kind? (dir ++ rel) = some .dir) :
    (path.descend rel).text.utf8ByteSize ≤ Disk.longestPath := by
  by_cases hrel : rel = []
  · rw [hrel]
    exact hpath
  · obtain ⟨node, hmem, -⟩ := exists_entry hdisk (by simp [hrel]) hdir
    have := h _ hmem
    rwa [List.drop_left] at this

/-- Below a directory without rules a walk finds the files that lie in no skipped directory. -/
theorem answers_filesBelow (hdisk : disk.IsTree) {search : Search}
    (habove : ∀ level ∈ search.above, level.Silent) {depth : Nat} {own : List Level}
    (hown : ∀ level ∈ own, level.Silent) (hpath : Entered disk path dir)
    (hopen : Open disk search.versioned path dir)
    (hdepth : Disk.longestPath < path.text.utf8ByteSize + depth) :
    Answers disk (fileSystem.filesBelow search depth own path).run
      (.ok ((disk.filesIn depth dir).map path.descend)) := by
  induction depth generalizing own path dir with
  | zero =>
    have := (fits_of_resolve hpath.resolved).2
    omega
  | succ depth ih =>
    rw [filesBelow]
    refine Answers.ok_bind (hpath.answers_entries.bind (.pure ..)) ?_
    have hfound : (disk.filesIn (depth + 1) dir).map path.descend =
        ((disk.namesIn dir).map fun entry => (foundAt entry.1 entry.2
          (disk.filesIn depth (dir ++ [entry.1]))).map path.descend).flatten := by
      rw [filesIn, List.map_flatMap, List.flatMap_def]
    rw [hfound]
    refine Answers.ok_bind (answers_mapM _ fun entry hmem => ?_) (.pure ..)
    obtain ⟨name, kind⟩ := entry
    unfold foundAt
    dsimp only
    rw [passesOver_eq hown habove]
    split
    next => exact .pure ..
    next hskipped =>
      have hkind := (mem_namesIn hdisk).mp hmem
      cases kind with
      | file => exact .pure ..
      | other => exact .pure ..
      | dir =>
        have hskipped : name ∉ skippedDirs := by simpa using hskipped
        have hname := hdisk.nameable_of_kind? hkind name (by simp)
        have hopen' := hopen.join hskipped
        have hpath' := hpath.join hname hkind
          (hopen.fits [name] hkind (List.forall_mem_singleton.mpr hskipped))
        obtain ⟨level, hlevel, hsilent⟩ := exists_answers_readLevel hpath'.leadsOnly
          (by simpa using hopen'.ruleless [])
        have hsize := size_lt_join path hname.isName
        have hbelow := ih (List.forall_mem_cons.mpr ⟨hsilent, hown⟩) hpath' hopen' (by omega)
        rw [List.map_map]
        exact hlevel.lift.ok_bind hbelow

/-! ### From the root -/

theorem exists_answers_readLevels {versioned : Bool} {paths : List Path}
    (h : ∀ path ∈ paths, ∃ names, LeadsOnly disk path names ∧ disk.Ruleless versioned names) :
    ∃ levels, Answers disk (fileSystem.readLevels versioned paths) (levels, []) ∧
      ∀ level ∈ levels, level.Silent := by
  induction paths with
  | nil => exact ⟨[], .pure .., by simp⟩
  | cons path paths ih =>
    obtain ⟨⟨names, hnames, hruleless⟩, hpaths⟩ := List.forall_mem_cons.mp h
    obtain ⟨level, hlevel, hsilent⟩ := exists_answers_readLevel hnames hruleless
    obtain ⟨levels, hlevels, hall⟩ := ih hpaths
    exact ⟨level :: levels, hlevel.bind (hlevels.bind (.pure ..)),
      List.forall_mem_cons.mpr ⟨hsilent, hall⟩⟩

/-- A directory that a walk starts from: no directory at, above or below it gives rules. -/
structure Walkable (disk : Disk) (versioned : Bool) (root : Path) (dir : List String) : Prop
    extends Open disk versioned root dir where
  entered : Entered disk root dir
  above : ∀ front, front <+: dir → disk.Ruleless versioned front

/-- A walk finds the files below its root that lie in no skipped directory. -/
theorem answers_walk (hdisk : disk.IsTree) {versioned : Bool} {root : Path}
    (h : Walkable disk versioned root dir) :
    Answers disk (fileSystem.walk versioned root).run
      (.ok ((disk.filesIn FileSystem.longestPath dir).map root.descend)) := by
  have hdir := hdisk.isName_of_kind? (kind?_of_resolve hdisk h.entered.resolved)
  have hreal : Answers disk (fileSystem.realPath root) (some (pathOf dir)) := by
    show Answers disk (pure ((spelled root (disk.resolve root)).toOption.map _)) _
    rw [h.entered.spelled_eq, h.entered.resolved]
    exact .pure ..
  have habove : ∀ path ∈ ((pathOf dir).withAncestors.drop 1).reverse,
      ∃ names, LeadsOnly disk path names ∧ disk.Ruleless versioned names := by
    intro path hpath
    obtain ⟨front, hfront, rfl⟩ := Path.exists_prefix_of_mem_withAncestors hdir
      (List.drop_subset 1 _ (List.mem_reverse.mp hpath))
    exact ⟨front, leadsOnly_pathOf disk fun name hname => hdir name (hfront.subset hname),
      h.above front hfront⟩
  obtain ⟨outer, houter, hsilent⟩ := exists_answers_readLevels habove
  obtain ⟨level, hlevel, hown⟩ := exists_answers_readLevel h.entered.leadsOnly
    (h.above dir List.prefix_rfl)
  refine hreal.lift.ok_bind (houter.lift.ok_bind (hlevel.lift.ok_bind ?_))
  refine answers_filesBelow hdisk (fun level hlevel => hsilent level (List.mem_reverse.mp hlevel))
    (List.forall_mem_singleton.mpr hown) h.entered h.toOpen ?_
  show Disk.longestPath < root.text.utf8ByteSize + (Disk.longestPath + 1)
  omega

end RouteScaffold.Disk
