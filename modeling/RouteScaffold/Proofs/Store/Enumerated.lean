import RouteScaffold.Proofs.FileSystem.Walked
import RouteScaffold.Proofs.Store.Files

/-! Enumerating on a disk and in memory.

One store descends from the root and enters no skipped directory, the other takes the root off every
path it holds and looks at the names that are left. On the same files both find the same paths
(`glob_alike`), where nothing on the disk hides files and the root is spelled so that its components
lead to it. -/
namespace RouteScaffold.Disk
open Store

variable {disk : Disk} {root : Path} {dir : List String} {versioned : Bool}
  {pattern : Glob.Pattern}

/-! ### On the disk -/

theorem length_le_size_descend {names : List String} (h : ∀ name ∈ names, Path.IsName name)
    (base : Path) : names.length ≤ (base.descend names).text.utf8ByteSize := by
  suffices hsize : base.text.utf8ByteSize + names.length ≤
      (base.descend names).text.utf8ByteSize by omega
  induction names generalizing base with
  | nil => exact Nat.le_refl _
  | cons name names ih =>
    obtain ⟨hname, hnames⟩ := List.forall_mem_cons.mp h
    have hjoin := size_lt_join base hname
    have hrest := ih hnames (base.join ⟨name⟩)
    show _ ≤ ((base.join ⟨name⟩).descend names).text.utf8ByteSize
    rw [List.length_cons]
    omega

theorem isName_of_shown (hdisk : disk.IsTree) {rel : List String} (h : disk.Shown dir rel) :
    ∀ name ∈ rel, Path.IsName name := fun name hname =>
  hdisk.isName_of_kind? h.file name (List.mem_append_right _ hname)

/-- No file lies deeper than a walk goes. -/
theorem length_le_of_shown (hdisk : disk.IsTree) (hopen : Open disk versioned root dir)
    {rel : List String} (h : disk.Shown dir rel) : rel.length ≤ FileSystem.longestPath := by
  obtain ⟨front, last, rfl⟩ := (List.eq_nil_or_concat rel).resolve_left h.below
  rw [List.concat_eq_append] at h ⊢
  have hfile := h.file
  rw [← List.append_assoc] at hfile
  have hnames := fun name hname => isName_of_shown hdisk h name (List.mem_append_left _ hname)
  have hdeep := length_le_size_descend hnames root
  have hfits := hopen.fits front (hdisk.kind?_above (List.cons_ne_nil _ _) hfile)
    fun name hname => h.unskipped name (List.mem_append_left _ hname)
  have hbound : FileSystem.longestPath = Disk.longestPath + 1 := rfl
  rw [List.length_append, List.length_singleton]
  omega

theorem mem_filesIn_iff_shown (hdisk : disk.IsTree) (hopen : Open disk versioned root dir)
    {rel : List String} :
    rel ∈ disk.filesIn FileSystem.longestPath dir ↔ disk.Shown dir rel := by
  rw [mem_filesIn hdisk]
  exact and_iff_left_of_imp (length_le_of_shown hdisk hopen)

theorem answers_isDir (h : Entered disk root dir) :
    Answers disk (fileSystem.isDir root) true := by
  refine (answers_kindAt disk root).bind ?_
  rw [kindAt?, h.spelled_eq, h.resolved]
  exact .pure ..

/-- The paths that an enumeration of a directory finds on a disk. -/
def matching (disk : Disk) (dir : List String) (pattern : Glob.Pattern) : List Path :=
  ((disk.filesIn FileSystem.longestPath dir).map Path.ofNames).filter pattern.matchesPath

theorem mem_matching_iff (hdisk : disk.IsTree) (hopen : Open disk versioned root dir)
    {path : Path} : path ∈ disk.matching dir pattern ↔
      ∃ rel, disk.Shown dir rel ∧ Path.ofNames rel = path ∧ pattern.matchesPath path = true := by
  rw [matching, List.mem_filter, List.mem_map]
  constructor
  · rintro ⟨⟨rel, hrel, rfl⟩, hmatches⟩
    exact ⟨rel, (mem_filesIn_iff_shown hdisk hopen).mp hrel, rfl, hmatches⟩
  · rintro ⟨rel, hshown, rfl, hmatches⟩
    exact ⟨⟨rel, (mem_filesIn_iff_shown hdisk hopen).mpr hshown, rfl⟩, hmatches⟩

/-- No path is found twice, since different names make different paths. -/
theorem nodup_matching (hdisk : disk.IsTree) (hopen : Open disk versioned root dir) :
    (disk.matching dir pattern).Nodup := by
  have hnames {rel : List String} (hrel : rel ∈ disk.filesIn FileSystem.longestPath dir) :
      (Path.ofNames rel).components = rel.map .normal :=
    Path.components_ofNames (isName_of_shown hdisk ((mem_filesIn_iff_shown hdisk hopen).mp hrel))
  refine ((nodup_filesIn hdisk _ dir).map_on fun a ha b hb heq => ?_).filter _
  have hcomponents := congrArg Path.components heq
  rw [hnames ha, hnames hb] at hcomponents
  exact List.map_injective_iff.mpr (fun _ _ => Path.Component.normal.inj) hcomponents

/-- What an enumeration of a disk finds. -/
theorem answers_glob (hdisk : disk.IsTree) (h : Walkable disk versioned root dir)
    (hinput : root.same ⟨"-"⟩ = false) {text : String}
    (hpattern : Store.pattern text = .ok pattern) :
    Answers disk ((fileSystem.store versioned).glob root text)
      (.ok (disk.matching dir pattern)) := by
  have hread : Answers disk (ExceptT.mk (pure (Store.pattern text))).run (.ok pattern) := by
    rw [hpattern]
    exact .pure ..
  have hleft : ((disk.filesIn FileSystem.longestPath dir).map root.descend).map
      (fun path => (path.stripBase? root).getD path) =
        (disk.filesIn FileSystem.longestPath dir).map Path.ofNames := by
    rw [List.map_map]
    refine List.map_congr_left fun rel hrel => ?_
    have hshown := (mem_filesIn_iff_shown hdisk h.toOpen).mp hrel
    rw [Function.comp_apply, Path.stripBase?_descend h.entered.leadsOnly.nonempty hshown.below
      (isName_of_shown hdisk hshown), Option.getD_some]
  refine (answers_isDir h.entered).lift.ok_bind (hread.ok_bind ?_)
  rw [hinput]
  refine (answers_walk hdisk h).ok_bind ?_
  rw [hleft]
  exact .pure ..

theorem answers_glob_error (h : Entered disk root dir) {text : String} {fault : Fault}
    (hpattern : Store.pattern text = .error fault) :
    Answers disk ((fileSystem.store versioned).glob root text) (.error fault) := by
  refine (answers_isDir h).lift.ok_bind ?_
  rw [hpattern]
  exact .pure ..

end RouteScaffold.Disk

namespace RouteScaffold.Store
open Disk

variable {disk : Disk} {s : Memory} {root : Path} {dir : List String} {pattern : Glob.Pattern}

/-! ### The same files -/

/-- Below a directory a memory state holds the files that lie on a disk, and its working directory
is that of the disk. -/
structure Memory.Holds (s : Memory) (disk : Disk) (dir : List String) : Prop where
  workingDir : s.workingDir = pathOf disk.workingDir
  ordered : s.Ordered
  held : ∀ rel, disk.kind? (dir ++ rel) = some .file →
    ∃ file ∈ s.files, file.1.same (pathOf (dir ++ rel)) = true
  only : ∀ file ∈ s.files, file.1.startsWith (pathOf dir) = true →
    ∃ rel, disk.kind? (dir ++ rel) = some .file ∧ file.1.same (pathOf (dir ++ rel)) = true

/-- The files that a memory state holds for those on a disk are spelled by their names. -/
structure Memory.Mirrors (s : Memory) (disk : Disk) (dir : List String) : Prop
    extends Memory.Holds s disk dir where
  plain : ∀ file ∈ s.files, file.1.startsWith (pathOf dir) = true →
    ∃ names, (∀ name ∈ names, Path.IsName name) ∧ file.1 = pathOf names

/-- An enumeration of a disk and one in memory give the same: both fail with the fault of a text
that is no pattern, or both find the same paths, each once. Neither changes what it looks at. -/
def EnumeratedAlike (disk : Disk) (s : Memory) (versioned : Bool) (root : Path) (text : String) :
    Prop :=
  match Store.pattern text with
  | .error fault =>
    ((fileSystem.store versioned).glob root text).run disk = (.error fault, disk) ∧
      (memory.glob root text).run s = (.error fault, s)
  | .ok _ => ∃ found found',
    ((fileSystem.store versioned).glob root text).run disk = (.ok found, disk) ∧
      (memory.glob root text).run s = (.ok found', s) ∧ found.Nodup ∧ found.Perm found'

/-! ### In memory -/

/-- A file on the disk that a memory state mirrors is held under the path of its names. -/
theorem Memory.Mirrors.eq_pathOf (hs : s.Mirrors disk dir) {file : Path × String}
    (hfile : file ∈ s.files) {names : List String} (hnames : ∀ name ∈ names, Path.IsName name)
    (hstart : file.1.startsWith (pathOf dir) = true) (hsame : file.1.same (pathOf names) = true) :
    file.1 = pathOf names := by
  obtain ⟨names', hnames', hplain⟩ := hs.plain file hfile hstart
  rw [hplain] at hsame ⊢
  rw [Path.pathOf_injective hnames' hnames (Path.same_iff.mp hsame)]

theorem inSkippedDir_ofNames {names : List String} (h : ∀ name ∈ names, Path.IsName name) :
    inSkippedDir (Path.ofNames names) = false ↔ ∀ name ∈ names, name ∉ skippedDirs := by
  have hnames : (Path.ofNames names).names = names := by
    rw [Path.names, Path.components_ofNames h, List.filterMap_map]
    exact List.filterMap_some
  rw [inSkippedDir_eq_false_iff, hnames]

/-- What an enumeration in memory finds. -/
theorem Memory.Mirrors.mem_matching_iff (hs : s.Mirrors disk dir) (hdisk : disk.IsTree)
    (hdir : disk.kind? dir = some .dir)
    (hroot : (s.resolve root).components = .root :: dir.map .normal) {path : Path} :
    path ∈ s.matching root pattern ↔
      ∃ rel, disk.Shown dir rel ∧ Path.ofNames rel = path ∧ pattern.matchesPath path = true := by
  have hnames := hdisk.isName_of_kind? hdir
  have hbase : (s.resolve root).components = (pathOf dir).components := by
    rw [hroot, Path.components_pathOf hnames]
  have hstrip {rel : List String} (hfile : disk.kind? (dir ++ rel) = some .file) :
      rel ≠ [] ∧ (∀ name ∈ rel, Path.IsName name) ∧
        (pathOf (dir ++ rel)).stripBase? (s.resolve root) = some (Path.ofNames rel) := by
    have hbelow : rel ≠ [] := by
      rintro rfl
      rw [List.append_nil, hdir] at hfile
      cases hfile
    have hrel := fun name hname =>
      hdisk.isName_of_kind? hfile name (List.mem_append_right _ hname)
    exact ⟨hbelow, hrel, Path.stripBase?_pathOf hnames hrel hbelow hbase⟩
  rw [Memory.matching, List.mem_filter, List.mem_filterMap, Bool.and_eq_true, Bool.not_eq_true']
  constructor
  · rintro ⟨⟨file, hmem, hfound⟩, hskipped, hmatches⟩
    have hstart : file.1.startsWith (pathOf dir) = true := by
      rw [Path.startsWith, List.isPrefixOf_iff_prefix, ← hbase,
        Path.components_of_stripBase? hfound]
      exact List.prefix_append ..
    obtain ⟨rel, hfile, hsame⟩ := hs.only file hmem hstart
    obtain ⟨hbelow, hrel, hleft⟩ := hstrip hfile
    rw [hs.eq_pathOf hmem (List.forall_mem_append.mpr ⟨hnames, hrel⟩) hstart hsame, hleft] at hfound
    obtain rfl := Option.some.inj hfound
    exact ⟨rel, ⟨hfile, hbelow, (inSkippedDir_ofNames hrel).mp hskipped⟩, rfl, hmatches⟩
  · rintro ⟨rel, hshown, rfl, hmatches⟩
    obtain ⟨hbelow, hrel, hleft⟩ := hstrip hshown.file
    obtain ⟨file, hmem, hsame⟩ := hs.held rel hshown.file
    have hstart : file.1.startsWith (pathOf dir) = true := by
      rw [Path.startsWith, Path.same_iff.mp hsame]
      exact Path.startsWith_pathOf hnames hrel
    refine ⟨⟨file, hmem, ?_⟩, (inSkippedDir_ofNames hrel).mpr hshown.unskipped, hmatches⟩
    rw [hs.eq_pathOf hmem (List.forall_mem_append.mpr ⟨hnames, hrel⟩) hstart hsame, hleft]

theorem Memory.Ordered.nodup_matching (h : s.Ordered) : (s.matching root pattern).Nodup := by
  refine (Memory.ordered_matching h root pattern).imp fun {p q} hlt heq => ?_
  rw [heq, Path.compare_eq_iff.mpr rfl] at hlt
  cases hlt

/-! ### Alike -/

/-- **The stores enumerate alike.** In a tree where no directory gives rules, an existing directory
is enumerated on the disk, rules of version control respected or not, and in the memory state that
holds its files: both fail with the fault of a text that is no pattern, or both find the same paths,
each once. Neither changes what it looks at. The root is spelled without two dots, and is not the
name that stands for the standard input. -/
theorem glob_alike (versioned : Bool) (text : String) (hdisk : disk.IsTree)
    (hroot : Walkable disk versioned root dir) (hplain : .parent ∉ root.components)
    (hinput : root.same ⟨"-"⟩ = false) (hs : s.Mirrors disk dir) :
    EnumeratedAlike disk s versioned root text := by
  have hmemory : (memory.glob root text).run s =
      ((Store.pattern text).map (s.matching root), s) := rfl
  unfold EnumeratedAlike
  cases hpattern : Store.pattern text with
  | error fault =>
    rw [hmemory, hpattern]
    exact ⟨answers_glob_error hroot.entered hpattern, rfl⟩
  | ok pattern =>
    rw [hmemory, hpattern]
    have hfound := kind?_of_resolve hdisk hroot.entered.resolved
    have hresolve : (s.resolve root).components = .root :: dir.map .normal := by
      rw [Memory.resolve, hs.workingDir]
      exact components_of_resolve (hdisk.isName_of_kind? hdisk.workingDir)
        hroot.entered.resolved hplain
    have hnodup : (disk.matching dir pattern).Nodup := nodup_matching hdisk hroot.toOpen
    refine ⟨_, _, answers_glob hdisk hroot hinput hpattern, rfl, hnodup, ?_⟩
    refine (List.perm_ext_iff_of_nodup hnodup hs.ordered.nodup_matching).mpr fun path => ?_
    rw [mem_matching_iff hdisk hroot.toOpen, hs.mem_matching_iff hdisk hfound hresolve]

/-- A memory state with the paths of all files on a disk holds those below any directory. -/
theorem Memory.Holds.of_entries (hdisk : disk.IsTree) (hdir : ∀ name ∈ dir, Path.IsName name)
    (hworkingDir : s.workingDir = pathOf disk.workingDir) (hordered : s.Ordered)
    (hheld : ∀ entry ∈ disk.entries, entry.2.kind = .file →
      ∃ file ∈ s.files, file.1.same (pathOf entry.1) = true)
    (honly : ∀ file ∈ s.files, ∃ entry ∈ disk.entries, entry.2.kind = .file ∧
      file.1.same (pathOf entry.1) = true) : s.Holds disk dir := by
  refine ⟨hworkingDir, hordered, fun rel hfile => ?_, fun file hmem hstart => ?_⟩
  · have hroot : disk.kind? [] = some .dir := rfl
    have hne : dir ++ rel ≠ [] := fun hnil => by
      rw [hnil, hroot] at hfile
      cases hfile
    obtain ⟨node, hentry, hkind⟩ := exists_entry hdisk hne hfile
    exact hheld (dir ++ rel, node) hentry hkind
  · obtain ⟨⟨names, node⟩, hentry, hkind, hsame⟩ := honly file hmem
    have hnames := fun name hname => (hdisk.nameable _ hentry name hname).isName
    rw [Path.startsWith, List.isPrefixOf_iff_prefix, Path.same_iff.mp hsame,
      Path.components_pathOf hnames, Path.components_pathOf hdir, List.prefix_cons_inj] at hstart
    obtain ⟨rest, hrest⟩ := hstart
    obtain ⟨front, rel, rfl, hfront, -⟩ := List.map_eq_append_iff.mp hrest.symm
    obtain rfl := List.map_injective_iff.mpr (fun _ _ => Path.Component.normal.inj) hfront
    refine ⟨rel, ?_, hsame⟩
    rw [kind?, (node?_eq_some_iff hdisk (hdisk.placed _ hentry).1).mpr hentry]
    exact congrArg some hkind

/-- A project below a directory with the name of a skipped one. A file has such a name as well, and
a directory in which another descriptor file lies. -/
theorem glob_alike_project :
    let entries : List (List String × Node) := [(["node_modules"], .dir),
      (["node_modules", "shop"], .dir), (["node_modules", "shop", "app"], .dir),
      (["node_modules", "shop", "app", ".next"], .file ⟨#[]⟩),
      (["node_modules", "shop", "app", "node_modules"], .dir),
      (["node_modules", "shop", "app", "node_modules", "route.get.config.ts"], .file ⟨#[]⟩),
      (["node_modules", "shop", "app", "route.get.config.ts"], .file ⟨#[]⟩)]
    let disk : Disk := { workingDir := ["node_modules", "shop"], entries }
    let s : Memory := {
      workingDir := ⟨"/node_modules/shop"⟩
      files := [(⟨"/node_modules/shop/app/.next"⟩, ""),
        (⟨"/node_modules/shop/app/node_modules/route.get.config.ts"⟩, ""),
        (⟨"/node_modules/shop/app/route.get.config.ts"⟩, "")] }
    let root : Path := ⟨"./app/"⟩
    let dir := ["node_modules", "shop", "app"]
    let text := "**/route.*.config.*"
    (disk.IsTree ∧ Walkable disk true root dir ∧ .parent ∉ root.components ∧
      root.same ⟨"-"⟩ = false ∧ s.Mirrors disk dir) ∧
    EnumeratedAlike disk s true root text ∧
    (((fileSystem.store true).glob root text).run disk).1 = .ok [⟨"route.get.config.ts"⟩] := by
  intro entries disk s root dir text
  have hdisk : disk.IsTree := by decide +kernel
  have hdir : ∀ name ∈ dir, Path.IsName name := by decide +kernel
  have hbare := bare_of_entries hdisk (by decide +kernel)
  have hunlinked (names : List String) : disk.Ruleless true names := by
    refine ⟨hbare names, fun _ content hgit => ?_⟩
    have hmem := (node?_eq_some_iff hdisk (by simp)).mp hgit
    have hnone : ∀ entry ∈ disk.entries, ¬[".git"] <:+ entry.1 := by decide +kernel
    exact absurd (List.suffix_append ..) (hnone _ hmem)
  have hroot : Walkable disk true root dir :=
    { ruleless := fun rel => hunlinked _
      fits := fun rel hrel _ => fits_of_entries hdisk (by decide +kernel) (by decide +kernel) hrel
      entered := .of_kind (by decide +kernel) (by decide +kernel)
      above := fun front _ => hunlinked front }
  have hplain : .parent ∉ root.components := by decide +kernel
  have hinput : root.same ⟨"-"⟩ = false := by decide +kernel
  have hspelled : ∀ file ∈ s.files, ∃ names, (∀ name ∈ names, Path.IsName name) ∧
      file.1 = pathOf names := by
    have hentry : ∀ file ∈ s.files, ∃ entry ∈ disk.entries, file.1 = pathOf entry.1 := by
      decide +kernel
    intro file hfile
    obtain ⟨entry, hmem, hpath⟩ := hentry file hfile
    exact ⟨entry.1, fun name hname => (hdisk.nameable _ hmem name hname).isName, hpath⟩
  have hs : s.Mirrors disk dir :=
    { toHolds := .of_entries hdisk hdir (by decide +kernel)
        (by unfold Memory.Ordered; decide +kernel) (by decide +kernel) (by decide +kernel)
      plain := fun file hfile _ => hspelled file hfile }
  exact ⟨⟨hdisk, hroot, hplain, hinput, hs⟩, glob_alike true text hdisk hroot hplain hinput hs,
    by decide +kernel⟩

/-! ### Not alike -/

/-- A tree without ignore files is enumerated in another way in a memory state that holds its
files. -/
structure Unalike (disk : Disk) (s : Memory) (root : Path) (dir : List String) : Prop where
  tree : disk.IsTree
  entered : Entered disk root dir
  bare : ∀ names, disk.Bare names
  holds : s.Holds disk dir
  differ : ∃ versioned text, ¬EnumeratedAlike disk s versioned root text

theorem not_enumeratedAlike {versioned : Bool} {text : String} {found found' : List Path}
    (hdisk : (((fileSystem.store versioned).glob root text).run disk).1 = .ok found)
    (hmemory : ((memory.glob root text).run s).1 = .ok found')
    (hne : found.length ≠ found'.length) :
    ¬EnumeratedAlike disk s versioned root text := by
  intro h
  unfold EnumeratedAlike at h
  split at h
  · rw [h.1] at hdisk
    cases hdisk
  · obtain ⟨paths, paths', hpaths, hpaths', -, hperm⟩ := h
    rw [hpaths] at hdisk
    rw [hpaths'] at hmemory
    obtain rfl := Except.ok.inj hdisk
    obtain rfl := Except.ok.inj hmemory
    exact hne hperm.length_eq

theorem Unalike.of_entries (text : String) (found found' : List Path)
    (htree : disk.IsTree ∧ ∀ entry ∈ disk.entries, ∀ file ∈ ruleFiles, ¬file <:+ entry.1)
    (hroot : '\x00' ∉ root.text.toList ∧
      ((disk.resolve root).toOption.map fun found => (found.1, found.2.kind)) = some (dir, .dir))
    (hfiles : s.workingDir = pathOf disk.workingDir ∧
      s.files.Pairwise (fun a b => a.1.compare b.1 = .lt) ∧
      (∀ entry ∈ disk.entries, entry.2.kind = .file →
        ∃ file ∈ s.files, file.1.same (pathOf entry.1) = true) ∧
      ∀ file ∈ s.files, ∃ entry ∈ disk.entries, entry.2.kind = .file ∧
        file.1.same (pathOf entry.1) = true)
    (hfound : (((fileSystem.store true).glob root text).run disk).1 = .ok found ∧
      ((memory.glob root text).run s).1 = .ok found' ∧ found.length ≠ found'.length) :
    Unalike disk s root dir := by
  obtain ⟨hdisk, hbare⟩ := htree
  have hentered := Entered.of_kind hroot.1 hroot.2
  obtain ⟨hworkingDir, hordered, hheld, honly⟩ := hfiles
  obtain ⟨hfound, hfound', hne⟩ := hfound
  exact
    { tree := hdisk
      entered := hentered
      bare := bare_of_entries hdisk hbare
      holds := .of_entries hdisk
        (hdisk.isName_of_kind? (kind?_of_resolve hdisk hentered.resolved)) hworkingDir hordered
        hheld honly
      differ := ⟨true, text, not_enumeratedAlike hfound hfound' hne⟩ }

/-- The stores differ where the root is spelled with two dots, where it is the name that stands for
the standard input, where the root is a working copy that shares the rules of another one, and where
the memory state holds a file under a path with an idle slash. -/
theorem unalike_projects :
    let project (entries : List (List String × Node)) : Disk :=
      { workingDir := ["work"], entries := (["work"], .dir) :: entries }
    let holding (paths : List String) : Memory :=
      { workingDir := ⟨"/work"⟩, files := paths.map fun path => (⟨path⟩, "") }
    let app := project [(["work", "app"], .dir),
      (["work", "app", "route.get.config.ts"], .file ⟨#[]⟩)]
    let input := project [(["work", "-"], .dir),
      (["work", "-", "route.get.config.ts"], .file ⟨#[]⟩)]
    let linked := project [(["work", ".git"], .file "gitdir: repo\n".toUTF8),
      (["work", "repo"], .dir), (["work", "repo", "commondir"], .file ".\n".toUTF8),
      (["work", "repo", "info"], .dir),
      (["work", "repo", "info", "exclude"], .file "route.*\n".toUTF8),
      (["work", "route.get.config.ts"], .file ⟨#[]⟩)]
    Unalike app (holding ["/work/app/route.get.config.ts"]) ⟨"app/.."⟩ ["work"] ∧
      Unalike input (holding ["/work/-/route.get.config.ts"]) ⟨"-"⟩ ["work", "-"] ∧
      Unalike linked (holding ["/work/.git", "/work/repo/commondir", "/work/repo/info/exclude",
        "/work/route.get.config.ts"]) ⟨"."⟩ ["work"] ∧
      Unalike app (holding ["/work/app//route.get.config.ts"]) ⟨"."⟩ ["work"] := by
  intro project holding app input linked
  have hdots : Unalike app (holding ["/work/app/route.get.config.ts"]) ⟨"app/.."⟩ ["work"] :=
    .of_entries "**/route.*.config.*" [⟨"app/route.get.config.ts"⟩] []
      (by decide +kernel) (by decide +kernel) (by decide +kernel) (by decide +kernel)
  have hinput : Unalike input (holding ["/work/-/route.get.config.ts"]) ⟨"-"⟩ ["work", "-"] :=
    .of_entries "**/route.*.config.*" [] [⟨"route.get.config.ts"⟩]
      (by decide +kernel) (by decide +kernel) (by decide +kernel) (by decide +kernel)
  have hspelled : Unalike app (holding ["/work/app//route.get.config.ts"]) ⟨"."⟩ ["work"] :=
    .of_entries "app/*" [⟨"app/route.get.config.ts"⟩] []
      (by decide +kernel) (by decide +kernel) (by decide +kernel) (by decide +kernel)
  refine ⟨hdots, hinput, ?_, hspelled⟩
  exact .of_entries "**/route.*.config.*" [] [⟨"route.get.config.ts"⟩]
    (by decide +kernel) (by decide +kernel) (by decide +kernel) (by decide +kernel)

end RouteScaffold.Store
