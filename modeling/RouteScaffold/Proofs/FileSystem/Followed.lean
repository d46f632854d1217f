import RouteScaffold.Proofs.FileSystem.Tree

/-! Following paths on a disk.

A name behind a path is looked up in what the path leads to (`resolve_join`). So a path that is put
together of names leads to these names or nowhere (`LeadsOnly`), and a directory that a path without
two dots leads to has the components of the path, taken from the working directory
(`components_of_resolve`). -/
namespace RouteScaffold.Disk
open Store Text

variable {disk : Disk} {path : Path} {names : List String} {name : String}

/-! ### Part by part -/

/-- What lies at a place, with the names that lead there. -/
def reach (disk : Disk) : Place → Except Refusal (List String × Node)
  | .dir names => .ok (names, .dir)
  | .entry dir name slash =>
    match disk.enter dir name with
    | .error refusal => .error refusal
    | .ok (.file content) =>
      if slash then .error .notDirectory else .ok (dir ++ [name], .file content)
    | .ok .dir => .ok (dir ++ [name], .dir)

theorem resolve_eq (disk : Disk) (path : Path) :
    disk.resolve path = (disk.locate path).bind disk.reach := by
  rw [resolve]
  cases disk.locate path with
  | error refusal => rfl
  | ok place =>
    cases place with
    | dir names => rfl
    | entry dir name slash =>
      show (disk.enter dir name >>= _) = disk.reach (.entry dir name slash)
      rw [reach]
      cases disk.enter dir name with
      | error refusal => rfl
      | ok node => cases node <;> cases slash <;> rfl

/-- What a name stands for in what lies at a place. -/
def under (disk : Disk) (name : String) : List String × Node → Except Refusal (List String × Node)
  | (_, .file _) => .error .notDirectory
  | (dir, .dir) => (disk.enter dir name).map fun node => (dir ++ [name], node)

/-- A name behind some parts is looked up in what they lead to. -/
theorem reach_follow_concat (h : Path.IsName name) (slash : Bool) (start parts : List String) :
    (disk.follow false start (parts ++ [name])).bind disk.reach =
      ((disk.follow slash start parts).bind disk.reach).bind (disk.under name) := by
  induction parts generalizing start with
  | nil =>
    have hdot : name ≠ "." := by
      rintro rfl
      exact absurd h.counts (by decide)
    have hplace : disk.follow false start [name] = .ok (.entry start name false) := by
      simp [follow, hdot, h.notParent]
    rw [List.nil_append, hplace]
    show disk.reach (.entry start name false) = disk.under name (start, .dir)
    rw [reach, under]
    cases disk.enter start name with
    | error refusal => rfl
    | ok node => cases node <;> rfl
  | cons part rest ih =>
    rw [List.cons_append, follow, follow]
    by_cases hdot : part == "."
    · rw [if_pos hdot, if_pos hdot, ih]
    by_cases hdots : part == ".."
    · rw [if_neg hdot, if_pos hdots, if_neg hdot, if_pos hdots, ih]
    rw [if_neg hdot, if_neg hdots, if_neg (by simp), if_neg hdot, if_neg hdots]
    by_cases hrest : rest.isEmpty
    · -- The last part may be a file, which neither a slash nor a name can follow.
      obtain rfl := List.isEmpty_iff.mp hrest
      rw [if_pos hrest]
      show _ = (disk.reach (.entry start part slash)).bind _
      rw [reach]
      cases disk.enter start part with
      | error refusal => rfl
      | ok node =>
        cases node with
        | file content => cases slash <;> rfl
        | dir => exact ih (start ++ [part])
    · rw [if_neg hrest]
      cases disk.enter start part with
      | error refusal => rfl
      | ok node =>
        cases node with
        | file content => rfl
        | dir => exact ih (start ++ [part])

/-- What the first part that is followed does: a dot nothing, two dots go up, and a name is looked
up, which must lead to a directory unless it is the last part. -/
theorem reach_follow_cons {slash : Bool} {start rest : List String} {part : String}
    {found : List String × Node}
    (h : (disk.follow slash start (part :: rest)).bind disk.reach = .ok found) :
    (part = "." ∧ (disk.follow slash start rest).bind disk.reach = .ok found) ∨
      (part = ".." ∧ (disk.follow slash start.dropLast rest).bind disk.reach = .ok found) ∨
      (part ≠ "." ∧ part ≠ ".." ∧
        (rest = [] ∧ found.1 = start ++ [part] ∧ disk.enter start part = .ok found.2 ∨
          disk.enter start part = .ok .dir ∧
            (disk.follow slash (start ++ [part]) rest).bind disk.reach = .ok found)) := by
  rw [follow] at h
  split at h
  next hdot => exact .inl ⟨by simpa using hdot, h⟩
  next hdot =>
    split at h
    next hdots => exact .inr (.inl ⟨by simpa using hdots, h⟩)
    next hdots =>
      refine .inr (.inr ⟨by simpa using hdot, by simpa using hdots, ?_⟩)
      split at h
      next hlast =>
        change disk.reach (.entry start part slash) = _ at h
        rw [reach] at h
        refine .inl ⟨List.isEmpty_iff.mp hlast, ?_⟩
        split at h
        next => cases h
        next henter =>
          split at h
          · cases h
          · rw [← Except.ok.inj h]
            exact ⟨rfl, henter⟩
        next henter =>
          rw [← Except.ok.inj h]
          exact ⟨rfl, henter⟩
      next =>
        split at h
        next => cases h
        next => cases h
        next henter => exact .inr ⟨henter, h⟩

/-! ### A name behind a path -/

/-- The parts between the slashes that are followed. -/
def partsOf (sections : List (List Char)) : List String :=
  (sections.filter (!·.isEmpty)).map String.ofList

theorem locate_eq (disk : Disk) (hne : path.text ≠ "")
    (hfits : path.text.utf8ByteSize ≤ longestPath) :
    disk.locate path = disk.follow (path.sections.getLast? == some [])
      (if path.isAbsolute then [] else disk.workingDir) (partsOf path.sections) := by
  rw [locate, if_neg (by simpa using hne), if_neg (by omega)]
  rfl

theorem fits_of_resolve {found : List String × Node} (h : disk.resolve path = .ok found) :
    path.text ≠ "" ∧ path.text.utf8ByteSize ≤ longestPath := by
  rw [resolve_eq, locate] at h
  by_cases hne : path.text = ""
  · rw [if_pos (by simpa using hne)] at h
    cases h
  by_cases hfits : path.text.utf8ByteSize > longestPath
  · rw [if_neg (by simpa using hne), if_pos hfits] at h
    cases h
  exact ⟨hne, by omega⟩

theorem partsOf_join (hne : path.text ≠ "") (h : Path.IsName name) :
    partsOf (path.join ⟨name⟩).sections = partsOf path.sections ++ [name] := by
  have hopen : path.openSections.filter (!·.isEmpty) = path.sections.filter (!·.isEmpty) := by
    rw [Path.openSections]
    split
    next hlast =>
      obtain ⟨front, hfront⟩ := List.getLast?_eq_some_iff.mp hlast
      rw [hfront, List.dropLast_concat, List.filter_append]
      simp
    next => rfl
  rw [partsOf, Path.sections_join_eq hne h.not_isAbsolute, h.sections, List.filter_append, hopen,
    List.map_append, partsOf]
  simp [h.toList_ne_nil]

theorem size_lt_join (path : Path) (h : Path.IsName name) :
    path.text.utf8ByteSize < (path.join ⟨name⟩).text.utf8ByteSize := by
  have hpos : name.utf8ByteSize ≠ 0 := by
    rw [ne_eq, String.utf8ByteSize_eq_zero_iff]
    rintro rfl
    exact h.toList_ne_nil rfl
  rw [Path.join, if_neg (by simp [h.not_isAbsolute])]
  split <;> simp only [String.utf8ByteSize_append] <;> omega

/-- A name behind a path is looked up in what the path leads to. -/
theorem resolve_join (hne : path.text ≠ "") (h : Path.IsName name)
    (hfits : (path.join ⟨name⟩).text.utf8ByteSize ≤ longestPath) :
    disk.resolve (path.join ⟨name⟩) = (disk.resolve path).bind (disk.under name) := by
  have hsize := size_lt_join path h
  have hlead : (path.join ⟨name⟩).isAbsolute = path.isAbsolute := by
    rw [Path.isAbsolute_eq, Path.isAbsolute_eq, (Path.sections_join hne h.not_isAbsolute).1]
  have hslash : ((path.join ⟨name⟩).sections.getLast? == some []) = false := by
    rw [Path.sections_join_eq hne h.not_isAbsolute, h.sections, List.getLast?_concat]
    simp [h.toList_ne_nil]
  rw [resolve_eq, resolve_eq, locate_eq disk (Path.text_join_ne_empty path h) hfits,
    locate_eq disk hne (by omega), hlead, hslash, partsOf_join hne h, reach_follow_concat h]

/-! ### Where a path can lead -/

/-- A path leads to some names, if it leads anywhere. -/
structure LeadsOnly (disk : Disk) (path : Path) (names : List String) : Prop where
  nonempty : path.text ≠ ""
  only : ∀ found, disk.resolve path = .ok found → found.1 = names

theorem LeadsOnly.of_resolve {found : List String × Node} (h : disk.resolve path = .ok found) :
    LeadsOnly disk path found.1 :=
  ⟨(fits_of_resolve h).1, fun _ hfound => by rw [Except.ok.inj (hfound.symm.trans h)]⟩

theorem LeadsOnly.join (hpath : LeadsOnly disk path names) (h : Path.IsName name) :
    LeadsOnly disk (path.join ⟨name⟩) (names ++ [name]) := by
  refine ⟨Path.text_join_ne_empty path h, fun found hfound => ?_⟩
  rw [resolve_join hpath.nonempty h (fits_of_resolve hfound).2] at hfound
  cases hdir : disk.resolve path with
  | error refusal =>
    rw [hdir] at hfound
    cases hfound
  | ok place =>
    obtain ⟨dir, node⟩ := place
    obtain rfl : dir = names := hpath.only _ hdir
    rw [hdir] at hfound
    cases node with
    | file content => cases hfound
    | dir =>
      change (disk.enter dir name).map _ = _ at hfound
      cases henter : disk.enter dir name with
      | error refusal =>
        rw [henter] at hfound
        cases hfound
      | ok node =>
        rw [henter] at hfound
        rw [← Except.ok.inj hfound]

theorem LeadsOnly.descend (hpath : LeadsOnly disk path names) {rel : List String}
    (h : ∀ name ∈ rel, Path.IsName name) : LeadsOnly disk (path.descend rel) (names ++ rel) := by
  induction rel generalizing path names with
  | nil => simpa [Path.descend] using hpath
  | cons name rel ih =>
    obtain ⟨hname, hrel⟩ := List.forall_mem_cons.mp h
    have := ih (hpath.join hname) hrel
    rwa [List.append_assoc] at this

/-- The absolute path of some names leads to them, if it leads anywhere. -/
theorem leadsOnly_pathOf (disk : Disk) (h : ∀ name ∈ names, Path.IsName name) :
    LeadsOnly disk (pathOf names) names := by
  have hfound : disk.resolve ⟨"/"⟩ = .ok ([], .dir) := rfl
  rw [Path.pathOf_eq_descend h]
  exact (LeadsOnly.of_resolve hfound).descend h

theorem node?_of_enter {node : Node} (h : disk.enter names name = .ok node) :
    disk.node? (names ++ [name]) = some node := by
  rw [enter] at h
  split at h
  · cases h
  · split at h
    next => cases h
    next found hfound => rw [hfound, Except.ok.inj h]

/-- A file that a path leads to lies at the names. -/
theorem node?_of_resolve {content : ByteArray}
    (h : disk.resolve path = .ok (names, .file content)) :
    disk.node? names = some (.file content) := by
  rw [resolve_eq] at h
  cases hplace : disk.locate path with
  | error refusal =>
    rw [hplace] at h
    cases h
  | ok place =>
    rw [hplace] at h
    change disk.reach place = _ at h
    cases place with
    | dir dir => cases h
    | entry dir name slash =>
      rw [reach] at h
      split at h
      next => cases h
      next content' henter =>
        split at h
        · cases h
        · obtain ⟨rfl, hnode⟩ := Prod.mk.inj (Except.ok.inj h)
          rw [node?_of_enter henter, hnode]
      next => cases h

theorem kind?_of_reach_follow (hdisk : disk.IsTree) {slash : Bool} {start parts : List String}
    (hstart : disk.kind? start = some .dir) {found : List String × Node}
    (h : (disk.follow slash start parts).bind disk.reach = .ok found) :
    disk.kind? found.1 = some found.2.kind := by
  induction parts generalizing start with
  | nil =>
    rw [← Except.ok.inj (show Except.ok (start, Node.dir) = _ from h)]
    exact hstart
  | cons part rest ih =>
    obtain ⟨-, h⟩ | ⟨-, h⟩ | ⟨-, -, ⟨-, hnames, henter⟩ | ⟨henter, h⟩⟩ := reach_follow_cons h
    · exact ih hstart h
    · refine ih ?_ h
      rcases List.eq_nil_or_concat start with rfl | ⟨front, last, rfl⟩
      · exact hstart
      · rw [List.concat_eq_append] at hstart ⊢
        rw [List.dropLast_concat]
        exact hdisk.kind?_above (List.cons_ne_nil _ _) hstart
    · rw [hnames, kind?, node?_of_enter henter, Option.map_some]
    · refine ih ?_ h
      rw [kind?, node?_of_enter henter]
      rfl

/-- What a path leads to lies at the names. -/
theorem kind?_of_resolve (hdisk : disk.IsTree) {found : List String × Node}
    (h : disk.resolve path = .ok found) : disk.kind? found.1 = some found.2.kind := by
  obtain ⟨hne, hfits⟩ := fits_of_resolve h
  rw [resolve_eq, locate_eq disk hne hfits] at h
  refine kind?_of_reach_follow hdisk ?_ h
  split
  · rfl
  · exact hdisk.workingDir

theorem LeadsOnly.node?_of_read (h : LeadsOnly disk path names) {content : ByteArray}
    (hread : disk.read path = .ok content) : disk.node? names = some (.file content) := by
  rw [read] at hread
  cases hfound : disk.resolve path with
  | error refusal =>
    rw [hfound] at hread
    cases hread
  | ok found =>
    rw [hfound] at hread
    obtain ⟨place, node⟩ := found
    obtain rfl : place = names := h.only _ hfound
    cases node with
    | dir => cases hread
    | file content' => rw [node?_of_resolve hfound, Except.ok.inj hread]

/-! ### Refusals -/

theorem ne_isDirectory_of_enter {refusal : Refusal} (h : disk.enter names name = .error refusal) :
    refusal ≠ .isDirectory := by
  rintro rfl
  rw [enter] at h
  split at h
  · cases h
  · split at h <;> cases h

theorem ne_isDirectory_of_follow {slash : Bool} {start parts : List String} {refusal : Refusal}
    (h : disk.follow slash start parts = .error refusal) : refusal ≠ .isDirectory := by
  induction parts generalizing start with
  | nil => cases h
  | cons part rest ih =>
    rw [follow] at h
    split at h
    · exact ih h
    split at h
    · exact ih h
    split at h
    · cases h
    split at h
    next henter => exact Except.error.inj h ▸ ne_isDirectory_of_enter henter
    next =>
      rw [← Except.error.inj h]
      simp
    next => exact ih h

theorem ne_isDirectory_of_reach {place : Place} {refusal : Refusal}
    (h : disk.reach place = .error refusal) : refusal ≠ .isDirectory := by
  cases place with
  | dir names => cases h
  | entry dir name slash =>
    rw [reach] at h
    split at h
    next henter => exact Except.error.inj h ▸ ne_isDirectory_of_enter henter
    next =>
      split at h
      · rw [← Except.error.inj h]
        simp
      · cases h
    next => cases h

/-- To follow a path is never refused because a directory lies there. -/
theorem ne_isDirectory_of_resolve {refusal : Refusal} (h : disk.resolve path = .error refusal) :
    refusal ≠ .isDirectory := by
  rw [resolve_eq] at h
  cases hplace : disk.locate path with
  | ok place =>
    rw [hplace] at h
    exact ne_isDirectory_of_reach h
  | error found =>
    rw [hplace] at h
    obtain rfl : found = refusal := Except.error.inj h
    rw [locate] at hplace
    split at hplace
    · rw [← Except.error.inj hplace]
      simp
    split at hplace
    · rw [← Except.error.inj hplace]
      simp
    · exact ne_isDirectory_of_follow hplace

/-! ### Components -/

/-- Parts without two dots add themselves, but for the single dots. -/
theorem names_of_reach_follow {slash : Bool} {start parts : List String} (hdots : ".." ∉ parts)
    {found : List String × Node} (h : (disk.follow slash start parts).bind disk.reach =
      .ok found) : found.1 = start ++ parts.filter (· != ".") := by
  induction parts generalizing start with
  | nil =>
    rw [← Except.ok.inj (show Except.ok (start, Node.dir) = _ from h)]
    simp
  | cons part rest ih =>
    rw [List.mem_cons, not_or] at hdots
    obtain ⟨rfl, h⟩ | ⟨rfl, -⟩ | ⟨hdot, -, hcases⟩ := reach_follow_cons h
    · rw [ih hdots.2 h, List.filter_cons_of_neg (by decide)]
    · exact absurd rfl hdots.1
    · rw [List.filter_cons_of_pos (by simpa using hdot)]
      rcases hcases with ⟨rfl, hnames, -⟩ | ⟨-, h⟩
      · exact hnames
      · rw [ih hdots.2 h, List.append_assoc, List.singleton_append]

theorem filterMap_of_not_parent {sections : List (List Char)}
    (h : .parent ∉ sections.filterMap Path.component?) :
    ".." ∉ partsOf sections ∧ sections.filterMap Path.component? =
      ((partsOf sections).filter (· != ".")).map .normal := by
  induction sections with
  | nil => simp [partsOf]
  | cons part sections ih =>
    cases hpart : Path.isIdle part with
    | true =>
      rw [List.filterMap_cons_none (Path.component?_of_isIdle hpart)] at h ⊢
      obtain ⟨hparts, hsteps⟩ := ih h
      simp only [Path.isIdle, Bool.or_eq_true, beq_iff_eq] at hpart
      obtain rfl | rfl := hpart
      · exact ⟨hparts, hsteps⟩
      · exact ⟨by simpa [partsOf] using hparts, hsteps.trans (by simp [partsOf])⟩
    | false =>
      rw [List.filterMap_cons_some (Path.component?_of_not_isIdle hpart)] at h ⊢
      rw [List.mem_cons, not_or] at h
      obtain ⟨hparts, hsteps⟩ := ih h.2
      have hdots : part ≠ ['.', '.'] := fun hdots => h.1 (by simp [hdots])
      simp only [Path.isIdle, Bool.or_eq_false_iff, beq_eq_false_iff_ne] at hpart
      have hname {text : List Char} (hne : part ≠ text) : String.ofList part ≠ String.ofList text :=
        fun heq => hne (String.ofList_inj.mp heq)
      have hcons : partsOf (part :: sections) = String.ofList part :: partsOf sections := by
        rw [partsOf, List.filter_cons_of_pos (by simpa using hpart.1), List.map_cons, partsOf]
      rw [hcons, List.mem_cons, not_or, List.filter_cons_of_pos (by simpa using hname hpart.2),
        if_neg (by simpa using hdots), hsteps, List.map_cons]
      exact ⟨⟨(hname hdots).symm, hparts⟩, rfl⟩

/-- **A path without two dots leads to a directory by its components**, taken from the working
directory. -/
theorem components_of_resolve {found : List String × Node}
    (hwd : ∀ name ∈ disk.workingDir, Path.IsName name) (h : disk.resolve path = .ok found)
    (hplain : .parent ∉ path.components) :
    ((pathOf disk.workingDir).resolve path).components = .root :: found.1.map .normal := by
  obtain ⟨hne, hfits⟩ := fits_of_resolve h
  rw [resolve_eq, locate_eq disk hne hfits] at h
  have hsteps : .parent ∉ path.steps := fun hmem =>
    hplain (by rw [Path.components_eq]; exact List.mem_append_right _ hmem)
  obtain ⟨hparts, heq⟩ := filterMap_of_not_parent hsteps
  rw [names_of_reach_follow hparts h, Path.resolve]
  cases habs : path.isAbsolute with
  | true =>
    rw [Path.isAbsolute_eq, beq_iff_eq] at habs
    rw [if_pos rfl, if_pos rfl, Path.components_eq, habs, Path.steps, heq]
    rfl
  | false =>
    rw [if_neg Bool.false_ne_true, if_neg Bool.false_ne_true,
      Path.components_join (Path.text_pathOf_ne_empty _) habs, Path.components_pathOf hwd,
      Path.steps, heq, List.map_append, List.cons_append]

end RouteScaffold.Disk
