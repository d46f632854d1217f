import Mathlib.Data.List.Induction
import Mathlib.Data.List.Nodup
import RouteScaffold.Proofs.Path.Plain

/-! The tree on a disk.

The entries of a disk make a tree where each has a name, no two lead to one place, and each lies in
a directory (`IsTree`). The files below a directory that lie in no skipped one are listed by
descending into the others (`filesIn`): that lists each of them once (`mem_filesIn`,
`nodup_filesIn`). -/
namespace RouteScaffold.Disk
open Store

variable {disk : Disk} {dir names : List String} {name : String}

/-- What the names from the root lead to, contents left out. -/
def kind? (disk : Disk) (names : List String) : Option EntryKind :=
  (disk.node? names).map Node.kind

/-- The text can name an entry. -/
structure Nameable (name : String) : Prop where
  isName : Path.IsName name
  short : name.utf8ByteSize ≤ longestName
  spelled : '\x00' ∉ name.toList

instance (name : String) : Decidable (Nameable name) :=
  decidable_of_iff (Path.IsName name ∧ name.utf8ByteSize ≤ longestName ∧ '\x00' ∉ name.toList)
    ⟨fun ⟨hname, hshort, hspelled⟩ => ⟨hname, hshort, hspelled⟩,
      fun h => ⟨h.isName, h.short, h.spelled⟩⟩

structure IsTree (disk : Disk) : Prop where
  distinct : (disk.entries.map Prod.fst).Nodup
  nameable : ∀ entry ∈ disk.entries, ∀ name ∈ entry.1, Nameable name
  placed : ∀ entry ∈ disk.entries, entry.1 ≠ [] ∧ disk.kind? entry.1.dropLast = some .dir
  workingDir : disk.kind? disk.workingDir = some .dir

instance (disk : Disk) : Decidable disk.IsTree :=
  decidable_of_iff ((disk.entries.map Prod.fst).Nodup ∧
      (∀ entry ∈ disk.entries, ∀ name ∈ entry.1, Nameable name) ∧
      (∀ entry ∈ disk.entries, entry.1 ≠ [] ∧ disk.kind? entry.1.dropLast = some .dir) ∧
      disk.kind? disk.workingDir = some .dir)
    ⟨fun ⟨hdistinct, hnameable, hplaced, hdir⟩ => ⟨hdistinct, hnameable, hplaced, hdir⟩,
      fun h => ⟨h.distinct, h.nameable, h.placed, h.workingDir⟩⟩

/-! ### What lies where -/

theorem lookup_eq_some_iff_mem {α β : Type} [BEq α] [LawfulBEq α] {entries : List (α × β)}
    (h : (entries.map Prod.fst).Nodup) {key : α} {value : β} :
    entries.lookup key = some value ↔ (key, value) ∈ entries := by
  rw [List.lookup_eq_some_iff]
  constructor
  · rintro ⟨front, back, rfl, -⟩
    exact List.mem_append_right _ (List.mem_cons_self ..)
  · intro hmem
    obtain ⟨front, back, rfl⟩ := List.append_of_mem hmem
    refine ⟨front, back, rfl, fun entry hentry => ?_⟩
    rw [List.map_append, List.map_cons, List.nodup_append] at h
    rw [bne_iff_ne]
    exact (h.2.2 entry.1 (List.mem_map_of_mem hentry) key (List.mem_cons_self ..)).symm

theorem node?_eq_some_iff (h : disk.IsTree) (hne : names ≠ []) {node : Node} :
    disk.node? names = some node ↔ (names, node) ∈ disk.entries := by
  rw [node?, if_neg (by simpa using hne), lookup_eq_some_iff_mem h.distinct]

theorem exists_entry (h : disk.IsTree) (hne : names ≠ []) {kind : EntryKind}
    (hkind : disk.kind? names = some kind) :
    ∃ node, (names, node) ∈ disk.entries ∧ node.kind = kind := by
  obtain ⟨node, hnode, hkind⟩ := Option.map_eq_some_iff.mp hkind
  exact ⟨node, (node?_eq_some_iff h hne).mp hnode, hkind⟩

theorem IsTree.nameable_of_kind? (h : disk.IsTree) {kind : EntryKind}
    (hkind : disk.kind? names = some kind) : ∀ name ∈ names, Nameable name := by
  by_cases hne : names = []
  · simp [hne]
  · obtain ⟨node, hmem, -⟩ := exists_entry h hne hkind
    exact h.nameable _ hmem

theorem IsTree.isName_of_kind? (h : disk.IsTree) {kind : EntryKind}
    (hkind : disk.kind? names = some kind) : ∀ name ∈ names, Path.IsName name :=
  fun name hname => (h.nameable_of_kind? hkind name hname).isName

/-- What something lies below is a directory. -/
theorem IsTree.kind?_above (h : disk.IsTree) {rel : List String} {kind : EntryKind}
    (hne : rel ≠ []) (hkind : disk.kind? (names ++ rel) = some kind) :
    disk.kind? names = some .dir := by
  induction rel using List.reverseRecOn generalizing kind with
  | nil => exact absurd rfl hne
  | append_singleton rel name ih =>
    rw [← List.append_assoc] at hkind
    obtain ⟨node, hmem, -⟩ := exists_entry h (by simp) hkind
    have hplaced := (h.placed _ hmem).2
    rw [List.dropLast_concat] at hplaced
    by_cases hrel : rel = []
    · rwa [hrel, List.append_nil] at hplaced
    · exact ih hrel hplaced

/-! ### The names in a directory -/

/-- The names right in a directory and what they stand for. -/
def namesIn (disk : Disk) (dir : List String) : List (String × EntryKind) :=
  disk.entries.filterMap fun (names, node) =>
    (nameIn? dir names).map fun name => (name, node.kind)

theorem nameIn?_eq_some_iff : nameIn? dir names = some name ↔ names = dir ++ [name] := by
  rw [nameIn?]
  split
  next found hfound =>
    rw [← List.isPrefixOf?_eq_some_iff_append_eq.mp hfound]
    simp
  next hnone =>
    refine ⟨(nomatch ·), ?_⟩
    rintro rfl
    exact absurd (List.isPrefixOf?_eq_some_iff_append_eq.mpr rfl) (hnone name)

theorem mem_namesIn (h : disk.IsTree) {kind : EntryKind} :
    (name, kind) ∈ disk.namesIn dir ↔ disk.kind? (dir ++ [name]) = some kind := by
  rw [namesIn, List.mem_filterMap]
  constructor
  · rintro ⟨⟨names, node⟩, hmem, hfound⟩
    obtain ⟨found, hin, heq⟩ := Option.map_eq_some_iff.mp hfound
    obtain ⟨rfl, rfl⟩ := Prod.mk.inj heq
    rw [nameIn?_eq_some_iff.mp hin] at hmem
    rw [kind?, (node?_eq_some_iff h (by simp)).mpr hmem]
    rfl
  · intro hkind
    obtain ⟨node, hmem, rfl⟩ := exists_entry h (by simp) hkind
    refine ⟨_, hmem, ?_⟩
    dsimp only
    rw [nameIn?_eq_some_iff.mpr rfl, Option.map_some]

theorem nodup_namesIn (h : disk.IsTree) : ((disk.namesIn dir).map Prod.fst).Nodup := by
  have hnames : (disk.namesIn dir).map Prod.fst =
      (disk.entries.map Prod.fst).filterMap (nameIn? dir) := by
    rw [namesIn, List.map_filterMap, List.filterMap_map]
    refine congrArg (List.filterMap · _) (funext fun entry => ?_)
    rw [Option.map_map]
    exact Option.map_id'
  rw [hnames]
  refine h.distinct.filterMap fun a a' name ha ha' => ?_
  rw [nameIn?_eq_some_iff.mp ha, nameIn?_eq_some_iff.mp ha']

/-! ### The files below a directory -/

/-- What a name in a directory adds to the files found there, those `below` it being given. -/
def foundAt (name : String) (kind : EntryKind) (below : List (List String)) :
    List (List String) :=
  if skippedDirs.contains name then []
  else
    match kind with
    | .file => [[name]]
    | .other => []
    | .dir => below.map (name :: ·)

/-- The files below a directory, by the names that lead there from it. No skipped directory is
entered, the others `depth` deep. -/
def filesIn (disk : Disk) : Nat → List String → List (List String)
  | 0, _ => []
  | depth + 1, dir => (disk.namesIn dir).flatMap fun entry =>
      foundAt entry.1 entry.2 (filesIn disk depth (dir ++ [entry.1]))

theorem mem_foundAt {kind : EntryKind} {below : List (List String)} {rel : List String} :
    rel ∈ foundAt name kind below ↔ name ∉ skippedDirs ∧
      (kind = .file ∧ rel = [name] ∨ kind = .dir ∧ ∃ rest ∈ below, rel = name :: rest) := by
  unfold foundAt
  split
  next hskipped =>
    have hskipped : name ∈ skippedDirs := by simpa using hskipped
    simp [hskipped]
  next hskipped =>
    have hskipped : name ∉ skippedDirs := by simpa using hskipped
    cases kind <;> simp [hskipped, eq_comm]

/-- A file lies at some names below a directory, and none of them is that of a skipped one. -/
structure Shown (disk : Disk) (dir rel : List String) : Prop where
  file : disk.kind? (dir ++ rel) = some .file
  below : rel ≠ []
  unskipped : ∀ name ∈ rel, name ∉ skippedDirs

theorem mem_filesIn (h : disk.IsTree) {depth : Nat} {rel : List String} :
    rel ∈ disk.filesIn depth dir ↔ disk.Shown dir rel ∧ rel.length ≤ depth := by
  induction depth generalizing dir rel with
  | zero =>
    rw [filesIn]
    refine ⟨(nomatch ·), fun ⟨hshown, hlength⟩ => absurd ?_ hshown.below⟩
    exact List.length_eq_zero_iff.mp (Nat.le_zero.mp hlength)
  | succ depth ih =>
    rw [filesIn, List.mem_flatMap]
    constructor
    · rintro ⟨⟨name, kind⟩, hmem, hrel⟩
      rw [mem_namesIn h] at hmem
      obtain ⟨hskipped, ⟨rfl, rfl⟩ | ⟨rfl, rest, hrest, rfl⟩⟩ := mem_foundAt.mp hrel
      · exact ⟨⟨hmem, by simp, List.forall_mem_singleton.mpr hskipped⟩, by simp⟩
      · obtain ⟨hshown, hlength⟩ := ih.mp hrest
        have hfile := hshown.file
        rw [List.append_assoc] at hfile
        exact ⟨⟨hfile, by simp, List.forall_mem_cons.mpr ⟨hskipped, hshown.unskipped⟩⟩,
          by simpa using hlength⟩
    · rintro ⟨hshown, hlength⟩
      obtain ⟨name, rest, rfl⟩ := List.exists_cons_of_ne_nil hshown.below
      obtain ⟨hname, hrest⟩ := List.forall_mem_cons.mp hshown.unskipped
      have hfile : disk.kind? ((dir ++ [name]) ++ rest) = some .file := by
        rw [List.append_assoc]
        exact hshown.file
      by_cases hnil : rest = []
      · refine ⟨(name, .file), (mem_namesIn h).mpr (by simpa [hnil] using hfile), ?_⟩
        exact mem_foundAt.mpr ⟨hname, .inl ⟨rfl, by rw [hnil]⟩⟩
      · refine ⟨(name, .dir), (mem_namesIn h).mpr (h.kind?_above hnil hfile), ?_⟩
        exact mem_foundAt.mpr ⟨hname, .inr ⟨rfl, rest,
          ih.mpr ⟨⟨hfile, hnil, hrest⟩, by simpa using hlength⟩, rfl⟩⟩

theorem nodup_foundAt (name : String) (kind : EntryKind) {below : List (List String)}
    (h : below.Nodup) : (foundAt name kind below).Nodup := by
  unfold foundAt
  split
  · exact List.nodup_nil
  · cases kind with
    | file => exact List.nodup_singleton _
    | other => exact List.nodup_nil
    | dir => exact h.map fun _ _ => List.tail_eq_of_cons_eq

theorem nodup_filesIn (h : disk.IsTree) (depth : Nat) (dir : List String) :
    (disk.filesIn depth dir).Nodup := by
  induction depth generalizing dir with
  | zero => exact List.nodup_nil
  | succ depth ih =>
    -- What is found under different names starts differently.
    have hfirst {kind : EntryKind} {below : List (List String)} {name : String}
        {rel : List String} (hrel : rel ∈ foundAt name kind below) : rel.head? = some name := by
      obtain ⟨-, ⟨-, rfl⟩ | ⟨-, rest, -, rfl⟩⟩ := mem_foundAt.mp hrel <;> rfl
    rw [filesIn, List.nodup_flatMap]
    refine ⟨fun entry _ => nodup_foundAt _ _ (ih _), ?_⟩
    refine (List.pairwise_map.mp (nodup_namesIn h)).imp fun hne rel ha hb => hne ?_
    exact Option.some.inj ((hfirst ha).symm.trans (hfirst hb))

end RouteScaffold.Disk
