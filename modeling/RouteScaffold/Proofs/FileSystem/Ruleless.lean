import Mathlib.Data.List.TakeDrop
import RouteScaffold.FileSystem.Walk
import RouteScaffold.Proofs.FileSystem.Followed

/-! Directories without ignore rules.

A directory gives no rules where it holds no ignore file and is no working copy that shares those
of another one (`Ruleless`): its level says nothing, and nothing is wrong with its files
(`exists_answers_readLevel`). Levels that say nothing hide nothing (`hides_eq_false`). -/
namespace RouteScaffold.Ignore

/-- The level has no rules. -/
structure Level.Silent (level : Level) : Prop where
  plain : level.plain = []
  versioned : level.versioned = []
  excluded : level.excluded = []

section
variable {sights : List Sight}

theorem subset_upToRepository (sights : List Sight) : upToRepository sights ⊆ sights := by
  rw [upToRepository, List.span_eq_takeWhile_dropWhile]
  split
  next => exact List.nil_subset _
  next inner repository rest heq =>
    obtain ⟨rfl, hrest⟩ := Prod.mk.inj heq
    refine List.append_subset.mpr ⟨(List.takeWhile_prefix _).subset, ?_⟩
    have hrepository : repository ∈ sights.dropWhile (!·.level.isRepository) := by simp [hrest]
    exact List.cons_subset.mpr
      ⟨(List.dropWhile_suffix _).subset hrepository, List.nil_subset _⟩

theorem findSome?_ask {rules : Level → List Rule} (h : ∀ sight ∈ sights, rules sight.level = [])
    (isDir : Bool) : sights.findSome? (·.ask rules isDir) = none := by
  refine List.findSome?_eq_none_iff.mpr fun sight hsight => ?_
  rw [Sight.ask, h sight hsight]
  rfl

/-- Levels without rules hide nothing. -/
theorem hides_eq_false (h : ∀ sight ∈ sights, sight.level.Silent) (isDir : Bool) :
    hides sights isDir = false := by
  have htracked := fun sight hsight => h sight (subset_upToRepository sights hsight)
  rw [hides, findSome?_ask fun sight hsight => (h sight hsight).plain]
  rw [findSome?_ask fun sight hsight => (htracked sight hsight).versioned,
    findSome?_ask fun sight hsight => (htracked sight hsight).excluded]
  rfl

end
end RouteScaffold.Ignore

namespace RouteScaffold.Disk
open Store Ignore

variable {disk : Disk} {path : Path} {names : List String} {α β : Type}

/-! ### Asking a disk -/

/-- The program ends with the answer and leaves the disk as it is. -/
def Answers (disk : Disk) (program : StateM Disk α) (answer : α) : Prop :=
  program.run disk = (answer, disk)

theorem Answers.pure (disk : Disk) (answer : α) : Answers disk (pure answer) answer := rfl

theorem Answers.bind {program : StateM Disk α} {answer : α} {next : α → StateM Disk β}
    {answer' : β} (h : Answers disk program answer) (h' : Answers disk (next answer) answer') :
    Answers disk (program >>= next) answer' := by
  rw [Answers, StateT.run_bind, h]
  exact h'

theorem Answers.ok_bind {program : ExceptT Fault (StateM Disk) α} {answer : α}
    {next : α → ExceptT Fault (StateM Disk) β} {answer' : Except Fault β}
    (h : Answers disk program.run (.ok answer)) (h' : Answers disk (next answer).run answer') :
    Answers disk (program >>= next).run answer' := by
  rw [ExceptT.run_bind]
  exact h.bind h'

theorem Answers.lift {program : StateM Disk α} {answer : α} (h : Answers disk program answer) :
    Answers disk (ExceptT.lift (ε := Fault) program).run (.ok answer) := by
  show Answers disk (Except.ok <$> program) _
  rw [Answers, StateT.run_map, h]
  rfl

theorem answers_mapM (answer : α → β) {next : α → ExceptT Fault (StateM Disk) β} {asked : List α}
    (h : ∀ a ∈ asked, Answers disk (next a).run (.ok (answer a))) :
    Answers disk (asked.mapM next).run (.ok (asked.map answer)) := by
  induction asked with
  | nil => exact .pure ..
  | cons a asked ih =>
    obtain ⟨ha, hasked⟩ := List.forall_mem_cons.mp h
    rw [List.mapM_cons]
    exact ha.ok_bind ((ih hasked).ok_bind (.pure ..))

/-! ### Rule files -/

/-- The first line of what a file holds, or its fault. -/
def firstLineOf (content : ByteArray) : Except Fault (Option String) :=
  match linesOf content.toList with
  | [] => .ok none
  | line :: _ =>
    match String.fromUTF8? ⟨line.toArray⟩ with
    | some text => .ok (some text)
    | none => .error .notText

/-- What a `.git` file says leads to no rules that working copies share: its first line is a text,
and if that names a place, nothing there leads on. -/
def Unlinked (disk : Disk) (content : ByteArray) : Prop :=
  ∃ line, firstLineOf content = .ok line ∧ ∀ text ∈ line, ∀ place,
    "gitdir: ".toList ++ place = text.toList →
      ∀ found, disk.resolve (Path.join ⟨String.ofList place⟩ ⟨"commondir"⟩) ≠ .ok found

/-- A directory holds no ignore file. -/
structure Bare (disk : Disk) (names : List String) : Prop where
  ignore : disk.kind? (names ++ [".ignore"]) ≠ some .file
  gitignore : disk.kind? (names ++ [".gitignore"]) ≠ some .file
  exclude : disk.kind? (names ++ [".git", "info", "exclude"]) ≠ some .file

/-- The names that ignore files have, from the directory that they are for. -/
def ruleFiles : List (List String) := [[".ignore"], [".gitignore"], [".git", "info", "exclude"]]

/-- On a disk without ignore files no directory holds one. -/
theorem bare_of_entries (hdisk : disk.IsTree)
    (h : ∀ entry ∈ disk.entries, ∀ file ∈ ruleFiles, ¬file <:+ entry.1) (names : List String) :
    disk.Bare names := by
  have hnone {file : List String} (hfile : file ∈ ruleFiles) (hne : file ≠ []) :
      disk.kind? (names ++ file) ≠ some .file := by
    intro hkind
    obtain ⟨node, hmem, -⟩ := exists_entry hdisk (by simp [hne]) hkind
    exact h _ hmem file hfile (List.suffix_append ..)
  exact ⟨hnone (by simp [ruleFiles]) (by simp), hnone (by simp [ruleFiles]) (by simp),
    hnone (by simp [ruleFiles]) (by simp)⟩

/-- A directory holds no ignore file. Where rules of version control count, it is no working copy
that shares those of another one either. -/
structure Ruleless (disk : Disk) (versioned : Bool) (names : List String) : Prop
    extends Bare disk names where
  unlinked : versioned = true → ∀ content,
    disk.node? (names ++ [".git"]) = some (.file content) → disk.Unlinked content

/-- What is told to lie at a path. -/
def kindAt? (disk : Disk) (path : Path) : Option EntryKind :=
  (spelled path (disk.resolve path)).toOption.map (·.2.kind)

theorem answers_kindAt (disk : Disk) (path : Path) :
    Answers disk (fileSystem.kindAt path) (disk.kindAt? path) := rfl

theorem answers_read (disk : Disk) (path : Path) :
    Answers disk (fileSystem.read path) (spelled path (disk.read path)) := rfl

theorem spelled_eq_ok {answer : Except Refusal α} {a : α} (h : spelled path answer = .ok a) :
    answer = .ok a := by
  rw [spelled] at h
  split at h
  · cases h
  · cases answer with
    | error refusal => cases h
    | ok b => exact congrArg Except.ok (Except.ok.inj h)

theorem answers_readRuleFile (h : LeadsOnly disk path names)
    (hfile : disk.kind? names ≠ some .file) :
    Answers disk (fileSystem.readRuleFile path) ([], []) := by
  refine (answers_read disk path).bind ?_
  cases hread : spelled path (disk.read path) with
  | error fault => exact .pure ..
  | ok content =>
    refine absurd ?_ hfile
    rw [kind?, h.node?_of_read (spelled_eq_ok hread)]
    rfl

theorem answers_firstLine (disk : Disk) (path : Path) : Answers disk (fileSystem.firstLine path)
    ((spelled path (disk.read path)).bind firstLineOf) := by
  refine (answers_read disk path).bind ?_
  cases spelled path (disk.read path) with
  | error fault => exact .pure ..
  | ok content =>
    show Answers disk _ (firstLineOf content)
    dsimp only
    rw [firstLineOf]
    cases linesOf content.toList with
    | nil => exact .pure ..
    | cons line rest =>
      dsimp only
      cases String.fromUTF8? ⟨line.toArray⟩ <;> exact .pure ..

/-- Where nothing is found, a file is refused, but not as a directory or as no text. -/
theorem exists_fault_of_unresolved (h : ∀ found, disk.resolve path ≠ .ok found) :
    ∃ fault, spelled path (disk.read path) = .error fault ∧ fault ≠ .notText ∧
      fault ≠ .refused .isDirectory := by
  cases hfound : disk.resolve path with
  | ok found => exact absurd hfound (h found)
  | error refusal =>
    have hread : disk.read path = .error refusal := by
      rw [read, hfound]
      rfl
    rw [spelled, hread]
    split
    · exact ⟨.nulInPath, rfl, by simp, by simp⟩
    · exact ⟨.refused refusal, rfl, by simp, by simp [ne_isDirectory_of_resolve hfound]⟩

/-- What is told to be a file can be read. -/
theorem exists_content (hpath : LeadsOnly disk path names)
    (h : disk.kindAt? path = some .file) : ∃ content,
      spelled path (disk.read path) = .ok content ∧ disk.node? names = some (.file content) := by
  rw [kindAt?] at h
  cases hfound : spelled path (disk.resolve path) with
  | error fault =>
    rw [hfound] at h
    cases h
  | ok found =>
    obtain ⟨place, node⟩ := found
    have hresolve := spelled_eq_ok hfound
    rw [hfound] at h
    cases node with
    | dir => cases h
    | file content =>
      have hread : disk.read path = .ok content := by
        rw [read, hresolve]
        rfl
      refine ⟨content, ?_, hpath.node?_of_read hread⟩
      rw [spelled] at hfound ⊢
      split at hfound
      · cases hfound
      next hnul =>
        rw [if_neg hnul, hread]
        rfl

/-- A `.git` file that leads to no shared rules leads nowhere. -/
theorem answers_repositoryDir_of_file {content : ByteArray}
    (hkind : disk.kindAt? (path.join ⟨".git"⟩) = some .file)
    (hread : spelled (path.join ⟨".git"⟩) (disk.read (path.join ⟨".git"⟩)) = .ok content)
    (h : disk.Unlinked content) :
    Answers disk (fileSystem.repositoryDir path) (.error none) := by
  refine (answers_kindAt disk (path.join ⟨".git"⟩)).bind ?_
  rw [hkind, if_pos (by simp)]
  obtain ⟨line, hline, hplace⟩ := h
  have hfirst := answers_firstLine disk (path.join ⟨".git"⟩)
  rw [hread, Except.bind, hline] at hfirst
  refine hfirst.bind ?_
  cases line with
  | none => exact .pure ..
  | some text =>
    dsimp only
    cases hprefix : "gitdir: ".toList.isPrefixOf? text.toList with
    | none => exact .pure ..
    | some place =>
      obtain ⟨fault, hfault, htext, hdirectory⟩ := exists_fault_of_unresolved
        (hplace text rfl place (List.isPrefixOf?_eq_some_iff_append_eq.mp hprefix))
      have hlink := answers_firstLine disk (Path.join ⟨String.ofList place⟩ ⟨"commondir"⟩)
      rw [hfault, Except.bind] at hlink
      refine hlink.bind ?_
      split
      next h => cases h
      next h => cases h
      next h => exact absurd (Except.error.inj h) htext
      next h => exact absurd (Except.error.inj h) hdirectory
      next => exact .pure ..

/-- What a directory's `.git` leads to, where it leads to no shared rules. -/
theorem exists_answers_repositoryDir (hpath : LeadsOnly disk path names)
    (h : ∀ content, disk.node? (names ++ [".git"]) = some (.file content) →
      disk.Unlinked content) :
    ∃ place, Answers disk (fileSystem.repositoryDir path) place ∧
      (place = .ok (path.join ⟨".git"⟩) ∨ place = .error none) := by
  by_cases hkind : disk.kindAt? (path.join ⟨".git"⟩) = some .file
  · obtain ⟨content, hread, hnode⟩ := exists_content (hpath.join (by decide)) hkind
    exact ⟨_, answers_repositoryDir_of_file hkind hread (h content hnode), .inr rfl⟩
  · refine ⟨.ok (path.join ⟨".git"⟩), ?_, .inl rfl⟩
    refine (answers_kindAt disk (path.join ⟨".git"⟩)).bind ?_
    rw [if_neg (by simpa using hkind)]
    exact .pure ..

/-- The level of a directory without rules has none, and nothing is wrong with its files. -/
theorem exists_answers_readLevel {versioned : Bool} (hpath : LeadsOnly disk path names)
    (h : disk.Ruleless versioned names) :
    ∃ level, Answers disk (fileSystem.readLevel versioned path) (level, []) ∧ level.Silent := by
  have hplain :=
    answers_readRuleFile (hpath.join (by decide : Path.IsName ".ignore")) h.ignore
  have hrules :=
    answers_readRuleFile (hpath.join (by decide : Path.IsName ".gitignore")) h.gitignore
  cases versioned with
  | false => exact ⟨{ dir := path }, hplain.bind (.pure ..), rfl, rfl, rfl⟩
  | true =>
    obtain ⟨place, hplace, hcases⟩ := exists_answers_repositoryDir hpath (h.unlinked rfl)
    have hplaces : LeadsOnly disk ((path.join ⟨".git"⟩).join ⟨"info/exclude"⟩)
        (names ++ [".git", "info", "exclude"]) := by
      have hgit : Path.IsName ".git" := by decide
      have hbelow : ∀ name ∈ ["info", "exclude"], Path.IsName name := by decide
      rw [show (⟨"info/exclude"⟩ : Path) = Path.ofNames ["info", "exclude"] from rfl,
        Path.join_ofNames (Path.text_join_ne_empty path hgit) (by simp) hbelow]
      exact hpath.descend (List.forall_mem_cons.mpr ⟨hgit, hbelow⟩)
    let level : Level :=
      { dir := path
        isRepository := (disk.kindAt? (path.join ⟨".git"⟩)).isSome ||
          (disk.kindAt? (path.join ⟨".jj"⟩)).isSome }
    refine ⟨level, ?_, rfl, rfl, rfl⟩
    refine hplain.bind ((answers_kindAt disk _).bind ((answers_kindAt disk _).bind
      (hrules.bind (hplace.bind ?_))))
    rcases hcases with rfl | rfl
    · exact (answers_readRuleFile hplaces h.exclude).bind (.pure ..)
    · exact (Answers.pure disk ([], [])).bind (.pure ..)

end RouteScaffold.Disk
