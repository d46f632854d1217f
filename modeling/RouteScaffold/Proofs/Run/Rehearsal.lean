import RouteScaffold.Proofs.Run.TwoPhase
import RouteScaffold.Proofs.Store.Memory

/-! The dry run rehearses the run.

A run on the overlay and a run on the store itself go hand in hand: while they
look, they see the same, and while they write, what the overlay has noted is what
the store has become (`Rehearses`). So they end alike, the notes are exactly what
the run does to the store, and the store below the overlay is as it was
(`dryRun_rehearses`). The paths must be absolute for this, since the overlay
compares them as they are written. -/
namespace RouteScaffold.Store

/-- Does all that is noted. -/
def Notes.perform (notes : Notes) (s : Memory) : Memory :=
  notes.writes.foldl (fun s w => s.write w.path w.content) (notes.dirs.foldl Memory.makeDir s)

/-- Directories may as well be made before files are written. -/
theorem makeDir_writes (writes : List Written) (s : Memory) (path : Path) :
    writes.foldl (fun s w => s.write w.path w.content) (s.makeDir path) =
      (writes.foldl (fun s w => s.write w.path w.content) s).makeDir path := by
  induction writes generalizing s with
  | nil => rfl
  | cons w writes ih => exact ih (s.write w.path w.content)

theorem perform_makeDir (notes : Notes) (s : Memory) (path : Path) :
    ({ notes with dirs := notes.dirs ++ [path] } : Notes).perform s =
      (notes.perform s).makeDir path := by
  rw [Notes.perform, List.foldl_append]
  exact makeDir_writes notes.writes _ path

theorem perform_write (notes : Notes) (s : Memory) (path : Path) (content : String) :
    ({ notes with writes := notes.writes ++ [⟨path, content⟩] } : Notes).perform s =
      (notes.perform s).write path content := by
  rw [Notes.perform, List.foldl_append]
  rfl

end RouteScaffold.Store

namespace RouteScaffold.Run
open Route Artifact Store

/-! ### Looking -/

/-- Before anything is noted, both computations look at the same and see the same. -/
def LooksSame {α : Type} (x : Process Notes α) (y : Process Log α) : Prop :=
  ∀ log s, ∃ result looks, exec x {} s = (result, {}, s) ∧
    exec y log s = (result, log ++ looks, s) ∧ Looks looks

theorem looksSame_kept : Kept fun _ => LooksSame where
  pure a log s := ⟨.ok a, [], rfl, by simp, List.forall_mem_nil _⟩
  throw failure log s := ⟨.error failure, [], rfl, by simp, List.forall_mem_nil _⟩
  bind {_ _ x y f g} hx hf log s := by
    obtain ⟨result, looks, hdry, hdirect, hlooks⟩ := hx log s
    cases result with
    | error failure =>
      exact ⟨.error failure, looks, exec_bind_error hdry f, exec_bind_error hdirect g, hlooks⟩
    | ok a =>
      obtain ⟨result, more, hdry', hdirect', hmore⟩ := hf a (log ++ looks) s
      refine ⟨result, looks ++ more, ?_, ?_, hlooks.append hmore⟩
      · rw [exec_bind_ok hdry, hdry']
      · rw [exec_bind_ok hdirect, hdirect', List.append_assoc]

theorem looksSame_looks :
    LooksAlike (fun _ => LooksSame) (dryRun memory) (observed .never memory) where
  workingDir log s :=
    ⟨.ok s.workingDir, [], rfl, by rw [List.append_nil]; rfl, List.forall_mem_nil _⟩
  glob root text log s := by
    refine ⟨_, _, ?_, exec_glob root text, List.forall_mem_singleton.mpr rfl⟩
    rfl
  read path log s := by
    obtain ⟨result, hread⟩ : ∃ result, (memory.read path).run s = (result, s) := by
      rw [run_read]
      cases s.file? path <;> exact ⟨_, rfl⟩
    have hthrough : ((dryRun memory).read path).run {} =
        memory.read path >>= fun result => pure (result, {}) := rfl
    have hnever : Faults.never log (.read path) = none := rfl
    refine ⟨_, _, ?_, exec_no_fault hnever path hread, List.forall_mem_singleton.mpr rfl⟩
    simp only [exec, attempt, ExceptT.run_mk, StateT.run_bind, hthrough, hread]
    rfl

/-! ### Writing -/

/-- What the overlay has noted is what has been done to the store `s₀` below it. -/
structure Rehearses (s₀ : Memory) (notes : Notes) (log : Log) (s : Memory) : Prop where
  written : Log.written log = notes.writes.map fun w => (w.path, w.content)
  made : Log.made log = notes.dirs
  memory : s = notes.perform s₀
  has (path : Path) : path.isAbsolute = true → s.has path = (notes.has path || s₀.has path)

/-- The first computation rehearses what the second one does. -/
def Simulates {α : Type} (x : Process Notes α) (y : Process Log α) : Prop :=
  ∀ s₀ notes log s, Rehearses s₀ notes log s → ∃ result notes' log' s',
    exec x notes s₀ = (result, notes', s₀) ∧ exec y log s = (result, log', s') ∧
      Rehearses s₀ notes' log' s'

theorem simulates_kept : Kept fun _ => Simulates where
  pure a _ notes log s h := ⟨.ok a, notes, log, s, rfl, rfl, h⟩
  throw failure _ notes log s h := ⟨.error failure, notes, log, s, rfl, rfl, h⟩
  bind {_ _ x y f g} hx hf s₀ notes log s h := by
    obtain ⟨result, notes', log', s', hdry, hdirect, h'⟩ := hx s₀ notes log s h
    cases result with
    | error failure =>
      exact ⟨.error failure, notes', log', s', exec_bind_error hdry f,
        exec_bind_error hdirect g, h'⟩
    | ok a =>
      rw [exec_bind_ok hdry, exec_bind_ok hdirect]
      exact hf a s₀ notes' log' s' h'

theorem exec_dryRun_has (notes : Notes) (s : Memory) (path : Path) :
    exec (ExceptT.lift ((dryRun memory).has path)) notes s =
      (.ok (notes.has path || s.has path), notes, s) := by
  have hrun : (((dryRun memory).has path).run notes).run s =
      ((notes.has path || s.has path, notes), s) := by
    simp only [dryRun, StateT.run_bind, StateT.run_get, pure_bind]
    cases notes.has path <;> rfl
  simp only [exec, ExceptT.run_lift, StateT.run_map, hrun]
  rfl

theorem simulates_changes {path : Path} (hpath : path.isAbsolute = true) :
    ChangesAlike (fun _ => Simulates) (dryRun memory) (observed .never memory) path where
  has s₀ notes log s h := by
    refine ⟨.ok (s.has path), notes, log, s, ?_, rfl, h⟩
    rw [h.has path hpath]
    exact exec_dryRun_has notes s₀ path
  makeDir s₀ notes log s h := by
    refine ⟨.ok (), { notes with dirs := notes.dirs ++ [path] }, _, s.makeDir path, rfl,
      exec_makeDir path, ?_, ?_, ?_, ?_⟩
    · rw [Log.written_append, h.written]
      exact List.append_nil _
    · rw [Log.made_append, h.made]
      rfl
    · rw [perform_makeDir, ← h.memory]
    · intro base hbase
      rw [Memory.has_makeDir, h.has base hbase, Memory.resolve, Memory.resolve,
        Path.resolve_of_isAbsolute _ hpath, Path.resolve_of_isAbsolute _ hbase]
      simp [Notes.has, Bool.or_assoc, Bool.or_left_comm]
  write content s₀ notes log s h := by
    refine ⟨.ok (), { notes with writes := notes.writes ++ [⟨path, content⟩] }, _,
      s.write path content, rfl, exec_write path content, ?_, ?_, ?_, ?_⟩
    · rw [Log.written_append, h.written, List.map_append]
      rfl
    · rw [Log.made_append, h.made]
      exact List.append_nil _
    · rw [perform_write, ← h.memory]
    · intro base hbase
      rw [Memory.has_write, h.has base hbase, Memory.resolve, Memory.resolve,
        Path.resolve_of_isAbsolute _ hpath, Path.resolve_of_isAbsolute _ hbase]
      simp [Notes.has, Bool.or_assoc, Bool.or_left_comm]

/-! ### The whole run -/

/-- All files that a run from an absolute working directory plans have absolute paths. -/
theorem isAbsolute_of_inPlace {options : Options} {s : Memory} {planned : Planned}
    (h : s.workingDir.isAbsolute = true)
    (hplaced : planned.InPlace (options.rootFrom s.workingDir) options.outputDir) :
    ∀ path ∈ planned.paths, path.isAbsolute = true := by
  have hroot : (options.rootFrom s.workingDir).isAbsolute = true := by
    unfold Options.rootFrom
    split
    · exact Path.isAbsolute_resolve h _
    · exact h
  have hdir : planned.outputPath.isAbsolute = true := by
    rw [hplaced]
    exact Path.isAbsolute_join (Path.isAbsolute_join hroot _) _
  exact List.forall_mem_cons.mpr
    ⟨hdir, List.forall_mem_map.mpr fun _ _ => Path.isAbsolute_join hdir _⟩

theorem rehearses_looks {looks : Log} (h : Looks looks) (s : Memory) : Rehearses s {} looks s := by
  have hnone : Log.changes looks = [] := Log.changes_of_looks h
  refine ⟨?_, ?_, rfl, fun _ _ => rfl⟩
  · rw [Log.written, hnone]
    rfl
  · rw [Log.made, hnone]
    rfl

/-- From an absolute working directory, the run on the overlay rehearses the observed run. -/
theorem generate_rehearses {s : Memory} (h : s.workingDir.isAbsolute = true) (options : Options) :
    ∃ result notes log s',
      exec (ExceptT.mk (generate (dryRun memory) options)) {} s = (result, notes, s) ∧
      observedRun .never options s = ⟨result, log, s'⟩ ∧ Rehearses s notes log s' := by
  obtain ⟨result, looks, hdry, hdirect, hlooks⟩ :=
    plan_alike looksSame_kept looksSame_looks options [] s
  cases result with
  | error failure =>
    exact ⟨.error failure, {}, looks, s, exec_bind_error hdry _,
      observedRun_eq (exec_bind_error hdirect _), rehearses_looks hlooks s⟩
  | ok plans =>
    have hplaced : ∀ planned ∈ plans,
        planned.InPlace (options.rootFrom s.workingDir) options.outputDir := by
      by_cases hblocked : Blocked .never options s
      · obtain ⟨failure, looks', hfailed, -⟩ := exec_plan_error hblocked
        rw [hfailed] at hdirect
        cases hdirect
      · obtain ⟨plans', hplan, -, hplaced⟩ := exec_plan hblocked
        rw [hplan] at hdirect
        cases hdirect
        exact hplaced
    obtain ⟨result, notes, log, s', hdry', hdirect', hends⟩ :=
      writeAll_alike simulates_kept.toSequenced (fun planned hplanned path hpath =>
        simulates_changes (isAbsolute_of_inPlace h (hplaced planned hplanned) path hpath))
        s {} looks s (rehearses_looks hlooks s)
    exact ⟨result, notes, log, s', (exec_bind_ok hdry _).trans hdry',
      observedRun_eq ((exec_bind_ok hdirect _).trans hdirect'), hends⟩

/-- **The dry run rehearses the run.** On a memory state with an absolute working directory both
have the same result. The notes hold, in their order, the files that the run writes, with their
contents, and the directories that it makes; what becomes of the state is what is noted, and in the
dry run nothing becomes of it. -/
theorem dryRun_rehearses {s : Memory} (h : s.workingDir.isAbsolute = true) (options : Options) :
    ∃ result notes, ((generate (dryRun memory) options).run {}).run s = ((result, notes), s) ∧
      (generate memory options).run s = (result, notes.perform s) ∧
      (observedRun .never options s).result = result ∧
      Log.written (observedRun .never options s).log =
        notes.writes.map (fun w => (w.path, w.content)) ∧
      Log.made (observedRun .never options s).log = notes.dirs := by
  obtain ⟨result, notes, log, s', hdry, hdirect, hends⟩ := generate_rehearses h options
  rw [generate_memory, hdirect]
  exact ⟨result, notes, run_of_exec hdry, by rw [hends.memory], rfl, hends.written, hends.made⟩

/-- Two groups, where the output of the one is written into the directory of the other. -/
theorem dryRun_rehearses_nested :
    let s : Memory := {
      workingDir := ⟨"/project"⟩
      files := [(⟨"/project/app/route.get.config.ts"⟩, ""),
        (⟨"/project/app/api/route.get.config.ts"⟩, "")] }
    let options : Options := { outputDir := "api" }
    s.workingDir.isAbsolute = true ∧
    ∃ result notes, ((generate (dryRun memory) options).run {}).run s = ((result, notes), s) ∧
      (generate memory options).run s = (result, notes.perform s) ∧
      (observedRun .never options s).result = result ∧
      Log.written (observedRun .never options s).log =
        notes.writes.map (fun w => (w.path, w.content)) ∧
      Log.made (observedRun .never options s).log = notes.dirs := by
  intro s options
  have h : s.workingDir.isAbsolute = true := by decide +kernel
  exact ⟨h, dryRun_rehearses h options⟩

end RouteScaffold.Run
