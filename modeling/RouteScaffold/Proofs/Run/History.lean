import RouteScaffold.Proofs.Run.Stale

/-! What a history of runs leaves behind.

Between runs, descriptor files come and go (`History`). Nothing but a run changes what is
generated, and a run only writes; so a path that no descriptor file lies at holds what the
latest run that wrote there wrote (`History.file?_eq`). Checking compares what a run would
write, and no more: where it finds nothing out of date, all that a run in a fresh project
would write is there, and besides it whatever earlier runs have left
(`artifacts_of_clean`, `leftover_of_clean`). -/
namespace RouteScaffold.Store.Memory

/-- The state without what lies at a path. -/
def removeFile (s : Memory) (path : Path) : Memory :=
  { s with files := s.files.filter fun file => !file.1.same (s.resolve path) }

theorem workingDir_removeFile (s : Memory) (path : Path) :
    (s.removeFile path).workingDir = s.workingDir := rfl

theorem workingDir_addFile (s : Memory) (path : Path) (content : String) :
    (s.addFile path content).workingDir = s.workingDir := rfl

/-- Removing a file leaves what lies elsewhere. -/
theorem file?_removeFile {s : Memory} {path q : Path}
    (h : (s.resolve path).same (s.resolve q) = false) :
    (s.removeFile path).file? q = s.file? q := by
  have hfind : (fun file : Path × String => file.1.same (s.resolve q)) = fun file =>
      decide ((!file.1.same (s.resolve path)) = true ∧ file.1.same (s.resolve q) = true) := by
    funext file
    rw [Bool.eq_iff_iff, decide_eq_true_iff, Bool.not_eq_true']
    refine ⟨fun hq => ⟨Bool.eq_false_iff.mpr fun hpath => ?_, hq⟩, And.right⟩
    rw [Path.same_iff.mpr ((Path.same_iff.mp hpath).symm.trans (Path.same_iff.mp hq))] at h
    cases h
  rw [file?, file?, hfind]
  exact congrArg _ (List.find?_filter ..)

end RouteScaffold.Store.Memory

namespace RouteScaffold.Run
open Route Artifact Store

/-! ### Histories -/

/-- How a project has come to a state: descriptor files were added, changed and removed, and in
between runs succeeded. The states that these started from are listed, the latest first. -/
inductive History (options : Options) (start : Memory) : List Memory → Memory → Prop where
  | start : History options start [] start
  | put {runs s} (path : Path) (content : String) : History options start runs s →
      isDescriptor (s.resolve path) = true → History options start runs (s.addFile path content)
  | remove {runs s} (path : Path) : History options start runs s →
      isDescriptor (s.resolve path) = true → History options start runs (s.removeFile path)
  | run {runs s} : History options start runs s → Succeeds options s →
      History options start (s :: runs) (ran options s)

/-- What the latest of the runs that wrote at a path wrote there. -/
def lastWritten (options : Options) (runs : List Memory) (path : Path) : Option String :=
  runs.findSome? fun s => (rehearsed options s).content? path

section history
variable {options : Options} {start s : Memory} {runs : List Memory}

theorem lastWritten_cons (options : Options) (s : Memory) (runs : List Memory) (path : Path) :
    lastWritten options (s :: runs) path =
      ((rehearsed options s).content? path).or (lastWritten options runs path) := by
  rw [lastWritten, List.findSome?_cons]
  cases (rehearsed options s).content? path <;> rfl

theorem History.workingDir_eq (h : start.workingDir.isAbsolute = true)
    (hist : History options start runs s) : s.workingDir = start.workingDir := by
  induction hist with
  | start => rfl
  | put path content _ _ ih => exact ih
  | remove path _ _ ih => exact ih
  | run _ _ ih => rw [workingDir_ran (by rw [ih, h]), ih]

/-- A descriptor file lies nowhere else. -/
theorem not_same_of_isDescriptor (s : Memory) {path q : Path}
    (hpath : isDescriptor (s.resolve path) = true) (hq : q.isAbsolute = true)
    (hnot : isDescriptor q = false) : (s.resolve path).same (s.resolve q) = false := by
  rw [Bool.eq_false_iff]
  intro hsame
  rw [show s.resolve q = q from Path.resolve_of_isAbsolute _ hq] at hsame
  rw [isDescriptor_congr hsame, hnot] at hpath
  cases hpath

/-- Where no descriptor file lies, a path holds what was written there last, or what it held at the
start. -/
theorem History.file?_eq (h : start.workingDir.isAbsolute = true)
    (hist : History options start runs s) {q : Path} (hq : q.isAbsolute = true)
    (hnot : isDescriptor q = false) :
    s.file? q = (lastWritten options runs q).or (start.file? q) := by
  induction hist with
  | start => rfl
  | @put runs s path content _ hpath ih =>
    rw [Memory.file?_addFile, not_same_of_isDescriptor s hpath hq hnot]
    exact ih
  | @remove runs s path _ hpath ih =>
    rw [Memory.file?_removeFile (not_same_of_isDescriptor s hpath hq hnot), ih]
  | @run runs s hist hok ih =>
    have habs : s.workingDir.isAbsolute = true := by rw [hist.workingDir_eq h, h]
    rw [ran_eq habs, file?_perform (absolute_rehearsed habs hok) s hq, ih, lastWritten_cons,
      Option.or_assoc]

end history

/-! ### Checking -/

/-- Where a file of a group is generated. -/
def Options.artifact (options : Options) (s : Memory) (group : Group) (name : String) : Path :=
  (((options.rootFrom s.workingDir).join group.directory).join ⟨options.outputDir⟩).join ⟨name⟩

/-- A project with the same descriptor files in which nothing is generated yet. -/
structure Fresh (options : Options) (s fresh : Memory) : Prop extends SameDescriptors s fresh where
  empty : ∀ group ∈ options.groupsIn s, ∀ name ∈ possibleNames,
    fresh.file? (options.artifact s group name) = none

section checking
variable {options : Options} {start s fresh : Memory} {runs : List Memory}

theorem isAbsolute_artifact (h : s.workingDir.isAbsolute = true) (group : Group) (name : String) :
    (options.artifact s group name).isAbsolute = true :=
  Path.isAbsolute_join (Path.isAbsolute_join
    (Path.isAbsolute_join (isAbsolute_rootFrom h options) _) _) _

theorem not_descriptor_artifact (group : Group) {name : String} (hname : name ∈ possibleNames) :
    isDescriptor (options.artifact s group name) = false := by
  have hlast : (options.artifact s group name).fileName? = some name :=
    Path.fileName?_eq_some_iff.mpr
      ⟨_, Path.components_join_name _ (isName_of_mem_possibleNames _ hname)⟩
  rw [isDescriptor, hlast, Option.bind_some, methodOf?_of_mem_possibleNames _ hname]
  rfl

/-- Where all files are descriptor files, nothing is generated yet. -/
theorem file?_artifact_of_descriptors (h : s.workingDir.isAbsolute = true)
    (hfiles : ∀ file ∈ s.files, isDescriptor file.1 = true) (group : Group) {name : String}
    (hname : name ∈ possibleNames) : s.file? (options.artifact s group name) = none := by
  have hpath : s.resolve (options.artifact s group name) = options.artifact s group name :=
    Path.resolve_of_isAbsolute _ (isAbsolute_artifact h group name)
  rw [Memory.file?, Option.map_eq_none_iff, List.find?_eq_none, hpath]
  intro file hfile hsame
  have hdescriptor := hfiles file hfile
  rw [isDescriptor_congr hsame, not_descriptor_artifact group hname] at hdescriptor
  cases hdescriptor

/-- Where nothing is out of date, a path holds what a run would write there. -/
theorem file?_of_clean (hclean : ¬ Stale s (rehearsed options s)) {q : Path} {content : String}
    (hcontent : (rehearsed options s).content? q = some content) : s.file? q = some content := by
  obtain ⟨w, hw, hsame, rfl⟩ := mem_of_content? hcontent
  by_contra hne
  exact hclean (stale_iff.mpr ⟨w, hw, by rwa [s.file?_congr hsame]⟩)

/-- **What a clean check tells.** If after a history of edits and runs nothing is out of date, then
a run in a fresh project with the same descriptor files succeeds, and each place for a generated
file of a group holds what that run would write there; where it would write nothing, it holds what
an earlier run wrote there last, or else what lay there at the start. -/
theorem artifacts_of_clean (h : start.workingDir.isAbsolute = true)
    (hist : History options start runs s) (hok : Succeeds options s)
    (hclean : ¬ Stale s (rehearsed options s)) (hfresh : Fresh options s fresh) :
    Succeeds options fresh ∧ ∀ group ∈ options.groupsIn s, ∀ name ∈ possibleNames,
      let path := options.artifact s group name
      s.file? path = ((ran options fresh).file? path).or
        ((lastWritten options runs path).or (start.file? path)) := by
  have hs : s.workingDir.isAbsolute = true := by rw [hist.workingDir_eq h, h]
  have hsame := hfresh.toSameDescriptors
  have hfreshDir : fresh.workingDir.isAbsolute = true := by rw [hsame.workingDir, hs]
  have hfreshOk := hsame.succeeds hs hok
  refine ⟨hfreshOk, fun group hgroup name hname => ?_⟩
  have hpath : (options.artifact s group name).isAbsolute = true :=
    isAbsolute_artifact hs group name
  have hran : (ran options fresh).file? (options.artifact s group name) =
      (rehearsed options s).content? (options.artifact s group name) := by
    rw [ran_eq hfreshDir, file?_perform (absolute_rehearsed hfreshDir hfreshOk) fresh hpath,
      hfresh.empty group hgroup name hname, hsame.content? hs hok, Option.or_none]
  have hheld := hist.file?_eq h hpath (not_descriptor_artifact group hname)
  dsimp only
  rw [hran, ← hheld]
  cases hcontent : (rehearsed options s).content? (options.artifact s group name) with
  | none => rw [Option.none_or]
  | some content => rw [file?_of_clean hclean hcontent, Option.some_or]

end checking

/-! ### A method replaced by another -/

/-- A project with one descriptor file. -/
def projectOf (method : Method) : Memory :=
  { workingDir := ⟨"/"⟩, files := [(⟨"/app/route." ++ method.token ++ ".config.ts"⟩, "")] }

/-- The same project after a run, with the descriptor file of another method instead. -/
def replaced (method other : Method) : Memory :=
  ((ran {} (projectOf method)).removeFile ⟨"/app/route." ++ method.token ++ ".config.ts"⟩).addFile
    ⟨"/app/route." ++ other.token ++ ".config.ts"⟩ ""

theorem succeeds_projectOf : Succeeds {} (projectOf .post) ∧ Succeeds {} (projectOf .get) :=
  ⟨succeeds_iff_readable.mpr (by decide +kernel), succeeds_iff_readable.mpr (by decide +kernel)⟩

/-- A run then sees what it sees in the fresh project. -/
theorem sameDescriptors_replaced : SameDescriptors (projectOf .get) (replaced .post .get) where
  workingDir := by
    rw [replaced, Memory.workingDir_addFile, Memory.workingDir_removeFile,
      workingDir_ran (by decide)]
    rfl
  descriptors := by decide +kernel

/-- Nor does the run that follows change that. -/
theorem sameDescriptors_ran_replaced :
    SameDescriptors (ran {} (replaced .post .get)) (projectOf .get) := by
  have hsame := sameDescriptors_replaced
  have h : (projectOf .get).workingDir.isAbsolute = true := by decide
  have hran := sameDescriptors_ran (hsame.workingDir ▸ h) (hsame.succeeds h succeeds_projectOf.2)
  exact ⟨(hran.workingDir.trans hsame.workingDir).symm,
    (hran.descriptors.trans hsame.descriptors).symm⟩

theorem history_replaced :
    History {} (projectOf .post) [replaced .post .get, projectOf .post]
      (ran {} (replaced .post .get)) := by
  have h : (projectOf .get).workingDir.isAbsolute = true := by decide
  have hget := sameDescriptors_replaced.succeeds h succeeds_projectOf.2
  have hdir : (ran {} (projectOf .post)).workingDir = ⟨"/"⟩ := workingDir_ran (by decide) {}
  have hdescriptor : ∀ path ∈ [⟨"/app/route.post.config.ts"⟩, ⟨"/app/route.get.config.ts"⟩],
      isDescriptor (Path.resolve ⟨"/"⟩ path) = true := List.all_eq_true.mp (by decide)
  have hremoved : History {} (projectOf .post) [projectOf .post]
      ((ran {} (projectOf .post)).removeFile ⟨"/app/route.post.config.ts"⟩) := by
    refine .remove _ (.run .start succeeds_projectOf.1) ?_
    rw [Memory.resolve, hdir]
    exact hdescriptor _ (by simp)
  refine .run (.put _ "" hremoved ?_) hget
  rw [Memory.resolve, Memory.workingDir_removeFile, hdir]
  exact hdescriptor ⟨"/app/route.get.config.ts"⟩ (by simp)

theorem clean_replaced : Succeeds {} (ran {} (replaced .post .get)) ∧
    ¬ Stale (ran {} (replaced .post .get)) (rehearsed {} (ran {} (replaced .post .get))) := by
  have hsame := sameDescriptors_replaced
  have hget : (projectOf .get).workingDir.isAbsolute = true := by decide
  have h : (replaced .post .get).workingDir.isAbsolute = true := hsame.workingDir ▸ hget
  have hok := hsame.succeeds hget succeeds_projectOf.2
  have hone : OneEach {} (replaced .post .get) := by
    unfold OneEach
    rw [hsame.foundIn]
    decide +kernel
  refine ⟨succeeds_ran h hok, ?_⟩
  rw [stale_ran_iff h hok]
  exact not_disagree (distinct_writes h hok (by decide +kernel) hone)

theorem fresh_replaced : Fresh {} (ran {} (replaced .post .get)) (projectOf .get) := by
  have hsame := sameDescriptors_ran_replaced
  refine ⟨hsame, fun group _ name hname => ?_⟩
  rw [Options.artifact, ← hsame.workingDir]
  exact file?_artifact_of_descriptors (by decide) (List.forall_mem_singleton.mpr (by decide)) group
    hname

/-- The hook of the method that is gone is still there, and nothing is told of it. -/
theorem artifacts_of_clean_replaced :
    let s := ran {} (replaced .post .get)
    ((projectOf .post).workingDir.isAbsolute = true ∧
      History {} (projectOf .post) [replaced .post .get, projectOf .post] s ∧ Succeeds {} s ∧
      ¬ Stale s (rehearsed {} s) ∧ Fresh {} s (projectOf .get)) ∧
    Succeeds {} (projectOf .get) ∧
      ∀ group ∈ Options.groupsIn {} s, ∀ name ∈ possibleNames,
        let path := Options.artifact {} s group name
        s.file? path = ((ran {} (projectOf .get)).file? path).or
          ((lastWritten {} [replaced .post .get, projectOf .post] path).or
            ((projectOf .post).file? path)) := by
  intro s
  have h : (projectOf .post).workingDir.isAbsolute = true := by decide +kernel
  exact ⟨⟨h, history_replaced, clean_replaced.1, clean_replaced.2, fresh_replaced⟩,
    artifacts_of_clean h history_replaced clean_replaced.1 clean_replaced.2 fresh_replaced⟩

/-- So a clean check does not tell that what is generated is what a run in a fresh project would
write. -/
theorem leftover_of_clean :
    ∃ (start s fresh : Memory) (runs : List Memory) (group : Group) (name : String),
      History {} start runs s ∧ Succeeds {} s ∧ ¬ Stale s (rehearsed {} s) ∧ Fresh {} s fresh ∧
        group ∈ Options.groupsIn {} s ∧ name ∈ possibleNames ∧
        (ran {} fresh).file? (Options.artifact {} s group name) = none ∧
        s.file? (Options.artifact {} s group name) ≠ none := by
  let group : Group :=
    ⟨⟨"app"⟩, [⟨⟨"app"⟩, .get, "route.get.config.ts", ⟨"/app/route.get.config.ts"⟩⟩]⟩
  have hpath : Options.artifact {} (ran {} (replaced .post .get)) group "use-post.ts" =
      ⟨"/app/.generated/use-post.ts"⟩ := by
    rw [Options.artifact, ← sameDescriptors_ran_replaced.workingDir]
    decide +kernel
  refine ⟨_, _, _, _, group, "use-post.ts", history_replaced, clean_replaced.1, clean_replaced.2,
    fresh_replaced, ?_, by decide +kernel, ?_, ?_⟩
  · rw [← sameDescriptors_ran_replaced.groupsIn]
    decide +kernel
  · rw [hpath]
    decide +kernel
  · have hwritten : ((rehearsed {} (projectOf .post)).content?
        ⟨"/app/.generated/use-post.ts"⟩).isSome = true := by decide +kernel
    obtain ⟨content, hcontent⟩ := Option.isSome_iff_exists.mp hwritten
    rw [hpath,
      history_replaced.file?_eq (by decide +kernel) (by decide +kernel) (by decide +kernel),
      lastWritten_cons, lastWritten_cons, hcontent]
    simp

end RouteScaffold.Run
