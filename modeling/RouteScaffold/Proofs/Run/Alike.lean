import RouteScaffold.Run

/-! Runs on stores that are alike.

A run knows its store only by its operations. So a relation between computations
that is kept by returning and by sequencing, and that holds between the
operations of two stores, holds between the runs on them (`plan_alike`,
`writeAll_alike`, `generate_alike`). Which relation that is remains open: that two
computations do the same, that one does no more than the other, that one rehearses
what the other does, or only that the first one fails in certain ways. -/
namespace RouteScaffold.Run
open Route Artifact Store

variable {m n : Type → Type} [Monad m] [Monad n]

/-- The relation holds between values that are returned, and computations in sequence are related
if their parts are. -/
structure Sequenced (R : (α : Type) → ExceptT Failure m α → ExceptT Failure n α → Prop) : Prop where
  pure {α : Type} (a : α) : R α (pure a) (pure a)
  bind {α β : Type} {x : ExceptT Failure m α} {y : ExceptT Failure n α}
    {f : α → ExceptT Failure m β} {g : α → ExceptT Failure n β} :
    R α x y → (∀ a, R β (f a) (g a)) → R β (x >>= f) (y >>= g)

/-- The relation also holds between failures that are thrown, whatever they are. -/
structure Kept (R : (α : Type) → ExceptT Failure m α → ExceptT Failure n α → Prop) : Prop
    extends Sequenced R where
  throw {α : Type} (failure : Failure) : R α (throw failure) (throw failure)

/-- Two stores answer alike whoever looks at them. -/
structure LooksAlike (R : (α : Type) → ExceptT Failure m α → ExceptT Failure n α → Prop)
    (first : Store m) (second : Store n) : Prop where
  workingDir : R Path (ExceptT.lift first.workingDir) (ExceptT.lift second.workingDir)
  glob (root : Path) (pattern : String) :
    R (List Path) (attempt root (first.glob root pattern)) (attempt root (second.glob root pattern))
  read (path : Path) : R String (attempt path (first.read path)) (attempt path (second.read path))

/-- Two stores behave alike when something is put at a path. -/
structure ChangesAlike (R : (α : Type) → ExceptT Failure m α → ExceptT Failure n α → Prop)
    (first : Store m) (second : Store n) (path : Path) : Prop where
  has : R Bool (ExceptT.lift (first.has path)) (ExceptT.lift (second.has path))
  makeDir : R Unit (attempt path (first.makeDir path)) (attempt path (second.makeDir path))
  write (content : String) :
    R Unit (attempt path (first.write path content)) (attempt path (second.write path content))

variable {R : (α : Type) → ExceptT Failure m α → ExceptT Failure n α → Prop}
  {first : Store m} {second : Store n}

/-! ### One file, one directory -/

theorem Sequenced.forM {α : Type} (hR : Sequenced R) {f : α → ExceptT Failure m Unit}
    {g : α → ExceptT Failure n Unit} {l : List α} (h : ∀ a ∈ l, R Unit (f a) (g a)) :
    R Unit (l.forM f) (l.forM g) := by
  induction l with
  | nil => exact hR.pure ()
  | cons a l ih =>
    exact hR.bind (h a (List.mem_cons_self ..)) fun _ =>
      ih fun c hc => h c (List.mem_cons_of_mem a hc)

/-- Reading any one file is alike on two stores. -/
def ReadsAlike (R : (α : Type) → ExceptT Failure m α → ExceptT Failure n α → Prop)
    (first : Store m) (second : Store n) : Prop :=
  ∀ path, R String (attempt path (first.read path)) (attempt path (second.read path))

theorem readDescriptor_alike (hR : Sequenced R) (h : ReadsAlike R first second)
    (file : DescriptorFile) :
    R Descriptor (readDescriptor first file) (readDescriptor second file) :=
  hR.bind (h file.location) fun _ => hR.pure _

/-- All paths at which something may be put for a planned directory. -/
def Planned.paths (planned : Planned) : List Path :=
  planned.outputPath :: planned.files.map fun file => planned.outputPath.join ⟨file.name⟩

theorem writePlanned_alike (hR : Sequenced R) {planned : Planned}
    (h : ∀ path ∈ planned.paths, ChangesAlike R first second path) :
    R Generated (writePlanned first planned) (writePlanned second planned) := by
  obtain ⟨hdir, hfiles⟩ := List.forall_mem_cons.mp h
  have hwrite : R Unit (planned.files.forM (writeFile first planned.outputPath))
      (planned.files.forM (writeFile second planned.outputPath)) :=
    hR.forM fun file hfile => (hfiles _ (List.mem_map_of_mem hfile)).write file.content
  have hrest := hR.bind hwrite fun _ =>
    hR.pure (Generated.mk planned.directory (planned.files.map (·.name)))
  refine hR.bind hdir.has fun there => ?_
  cases there with
  | true => exact hrest
  | false => exact hR.bind hdir.makeDir fun _ => hrest

/-! ### All of them -/

variable [LawfulMonad m] [LawfulMonad n]

theorem Sequenced.mapM {α β : Type} (hR : Sequenced R) {f : α → ExceptT Failure m β}
    {g : α → ExceptT Failure n β} {l : List α} (h : ∀ a ∈ l, R β (f a) (g a)) :
    R (List β) (l.mapM f) (l.mapM g) := by
  induction l with
  | nil => exact hR.pure []
  | cons a l ih =>
    rw [List.mapM_cons, List.mapM_cons]
    exact hR.bind (h a (List.mem_cons_self ..)) fun b =>
      hR.bind (ih fun c hc => h c (List.mem_cons_of_mem a hc)) fun bs => hR.pure (b :: bs)

/-- Where a run in a working directory looks for descriptors. -/
def Options.rootFrom (options : Options) (workingDir : Path) : Path :=
  match options.root with
  | some root => workingDir.resolve root
  | none => workingDir

theorem lift_rootIn (options : Options) (store : Store m) :
    (ExceptT.lift (options.rootIn store) : ExceptT Failure m Path) =
      ExceptT.lift store.workingDir >>= fun dir => pure (options.rootFrom dir) := by
  have hroot : options.rootIn store = options.rootFrom <$> store.workingDir :=
    (map_eq_pure_bind options.rootFrom store.workingDir).symm
  apply ExceptT.ext
  rw [hroot, ExceptT.run_lift, ExceptT.run_bind, ExceptT.run_lift, bind_map_left, ← comp_map,
    map_eq_pure_bind]
  rfl

theorem planGroup_alike (hR : Sequenced R) (h : ReadsAlike R first second)
    (fixed : Option Convention) (outputDir : String) (root : Path) (group : Group) :
    R Planned (planGroup first fixed outputDir root group)
      (planGroup second fixed outputDir root group) :=
  hR.bind (hR.mapM fun file _ => readDescriptor_alike hR h file) fun _ => hR.pure _

/-- **Stores that look alike give plans alike.** -/
theorem plan_alike (hR : Kept R) (h : LooksAlike R first second) (options : Options) :
    R (List Planned) (plan first options) (plan second options) := by
  have hchoose : R (Option Convention) (ExceptT.mk (pure (choose options.framework)))
      (ExceptT.mk (pure (choose options.framework))) := by
    cases choose options.framework with
    | ok fixed => exact hR.pure fixed
    | error failure => exact hR.throw failure
  refine hR.bind hchoose fun fixed => ?_
  rw [lift_rootIn, lift_rootIn]
  refine hR.bind (hR.bind h.workingDir fun dir => hR.pure _) fun root => ?_
  refine hR.bind (h.glob root options.pattern) fun candidates => ?_
  split
  next => exact hR.throw _
  next => exact hR.mapM fun group _ =>
      planGroup_alike hR.toSequenced h.read fixed options.outputDir root group

/-- **Stores that behave alike at the paths of a plan are written alike.** -/
theorem writeAll_alike (hR : Sequenced R) {plans : List Planned}
    (h : ∀ planned ∈ plans, ∀ path ∈ planned.paths, ChangesAlike R first second path) :
    R (List Generated) (plans.mapM (writePlanned first)) (plans.mapM (writePlanned second)) :=
  hR.mapM fun planned hplanned => writePlanned_alike hR (h planned hplanned)

/-- **Runs on stores that are alike are alike.** -/
theorem generate_alike (hR : Kept R) (hlooks : LooksAlike R first second)
    (hchanges : ∀ path, ChangesAlike R first second path) (options : Options) :
    R (List Generated) (generate first options) (generate second options) :=
  hR.bind (plan_alike hR hlooks options) fun _ =>
    writeAll_alike hR.toSequenced fun _ _ path _ => hchanges path

end RouteScaffold.Run
