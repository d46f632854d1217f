import RouteScaffold.Proofs.Artifact.Emitted
import RouteScaffold.Proofs.Run.Confined

/-! What the readme says about the handler.

The readme of a route in the pages convention names the module to re-export, seen from
the directory of the route. It is rendered before it is known where the files go, and
names one place always (`wiredModules_readMe`), so the name leads to the handler that the
run writes exactly if the output directory has the name that it has by default
(`readMe_leads_iff`). -/
namespace RouteScaffold.Artifact

/-! ### Reading the section -/

/-- The module that a line of code exports from: what stands between its first two quotes. -/
def exportedModule? (line : List Char) : Option String :=
  if "export ".toList.isPrefixOf line then
    some (String.ofList (((line.dropWhile (· != '"')).drop 1).takeWhile (· != '"')))
  else none

/-- The modules that the wiring section of a readme exports from. -/
def wiredModules (text : String) : List String :=
  (sectionBelow "## Wiring" text).filterMap exportedModule?

/-- **Every readme names one module**, whatever it is about. -/
theorem wiredModules_readMe (r : ReadMe) : wiredModules r.text = [handlerSpecifier] := by
  obtain ⟨above, hlines⟩ : ∃ above, r.lines = above ++ "" :: "## Wiring" :: wiring :=
    ⟨_, by rw [ReadMe.lines, List.append_assoc _ ["", "## Files", ""], ← List.append_assoc]; rfl⟩
  have hplain : ∀ line ∈ wiring, '\n' ∉ line.toList ∧ line ≠ "## Wiring" := by
    refine fun line hline => ⟨(plain_wiring line hline).1, ?_⟩
    rintro rfl
    exact absurd (plain_wiring _ hline).2 (by decide)
  have hsection : sectionBelow "## Wiring" r.text = wiring.map String.toList ++ [[]] := by
    rw [ReadMe.text, hlines]
    exact sectionBelow_unlines_last (by decide) hplain
      (fun line hline => (plain_wiring line hline).2) above
  rw [wiredModules, hsection, wiring]
  simp only [List.map_cons, String.toList_append]
  repeat rw [String.toList_ofList]
  decide +kernel

end RouteScaffold.Artifact

namespace RouteScaffold.Run
open Route Artifact Store

/-- Going by its components from a directory, the specifier leads to the module, which has an
extension there. -/
def Specifies (home : Path) (specifier : String) (module : Path) : Prop :=
  ∃ front name, module.components = front ++ [.normal (name ++ ".ts")] ∧
    Path.followedFrom home.components ⟨specifier⟩ = front ++ [.normal name]

/-- The directory of a group, below the root of the run. -/
def Options.homeOf (options : Options) (s : Memory) (group : Group) : Path :=
  (options.rootFrom s.workingDir).join group.directory

/-- The place of a file that is generated for a group. -/
def Options.outputOf (options : Options) (s : Memory) (group : Group) (name : String) : Path :=
  ((options.homeOf s group).join ⟨options.outputDir⟩).join ⟨name⟩

/-- What a run without faults writes. -/
def Options.writtenIn (options : Options) (s : Memory) : List (Path × String) :=
  Log.written (observedRun .never options s).log

section leading
variable {options : Options} {s : Memory} {group : Group} {fixed : Option Convention}

/-- Where the specifier of every readme leads. -/
theorem followedFrom_handler (home : Path) :
    Path.followedFrom home.components ⟨handlerSpecifier⟩ =
      home.components ++ [.normal ".generated", .normal "handler"] := by
  have hcomponents : (⟨handlerSpecifier⟩ : Path).components =
      [.current, .normal ".generated", .normal "handler"] := by
    decide
  rw [Path.followedFrom, hcomponents]
  simp [Path.Component.followedFrom]

theorem components_outputOf (hdir : Path.IsName options.outputDir)
    (hgroup : group ∈ options.groupsIn s) {name : String} (hname : Path.IsName name) :
    (options.outputOf s group name).components =
      (options.homeOf s group).components ++ [.normal options.outputDir, .normal name] := by
  rw [Options.homeOf, components_group hgroup]
  exact components_output hdir hgroup hname

/-- The specifier of every readme leads to the handler of a group exactly if the output directory
has this one name. -/
theorem specifies_handler_iff (hdir : Path.IsName options.outputDir)
    (hgroup : group ∈ options.groupsIn s) :
    Specifies (options.homeOf s group) handlerSpecifier (options.outputOf s group "handler.ts") ↔
      options.outputDir = ".generated" := by
  have hname : Path.IsName "handler.ts" := by decide
  unfold Specifies
  rw [components_outputOf hdir hgroup hname, followedFrom_handler]
  constructor
  · rintro ⟨front, name, hmodule, hfollowed⟩
    -- What stands in front of the last name is the same on both ways.
    have houtput := (List.append_inj' (hmodule.symm.trans (List.append_cons ..)) rfl).1
    have hled := (List.append_inj' (hfollowed.symm.trans (List.append_cons ..)) rfl).1
    simpa using List.append_cancel_left (houtput.symm.trans hled)
  · intro heq
    refine ⟨(options.homeOf s group).components ++ [.normal ".generated"], "handler", ?_, ?_⟩
    · rw [heq, List.append_cons]
      rfl
    · rw [List.append_cons]

theorem mem_writtenIn (hok : Succeeds options s) (hchoose : choose options.framework = .ok fixed)
    (hgroup : group ∈ options.groupsIn s) {name content : String}
    (hfile : ⟨name, content⟩ ∈
      (endpointOf fixed s group).files (conventionOf fixed group.directory)) :
    (options.outputOf s group name, content) ∈ options.writtenIn s := by
  obtain ⟨fixed', log, s', hchoose', hrun, hwritten⟩ := observedRun_never (succeeds_iff.mp hok)
  obtain rfl : fixed' = fixed := Except.ok.inj (hchoose'.symm.trans hchoose)
  rw [Options.writtenIn, hrun, hwritten, plansIn_eq, List.flatMap_map, List.mem_flatMap]
  exact ⟨group, hgroup, List.mem_map.mpr ⟨_, hfile, rfl⟩⟩

/-- A run writes for a group in the pages convention a handler and a readme. -/
theorem exists_written_pages (hok : Succeeds options s)
    (hchoose : choose options.framework = .ok fixed) (hgroup : group ∈ options.groupsIn s)
    (hpages : conventionOf fixed group.directory = .pages) :
    (∃ handler, (options.outputOf s group "handler.ts", handler) ∈ options.writtenIn s) ∧
      ∃ readMe, (options.outputOf s group "README.md", readMe) ∈ options.writtenIn s ∧
        wiredModules readMe = [handlerSpecifier] := by
  obtain ⟨e, he⟩ : ∃ e, endpointOf fixed s group = e := ⟨_, rfl⟩
  have hhandler : ⟨"handler.ts", e.handlerScript.text⟩ ∈ e.files .pages :=
    (e.mem_files_iff .pages).mpr (.inl ⟨_, List.mem_cons_self .., rfl⟩)
  have hreadMe : ⟨"README.md", (e.readMe (e.scripts .pages)).text⟩ ∈ e.files .pages :=
    (e.mem_files_iff .pages).mpr (.inr ⟨rfl, rfl⟩)
  rw [← he, ← hpages] at hhandler hreadMe
  exact ⟨⟨_, mem_writtenIn hok hchoose hgroup hhandler⟩,
    _, mem_writtenIn hok hchoose hgroup hreadMe, wiredModules_readMe _⟩

end leading

/-- **The readme points at the handler exactly if the output directory has its usual name**: for
accepted settings, a run that succeeds writes for each group in the pages convention a handler and a
readme, of which the wiring section names one module, and seen from the directory of the group that
is the handler exactly for `.generated`. -/
theorem readMe_leads_iff {settings : Settings} {s : Memory} {fixed : Option Convention}
    {group : Group} (haccepted : settings.defect? = none) (hok : Succeeds settings.options s)
    (hchoose : choose settings.options.framework = .ok fixed)
    (hgroup : group ∈ settings.options.groupsIn s)
    (hpages : conventionOf fixed group.directory = .pages) :
    (∃ handler,
      (settings.options.outputOf s group "handler.ts", handler) ∈ settings.options.writtenIn s) ∧
    ∃ readMe specifier,
      (settings.options.outputOf s group "README.md", readMe) ∈ settings.options.writtenIn s ∧
      wiredModules readMe = [specifier] ∧
      (Specifies (settings.options.homeOf s group) specifier
        (settings.options.outputOf s group "handler.ts") ↔ settings.outputDir = ".generated") := by
  obtain ⟨hhandler, readMe, hwritten, hwired⟩ := exists_written_pages hok hchoose hgroup hpages
  exact ⟨hhandler, readMe, _, hwritten, hwired,
    specifies_handler_iff (isName_outputDir haccepted) hgroup⟩

/-- A project of which the root lies beside the working directory. -/
theorem readMe_leads_iff_beside :
    let settings : Settings := ({} : Settings).override { root := some ⟨"../web"⟩ }
    let s : Memory := {
      workingDir := ⟨"/work"⟩
      files := [(⟨"/work/../web/pages/api/route.get.config.ts"⟩, "")] }
    let group : Group := {
      directory := ⟨"pages/api"⟩
      files := [{
        directory := ⟨"pages/api"⟩
        method := .get
        fileName := "route.get.config.ts"
        location := ⟨"/work/../web/pages/api/route.get.config.ts"⟩ }] }
    (settings.defect? = none ∧ Succeeds settings.options s ∧
      choose settings.options.framework = .ok none ∧ group ∈ settings.options.groupsIn s ∧
      conventionOf none group.directory = .pages) ∧
    (∃ handler,
      (settings.options.outputOf s group "handler.ts", handler) ∈ settings.options.writtenIn s) ∧
    ∃ readMe specifier,
      (settings.options.outputOf s group "README.md", readMe) ∈ settings.options.writtenIn s ∧
      wiredModules readMe = [specifier] ∧
      (Specifies (settings.options.homeOf s group) specifier
        (settings.options.outputOf s group "handler.ts") ↔ settings.outputDir = ".generated") := by
  intro settings s group
  have haccepted : settings.defect? = none := by decide +kernel
  have hok : Succeeds settings.options s := succeeds_iff_readable.mpr (by decide +kernel)
  have hchoose : choose settings.options.framework = .ok none := rfl
  have hgroup : group ∈ settings.options.groupsIn s := by decide +kernel
  have hpages : conventionOf none group.directory = .pages := by decide +kernel
  exact ⟨⟨haccepted, hok, hchoose, hgroup, hpages⟩,
    readMe_leads_iff haccepted hok hchoose hgroup hpages⟩

/-- With another output directory, the readme names a place where the run writes nothing. -/
theorem readMe_misses_handler :
    let settings : Settings := ({} : Settings).override { outputDir := some "out" }
    let s : Memory := {
      workingDir := ⟨"/work"⟩
      files := [(⟨"/work/pages/api/route.get.config.ts"⟩, "")] }
    let group : Group := {
      directory := ⟨"pages/api"⟩
      files := [{
        directory := ⟨"pages/api"⟩
        method := .get
        fileName := "route.get.config.ts"
        location := ⟨"/work/./pages/api/route.get.config.ts"⟩ }] }
    (settings.defect? = none ∧ Succeeds settings.options s ∧
      choose settings.options.framework = .ok none ∧ group ∈ settings.options.groupsIn s ∧
      conventionOf none group.directory = .pages) ∧
    (∃ handler,
      (settings.options.outputOf s group "handler.ts", handler) ∈ settings.options.writtenIn s) ∧
    ∃ readMe,
      (settings.options.outputOf s group "README.md", readMe) ∈ settings.options.writtenIn s ∧
      wiredModules readMe = ["./.generated/handler"] ∧
      ¬ Specifies (settings.options.homeOf s group) "./.generated/handler"
        (settings.options.outputOf s group "handler.ts") := by
  intro settings s group
  have hok : Succeeds settings.options s := succeeds_iff_readable.mpr (by decide +kernel)
  have hchoose : choose settings.options.framework = .ok none := rfl
  have hgroup : group ∈ settings.options.groupsIn s := by decide +kernel
  have hpages : conventionOf none group.directory = .pages := by decide +kernel
  have hdir : Path.IsName settings.options.outputDir := by decide
  have hother : settings.options.outputDir ≠ ".generated" := by decide
  obtain ⟨hhandler, readMe, hwritten, hwired⟩ := exists_written_pages hok hchoose hgroup hpages
  exact ⟨⟨by decide +kernel, hok, hchoose, hgroup, hpages⟩, hhandler, readMe, hwritten, hwired,
    fun h => hother ((specifies_handler_iff hdir hgroup).mp h)⟩

end RouteScaffold.Run
