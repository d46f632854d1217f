import RouteScaffold.Proofs.Artifact.FileNames
import RouteScaffold.Proofs.Artifact.Imports
import RouteScaffold.Proofs.Artifact.Segments
import RouteScaffold.Proofs.Route.Anchors

/-! The files that the two conventions emit.

Which files a route has, and in which order, depends on its methods and on whether a
request has a body. What both conventions emit is the same file in both; every module
starts with the marker, behind the server directive if it has one; and the readme of the
pages convention lists the files it stands beside and itself, which is read back from its
text (`filesListed?_readMe`). `Contract` says all of it, and `contract_of_nodup` that it
holds as soon as the descriptors have different methods. -/
namespace RouteScaffold.Artifact
open Route Text

/-! ### Reading a readme -/

def isHeading (line : List Char) : Bool := "## ".toList.isPrefixOf line

/-- The lines below the last heading of this text, as far as the next heading. The names of the
directory and of the route stand further up and may hold any text. -/
def sectionBelow (heading : String) (text : String) : List (List Char) :=
  ((separate (· == '\n') text.toList).rtakeWhile (· != heading.toList)).takeWhile (!isHeading ·)

/-- The name that an item of a list shows as code. -/
def listItem? (line : List Char) : Option String :=
  if "- `".toList.isPrefixOf line && line.getLast? == some '\x60' then
    some (String.ofList (line.drop 3).dropLast)
  else none

/-- The files that a readme lists. Nothing else may stand in its section but empty lines. -/
def filesListed? (text : String) : Option (List String) :=
  ((sectionBelow "## Files" text).filter (!·.isEmpty)).mapM listItem?

def listItem (name : String) : String := "- `" ++ name ++ "`"

theorem toList_listItem (name : String) :
    (listItem name).toList = "- `".toList ++ (name.toList ++ ['\x60']) := by
  simp [listItem]

theorem listItem?_listItem (name : String) : listItem? (listItem name).toList = some name := by
  rw [toList_listItem, listItem?, if_pos]
  · simp
  · rw [Bool.and_eq_true, List.isPrefixOf_iff_prefix, ← List.append_assoc, List.getLast?_concat]
    exact ⟨⟨name.toList ++ ['\x60'], (List.append_assoc ..).symm⟩, by simp⟩

theorem mapM_listItem (names : List String) :
    (names.map fun name => (listItem name).toList).mapM listItem? = some names := by
  induction names with
  | nil => rfl
  | cons name names ih => simp [List.mapM_cons, listItem?_listItem, ih]

/-- What stands below a heading that is not repeated is found again, whatever stands above it. -/
theorem rtakeWhile_unlines {heading : String} {below : List String}
    (hheading : '\n' ∉ heading.toList ∧ heading ≠ "")
    (hplain : ∀ line ∈ below, '\n' ∉ line.toList ∧ line ≠ heading) (above : List String) :
    (separate (· == '\n') (unlines (above ++ "" :: heading :: below)).toList).rtakeWhile
        (· != heading.toList) =
      below.map String.toList ++ [[]] := by
  have hbreakless : ∀ line ∈ heading :: below, '\n' ∉ line.toList :=
    List.forall_mem_cons.mpr ⟨hheading.1, fun line hline => (hplain line hline).1⟩
  have htext : (unlines (above ++ "" :: heading :: below)).toList =
      (unlines above).toList ++ '\n' :: (unlines (heading :: below)).toList := by
    rw [unlines_append]
    simp [unlines]
  have hlines : separate (· == '\n') (unlines (above ++ "" :: heading :: below)).toList =
      separate (· == '\n') (unlines above).toList ++
        heading.toList :: (below.map String.toList ++ [[]]) := by
    rw [htext, separate_append rfl, separate_unlines hbreakless]
    rfl
  -- Whatever the lines above hold, no later line is the heading, so it is the last one.
  have hlast : heading.toList ∉ below.map String.toList ++ [[]] := by
    rw [List.mem_append, List.mem_map, List.mem_singleton, String.toList_eq_nil_iff]
    rintro (⟨line, hline, heq⟩ | hempty)
    · exact (hplain line hline).2 (String.toList_inj.mp heq)
    · exact hheading.2 hempty
  rw [hlines, rtakeWhile_append_cons hlast]

/-- A section is found again below whatever text, if its heading is not repeated and the next line
with a heading follows it. -/
theorem sectionBelow_unlines {heading next : String} {inner rest : List String}
    (hheading : '\n' ∉ heading.toList ∧ heading ≠ "")
    (hplain : ∀ line ∈ inner ++ next :: rest, '\n' ∉ line.toList ∧ line ≠ heading)
    (hinner : ∀ line ∈ inner, isHeading line.toList = false)
    (hnext : isHeading next.toList = true) (above : List String) :
    sectionBelow heading (unlines (above ++ "" :: heading :: (inner ++ next :: rest))) =
      inner.map String.toList := by
  have hkept : ∀ line ∈ inner.map String.toList, (!isHeading line) = true :=
    List.forall_mem_map.mpr fun line hline => by rw [hinner line hline, Bool.not_false]
  rw [sectionBelow, rtakeWhile_unlines hheading hplain, List.map_append, List.append_assoc,
    List.takeWhile_append_of_pos hkept, List.map_cons, List.cons_append,
    List.takeWhile_cons_of_neg (p := (!isHeading ·)) (by simp [hnext]), List.append_nil]

/-- The last section reaches to the end of the text, behind the last line break. -/
theorem sectionBelow_unlines_last {heading : String} {inner : List String}
    (hheading : '\n' ∉ heading.toList ∧ heading ≠ "")
    (hplain : ∀ line ∈ inner, '\n' ∉ line.toList ∧ line ≠ heading)
    (hinner : ∀ line ∈ inner, isHeading line.toList = false) (above : List String) :
    sectionBelow heading (unlines (above ++ "" :: heading :: inner)) =
      inner.map String.toList ++ [[]] := by
  have hkept : ∀ line ∈ inner.map String.toList ++ [[]], (!isHeading line) = true := by
    refine List.forall_mem_append.mpr ⟨List.forall_mem_map.mpr fun line hline => ?_, by decide⟩
    rw [hinner line hline, Bool.not_false]
  rw [sectionBelow, rtakeWhile_unlines hheading hplain, List.takeWhile_eq_self_iff.mpr hkept]

/-- What stands in a readme below the list of files and the next heading. -/
def wiring : List String :=
  ["",
   "Re-export the handler from the API route file that owns this directory:",
   "",
   "```ts",
   "export \x7b default \x7d from \"" ++ handlerSpecifier ++ "\";",
   "```",
   "",
   "Server actions and form actions are not available in this convention; submit forms " ++
     "through the client or the generated hooks instead."]

theorem plain_wiring :
    ∀ line ∈ wiring, '\n' ∉ line.toList ∧ isHeading line.toList = false := by
  simp only [wiring, handlerSpecifier, List.forall_mem_cons, String.toList_append]
  repeat rw [String.toList_ofList]
  decide +kernel

theorem plain_listItem {name : String} (h : '\n' ∉ name.toList) :
    '\n' ∉ (listItem name).toList ∧ isHeading (listItem name).toList = false := by
  rw [toList_listItem]
  exact ⟨by simp [h], rfl⟩

/-- **The files that a readme lists are read back from its text**, whatever the directory and the
route are called. -/
theorem filesListed?_readMe (r : ReadMe) (h : ∀ name ∈ r.files, '\n' ∉ name.toList) :
    filesListed? r.text = some r.files := by
  let inner := "" :: (r.files.map listItem ++ [""])
  obtain ⟨above, habove⟩ : ∃ above, r.lines = above ++ ["", "## Files", ""] ++
      r.files.map listItem ++ "" :: "## Wiring" :: wiring := ⟨_, rfl⟩
  have hlines : r.lines = above ++ "" :: "## Files" :: (inner ++ "## Wiring" :: wiring) := by
    rw [habove]
    simp [inner]
  have hitem : ∀ line ∈ inner, '\n' ∉ line.toList ∧ isHeading line.toList = false := by
    refine List.forall_mem_cons.mpr ⟨by decide, List.forall_mem_append.mpr ⟨?_, by decide⟩⟩
    exact List.forall_mem_map.mpr fun name hname => plain_listItem (h name hname)
  have hplain : ∀ line ∈ inner ++ "## Wiring" :: wiring,
      '\n' ∉ line.toList ∧ line ≠ "## Files" := by
    refine List.forall_mem_append.mpr ⟨fun line hline => ⟨(hitem line hline).1, ?_⟩,
      List.forall_mem_cons.mpr ⟨by decide, fun line hline => ⟨(plain_wiring line hline).1, ?_⟩⟩⟩
    · rintro rfl
      exact absurd (hitem _ hline).2 (by decide)
    · rintro rfl
      exact absurd (plain_wiring _ hline).2 (by decide)
  have hsection : sectionBelow "## Files" r.text = inner.map String.toList := by
    rw [ReadMe.text, hlines]
    exact sectionBelow_unlines (by decide) hplain (fun line hline => (hitem line hline).2)
      (by decide) above
  have hsolid : (inner.map String.toList).filter (!·.isEmpty) =
      r.files.map fun name => (listItem name).toList := by
    simp [inner, toList_listItem, Function.comp_def]
  rw [filesListed?, hsection, hsolid]
  exact mapM_listItem r.files

/-! ### How modules start -/

/-- The module of this name runs on the server. -/
def IsServerFile (name : String) : Prop := name = "actions.ts" ∨ name = "form-actions.ts"

instance : DecidablePred IsServerFile := fun _ => inferInstanceAs (Decidable (_ ∨ _))

/-- The lines that a module of this name starts with. -/
def opening (name : String) : String :=
  (if IsServerFile name then "\"use server\";\n" else "") ++
    "// @generated by routegen. Do not edit.\n"

/-- A module starts with its marker, behind the directive if it has one. -/
theorem Script.exists_text (s : Script) :
    ∃ rest, s.text =
      (if s.onServer then serverDirective ++ "\n" else "") ++ (marker ++ "\n") ++ rest := by
  obtain ⟨rest, hrest⟩ : ∃ rest, s.lines =
      (if s.onServer then [serverDirective] else []) ++ [marker] ++ rest := by
    rw [Script.lines]
    split
    · exact ⟨_, by simp only [List.append_assoc]; rfl⟩
    · exact ⟨_, by simp only [List.append_assoc]; rfl⟩
  refine ⟨unlines rest, ?_⟩
  rw [Script.text, hrest, unlines_append, unlines_append]
  split <;> simp [unlines]

namespace Endpoint
variable {e : Endpoint}

theorem HasScript.onServer_iff {s : Script} (hs : e.HasScript s) :
    s.onServer = true ↔ IsServerFile s.name := by
  have hhook : ∀ m ∈ Method.all, ¬ IsServerFile (hookFile m) := by decide +kernel
  have hother : ∀ name ∈ [routeFile, handlerFile, clientFile, actionHooksFile, formActionHooksFile,
      formFieldsFile], ¬ IsServerFile name := by decide +kernel
  cases hs with
  | actions => exact iff_of_true rfl (.inl rfl)
  | formActions => exact iff_of_true rfl (.inr rfl)
  | hook => exact iff_of_false Bool.false_ne_true (hhook _ (Method.mem_all _))
  | _ => exact iff_of_false Bool.false_ne_true (hother _ (by
      simp [routeScript, handlerScript, clientScript, actionHooksScript, formActionHooksScript,
        formFieldsScript]))

/-- A module of a route starts as its name asks for. -/
theorem HasScript.opening_text {s : Script} (hs : e.HasScript s) :
    (opening s.name).toList <+: s.text.toList := by
  obtain ⟨rest, hrest⟩ := s.exists_text
  have hopening : opening s.name =
      (if s.onServer then serverDirective ++ "\n" else "") ++ (marker ++ "\n") := by
    rw [opening, if_congr hs.onServer_iff.symm rfl rfl]
    split <;> rfl
  rw [hrest, ← hopening, String.toList_append]
  exact List.prefix_append ..

end Endpoint

/-! ### Files of both conventions -/

namespace Endpoint
variable (e : Endpoint)

/-- What the pages convention emits, the app convention emits as well, but for two files. -/
theorem mem_files_app {file : File} (h : file ∈ e.files .pages) :
    file ∈ e.files .app ∨ file.name = handlerFile ∨ file.name = readMeFile := by
  have happ {s : Script} (hs : s ∈ e.scripts .app) : s.file ∈ e.files .app :=
    List.mem_map_of_mem hs
  rcases (e.mem_files_iff .pages).mp h with ⟨s, hs, rfl⟩ | ⟨-, rfl⟩
  · rw [scripts, List.cons_append, List.mem_cons, List.mem_append] at hs
    rcases hs with rfl | hs | hs
    · exact .inr (.inl rfl)
    · exact .inl (happ (List.mem_cons_of_mem _ (List.mem_append_left _ hs)))
    · split at hs
      next hbody =>
        obtain rfl := List.mem_singleton.mp hs
        refine .inl (happ ?_)
        simp [scripts, hbody]
      next => cases hs
  · exact .inr (.inr rfl)

theorem name_ne_of_mem_app {file : File} (h : file ∈ e.files .app) :
    file.name ≠ handlerFile ∧ file.name ≠ readMeFile := by
  have hhook : ∀ m ∈ Method.all, hookFile m ≠ handlerFile ∧ hookFile m ≠ readMeFile := by
    decide +kernel
  have hfixed : ∀ name ∈ namesBefore .app ++ namesAfter .app e.hasBody,
      name ≠ handlerFile ∧ name ≠ readMeFile := by
    cases e.hasBody <;> decide +kernel
  have hname := List.mem_map_of_mem (f := File.name) h
  rw [names_files, List.mem_append, List.mem_append] at hname
  rcases hname with (hname | hname) | hname
  · exact hfixed _ (List.mem_append_left _ hname)
  · obtain ⟨m, -, hm⟩ := List.mem_map.mp hname
    exact hm ▸ hhook m (Method.mem_all m)
  · exact hfixed _ (List.mem_append_right _ hname)

/-! ### The contract -/

/-- The names of the hooks of single methods, in the order of the descriptors. -/
def hookNames (e : Endpoint) : List String :=
  e.configs.map fun d => "use-" ++ d.method.token ++ ".ts"

theorem hookNames_eq : (e.configs.map Descriptor.method).map hookFile = e.hookNames := by
  rw [List.map_map]
  rfl

/-- A request has a body. -/
def WithBody (e : Endpoint) : Prop := ∃ d ∈ e.configs, d.body.declared = true

instance : Decidable e.WithBody := inferInstanceAs (Decidable (∃ d ∈ e.configs, _))

theorem hasBody_eq : e.hasBody = decide e.WithBody := by
  rw [Bool.eq_iff_iff, decide_eq_true_iff]
  exact List.any_eq_true

theorem files_readMe :
    (e.readMe (e.scripts .pages)).files = (e.files .pages).map File.name := by
  rw [readMe, files, List.map_append, List.map_map]
  rfl

theorem exists_readMe : ∃ readMe ∈ e.files .pages, readMe.name = "README.md" ∧
    filesListed? readMe.content = some ((e.files .pages).map File.name) := by
  have hplain : ∀ name ∈ possibleNames, '\n' ∉ name.toList := by decide +kernel
  have hlisted : filesListed? (e.readMe (e.scripts .pages)).text =
      some (e.readMe (e.scripts .pages)).files := by
    refine filesListed?_readMe _ fun name hname => hplain name ?_
    rw [files_readMe] at hname
    exact mem_possibleNames .pages e hname
  rw [files_readMe] at hlisted
  have hmem : ⟨readMeFile, (e.readMe (e.scripts .pages)).text⟩ ∈ e.files .pages :=
    (e.mem_files_iff .pages).mpr (.inr ⟨rfl, rfl⟩)
  refine ⟨_, hmem, rfl, ?_⟩
  dsimp only
  exact hlisted

end Endpoint

/-- The name has the extension of a module. -/
def IsScriptFile (name : String) : Prop :=
  ".ts".toList <:+ name.toList ∨ ".tsx".toList <:+ name.toList

namespace Endpoint

/-- What the files of a route owe under the two conventions. -/
structure Contract (e : Endpoint) : Prop where
  app : (e.files .app).map File.name = ["route.ts", "client.ts"] ++ e.hookNames ++
    if e.WithBody then
      ["actions.ts", "form-actions.ts", "use-actions.ts", "use-form-actions.ts", "form-fields.tsx"]
    else []
  pages : (e.files .pages).map File.name = ["handler.ts", "client.ts"] ++ e.hookNames ++
    (if e.WithBody then ["form-fields.tsx"] else []) ++ ["README.md"]
  distinct : ∀ convention, ((e.files convention).map File.name).Nodup
  /-- A name that both conventions use is the same file. -/
  shared : ∀ file ∈ e.files .app, ∀ other ∈ e.files .pages, file.name = other.name →
    file.content = other.content
  /-- All but the readme are modules. -/
  starts : ∀ convention, ∀ file ∈ e.files convention, IsScriptFile file.name →
    (opening file.name).toList <+: file.content.toList
  /-- The readme lists the files of its convention in their order, itself among them. -/
  listed : ∃ readMe ∈ e.files .pages, readMe.name = "README.md" ∧
    filesListed? readMe.content = some ((e.files .pages).map File.name)

variable {e : Endpoint}

/-- **Both conventions keep the contract** for descriptors of different methods. -/
theorem contract_of_nodup (h : (e.configs.map Descriptor.method).Nodup) : e.Contract where
  app := by
    rw [names_files, hookNames_eq, hasBody_eq]
    by_cases hbody : e.WithBody <;> simp only [hbody, decide_true, decide_false, if_true, if_false]
      <;> rfl
  pages := by
    rw [names_files, hookNames_eq, hasBody_eq]
    by_cases hbody : e.WithBody <;> simp only [hbody, decide_true, decide_false, if_true, if_false,
      List.append_assoc] <;> rfl
  distinct convention := nodup_names convention e h
  shared file hfile other hother hname := by
    have hother : other ∈ e.files .app := by
      obtain ⟨hhandler, hreadMe⟩ := e.name_ne_of_mem_app hfile
      rw [hname] at hhandler hreadMe
      exact (e.mem_files_app hother).resolve_right (not_or.mpr ⟨hhandler, hreadMe⟩)
    rw [List.inj_on_of_nodup_map (nodup_names .app e h) hfile hother hname]
  starts convention file hfile hscript := by
    have hreadMe : ¬ IsScriptFile readMeFile := by
      unfold IsScriptFile
      decide +kernel
    rcases (e.mem_files_iff convention).mp hfile with ⟨s, hs, rfl⟩ | ⟨-, rfl⟩
    · exact (hasScript_of_mem hs).opening_text
    · exact absurd hscript hreadMe
  listed := exists_readMe e

/-- A route with a method that has a body and one that has none. -/
theorem contract_of_nodup_posts :
    let post : Descriptor :=
      { method := .post, fileName := "route.post.config.ts", body := { declared := true } }
    let get : Descriptor := { method := .get, fileName := "route.get.config.ts" }
    let e : Endpoint := ⟨⟨"pages/posts"⟩, "/posts", [get, post]⟩
    ((e.configs.map Descriptor.method).Nodup ∧ e.WithBody) ∧ e.Contract := by
  intro post get e
  have h : (e.configs.map Descriptor.method).Nodup := by decide +kernel
  exact ⟨⟨h, by decide +kernel⟩, contract_of_nodup h⟩

end Endpoint
end RouteScaffold.Artifact
