import RouteScaffold.Artifact.Files
import RouteScaffold.Proofs.Path.Components
import RouteScaffold.Route.Scan

/-! The names of the files of a route.

A route has a few files under fixed names and one hook file for each of its
descriptors, which is named after the method. All of them can stand in a
directory, and none of them is named as a descriptor file
(`isName_of_mem_possibleNames`, `methodOf?_of_mem_possibleNames`). No two files have
one name unless two descriptors have one method (`nodup_names`). -/
namespace RouteScaffold.Artifact
open Route

/-- The names that do not come from a method. -/
def fixedNames : List String :=
  [routeFile, handlerFile, clientFile, actionsFile, formActionsFile, actionHooksFile,
    formActionHooksFile, formFieldsFile, readMeFile]

/-- All names that a file of a route can have. -/
def possibleNames : List String := fixedNames ++ Method.all.map hookFile

theorem hookFile_not_mem_fixedNames : ∀ method ∈ Method.all, hookFile method ∉ fixedNames := by
  decide

theorem hookFile_injective {m n : Method} (h : hookFile m = hookFile n) : m = n := by
  rw [hookFile, hookFile] at h
  exact Method.token_injective (String.append_right_inj _ |>.mp (String.append_left_inj _ |>.mp h))

theorem Script.content_file (s : Script) : s.file.content = s.text := rfl

namespace Endpoint

/-- The names of the files in front of the hooks of single methods. -/
def namesBefore : Convention → List String
  | .app => [routeFile, clientFile]
  | .pages => [handlerFile, clientFile]

/-- The names of the files behind the hooks of single methods. -/
def namesAfter (convention : Convention) (hasBody : Bool) : List String :=
  match convention, hasBody with
  | .app, true =>
    [actionsFile, formActionsFile, actionHooksFile, formActionHooksFile, formFieldsFile]
  | .app, false => []
  | .pages, true => [formFieldsFile, readMeFile]
  | .pages, false => [readMeFile]

theorem subset_fixedNames (convention : Convention) (hasBody : Bool) :
    namesBefore convention ++ namesAfter convention hasBody ⊆ fixedNames := by
  cases convention <;> cases hasBody <;> decide

variable (convention : Convention) (e : Endpoint)

/-- The names of the files of a route, in the order in which they are written. -/
theorem names_files :
    (e.files convention).map File.name =
      namesBefore convention ++ (e.configs.map Descriptor.method).map hookFile ++
        namesAfter convention e.hasBody := by
  have hscripts : ((e.scripts convention).map Script.file).map File.name =
      (e.scripts convention).map Script.name := by
    rw [List.map_map]
    rfl
  have hhooks : (e.configs.map e.hookScript).map Script.name =
      (e.configs.map Descriptor.method).map hookFile := by
    rw [List.map_map, List.map_map]
    rfl
  cases convention with
  | app =>
    rw [files, hscripts, scripts]
    cases e.hasBody <;>
      simp only [List.cons_append, List.map_append, List.map_cons, hhooks] <;> rfl
  | pages =>
    rw [files, List.map_append, hscripts, scripts]
    cases e.hasBody <;>
      simp only [List.cons_append, List.map_append, List.map_cons, hhooks, List.append_assoc] <;>
      rfl

theorem mem_possibleNames {name : String} (h : name ∈ (e.files convention).map File.name) :
    name ∈ possibleNames := by
  have hfixed := subset_fixedNames convention e.hasBody
  rw [names_files, List.mem_append, List.mem_append] at h
  rcases h with (h | h) | h
  · exact List.mem_append_left _ (hfixed (List.mem_append_left _ h))
  · obtain ⟨method, -, rfl⟩ := List.mem_map.mp h
    exact List.mem_append_right _ (List.mem_map_of_mem (Method.mem_all method))
  · exact List.mem_append_left _ (hfixed (List.mem_append_right _ h))

/-- If no two descriptors have one method, no two files have one name. -/
theorem nodup_names (h : (e.configs.map Descriptor.method).Nodup) :
    ((e.files convention).map File.name).Nodup := by
  have hhooks : ((e.configs.map Descriptor.method).map hookFile).Nodup :=
    List.pairwise_map.mpr (h.imp fun hne hsame => hne (hookFile_injective hsame))
  have hfixed : (namesBefore convention ++ namesAfter convention e.hasBody).Nodup := by
    cases convention <;> cases e.hasBody <;> decide
  rw [names_files, List.append_assoc]
  refine List.perm_append_comm_assoc .. |>.nodup_iff.mpr ?_
  refine List.nodup_append.mpr ⟨hhooks, hfixed, ?_⟩
  rintro _ hhook name hname rfl
  obtain ⟨method, -, rfl⟩ := List.mem_map.mp hhook
  exact hookFile_not_mem_fixedNames method (Method.mem_all method)
    (subset_fixedNames convention e.hasBody hname)

theorem name_hookScript (d : Descriptor) : (e.hookScript d).file.name = hookFile d.method := rfl

/-- Every descriptor has its hook file. -/
theorem hook_mem_files {d : Descriptor} (hd : d ∈ e.configs) :
    (e.hookScript d).file ∈ e.files convention := by
  have hhook : e.hookScript d ∈ e.clientScript :: e.configs.map e.hookScript :=
    List.mem_cons_of_mem _ (List.mem_map_of_mem hd)
  have hscript : e.hookScript d ∈ e.scripts convention := by
    cases convention <;>
      exact List.mem_cons_of_mem _ (List.mem_append_left _ hhook)
  cases convention with
  | app => exact List.mem_map_of_mem hscript
  | pages => exact List.mem_append_left _ (List.mem_map_of_mem hscript)

end Endpoint

theorem isName_of_mem_possibleNames : ∀ name ∈ possibleNames, Path.IsName name := by
  decide

theorem methodOf?_of_mem_possibleNames : ∀ name ∈ possibleNames, methodOf? name = none := by
  decide

end RouteScaffold.Artifact
