import Mathlib.Data.List.Nodup
import RouteScaffold.Proofs.Artifact.Templates
import RouteScaffold.Proofs.Route.Groups
import RouteScaffold.Proofs.Source.Facets

/-! No name twice.

Whatever a module imports or declares, no name is bound twice in it, no class has two
methods of one name, and no two files of a route have one name, as long as no two
descriptors have one method; and if two have, then all of this fails
(`distinct_iff`). For a directory that a scan finds, that is a matter of the
candidates: whether it is proposed with two descriptor files of one method
(`distinct_iff_nodup_methodsIn`). It can be, since the extension of a descriptor file
is free (`not_distinct_extensions`). -/
namespace RouteScaffold.Artifact
open Route Text

/-- No name is bound twice in the module, and no method of a class is declared twice. -/
structure Script.Distinct (s : Script) : Prop where
  names : (s.lines.flatMap declaredIn).Nodup
  methods : ∀ name methods, .client name methods ∈ s.declarations →
    ((clientLines name methods).flatMap methodIn).Nodup

namespace Endpoint

variable {e : Endpoint}

/-! ### The client's class -/

/-- A class has the methods of all descriptors. -/
theorem HasScript.methods_client {s : Script} (hs : e.HasScript s) {name : String}
    {methods : List ClientMethod} (h : .client name methods ∈ s.declarations) :
    methods = e.configs.map e.clientMethod := by
  cases hs with
  | client =>
    simp only [clientScript, List.mem_append, List.mem_flatMap, List.mem_cons,
      List.not_mem_nil, or_false] at h
    simp only [reduceCtorEq, or_self, and_false, exists_false, false_or,
      Declaration.client.injEq] at h
    exact h.2
  | hook hd =>
    simp only [hookScript, List.mem_cons, List.not_mem_nil, or_false] at h
    split at h <;> simp at h
  | route | handler | actions | formActions | actionHooks | formActionHooks =>
    simp [routeScript, handlerScript, actionsScript, formActionsScript, actionHooksScript,
      formActionHooksScript] at h
  | formFields => simp [formFieldsScript] at h

theorem methodIn_client (e : Endpoint) (name : String) :
    (clientLines name (e.configs.map e.clientMethod)).flatMap methodIn =
      (e.configs.map Descriptor.method).map Method.token ++ ["request"] := by
  rw [methodIn_clientLines, List.map_map, List.map_map]
  rfl

theorem nodup_tokens_iff {methods : List Method} :
    (methods.map Method.token ++ ["request"]).Nodup ↔ methods.Nodup := by
  have hrequest : ∀ token ∈ methods.map Method.token, token ≠ "request" :=
    List.forall_mem_map.mpr fun m _ => by cases m <;> decide
  have htokens : (methods.map Method.token).Nodup ↔ methods.Nodup :=
    List.nodup_map_iff fun _ _ => Method.token_injective
  rw [List.nodup_append, htokens]
  simpa using fun (_ : methods.Nodup) => hrequest

/-! ### The modules of a route -/

theorem HasScript.distinct {s : Script} (hs : e.HasScript s)
    (h : (e.configs.map Descriptor.method).Nodup) : s.Distinct where
  names := by
    rw [hs.declaredIn_lines]
    exact hs.nodup_names h
  methods name methods hclient := by
    obtain rfl := hs.methods_client hclient
    rw [e.methodIn_client]
    exact nodup_tokens_iff.mpr h

variable (e) (convention : Convention)

theorem nodup_names_iff :
    ((e.files convention).map File.name).Nodup ↔ (e.configs.map Descriptor.method).Nodup := by
  refine ⟨fun h => ?_, e.nodup_names convention⟩
  rw [names_files, List.append_assoc] at h
  have hhooks := (List.nodup_append.mp (List.nodup_append.mp h).2.1).1
  exact hhooks.of_map _

/-- The names in the modules of a route, and those of its files, are different exactly if no two
descriptors have one method. -/
theorem distinct_iff :
    ((∀ s ∈ e.scripts convention, s.Distinct) ↔ (e.configs.map Descriptor.method).Nodup) ∧
      (((e.files convention).map File.name).Nodup ↔
        (e.configs.map Descriptor.method).Nodup) := by
  refine ⟨⟨fun h => ?_, fun h s hs => (hasScript_of_mem hs).distinct h⟩,
    e.nodup_names_iff convention⟩
  have hclient := (h _ (e.clientScript_mem_scripts convention)).methods _ _ client_mem_declarations
  rw [e.methodIn_client] at hclient
  exact nodup_tokens_iff.mp hclient

end Endpoint

/-! ### The directories that a scan finds -/

/-- The endpoint of a group, with what its files say. -/
def endpointOf (convention : Convention) (source : DescriptorFile → String) (group : Group) :
    Endpoint :=
  .ofDirectory convention group.directory
    (group.files.map fun file => .ofSource file.method file.fileName (source file))

theorem methods_endpointOf (convention : Convention) (source : DescriptorFile → String)
    (group : Group) : (endpointOf convention source group).configs.map Descriptor.method =
      group.files.map DescriptorFile.method := by
  rw [endpointOf, Endpoint.ofDirectory, List.map_map]
  exact List.map_congr_left fun file _ => Source.method_ofSource _ _ _

theorem nodup_methods_iff {root : Path} {candidates : List Path} {group : Group}
    (hgroup : group ∈ groupsOf root candidates) (source : DescriptorFile → String)
    (convention : Convention) :
    ((endpointOf convention source group).configs.map Descriptor.method).Nodup ↔
      (methodsIn group.directory candidates).Nodup := by
  rw [methods_endpointOf]
  exact (perm_methodsIn hgroup).nodup_iff

/-- **No generated module binds a name twice**, and no two files of a directory have one name,
exactly if no two candidates of the directory are descriptor files of one method. -/
theorem distinct_iff_nodup_methodsIn {root : Path} {candidates : List Path} {group : Group}
    (hgroup : group ∈ groupsOf root candidates) (source : DescriptorFile → String)
    (convention : Convention) :
    let e := endpointOf convention source group
    ((∀ s ∈ e.scripts convention, s.Distinct) ↔
        (methodsIn group.directory candidates).Nodup) ∧
      (((e.files convention).map File.name).Nodup ↔
        (methodsIn group.directory candidates).Nodup) := by
  intro e
  rw [← nodup_methods_iff hgroup source convention]
  exact e.distinct_iff convention

/-- A directory that is proposed with two methods, in two spellings. -/
theorem distinct_iff_nodup_methodsIn_posts :
    let root : Path := ⟨"/project"⟩
    let candidates : List Path :=
      [⟨"app/posts/route.post.config.ts"⟩, ⟨"app/./posts/route.delete.config.js"⟩]
    let source (_ : DescriptorFile) : String :=
      "export const requestValidator = f(\x7b body: p \x7d);\n"
    ∃ group ∈ groupsOf root candidates,
      let e := endpointOf .app source group
      (∀ s ∈ e.scripts .app, s.Distinct) ∧ ((e.files .app).map File.name).Nodup := by
  intro root candidates source
  let first : DescriptorFile :=
    ⟨⟨"app/posts"⟩, .post, "route.post.config.ts", root.join candidates[0]⟩
  let second : DescriptorFile :=
    ⟨⟨"app/./posts"⟩, .delete, "route.delete.config.js", root.join candidates[1]⟩
  have hcollect : collect (candidates.filterMap (DescriptorFile.ofCandidate? root)) =
      [⟨⟨"app/posts"⟩, [first, second]⟩] := by
    decide +kernel
  have hgroup : Group.sorted ⟨⟨"app/posts"⟩, [first, second]⟩ ∈ groupsOf root candidates := by
    rw [groupsOf_eq, hcollect]
    exact List.mem_singleton_self _
  have hone : (methodsIn ⟨"app/posts"⟩ candidates).Nodup := by decide +kernel
  have h := distinct_iff_nodup_methodsIn hgroup source .app
  exact ⟨_, hgroup, h.1.mpr hone, h.2.mpr hone⟩

/-- One method in two extensions: whatever the descriptor files say and whichever convention is
followed, a name is bound twice, and two files have one name. -/
theorem not_distinct_extensions :
    let root : Path := ⟨"/project"⟩
    let candidates : List Path := [⟨"app/route.get.config.js"⟩, ⟨"app/route.get.config.ts"⟩]
    ∃ group ∈ groupsOf root candidates, ∀ source convention,
      let e := endpointOf convention source group
      (¬ ∀ s ∈ e.scripts convention, s.Distinct) ∧
        ¬ ((e.files convention).map File.name).Nodup := by
  intro root candidates
  let js : DescriptorFile := ⟨⟨"app"⟩, .get, "route.get.config.js", root.join candidates[0]⟩
  let ts : DescriptorFile := ⟨⟨"app"⟩, .get, "route.get.config.ts", root.join candidates[1]⟩
  have hcollect : collect (candidates.filterMap (DescriptorFile.ofCandidate? root)) =
      [⟨⟨"app"⟩, [js, ts]⟩] := by
    decide +kernel
  have hgroup : Group.sorted ⟨⟨"app"⟩, [js, ts]⟩ ∈ groupsOf root candidates := by
    rw [groupsOf_eq, hcollect]
    exact List.mem_singleton_self _
  have htwo : ¬ (methodsIn ⟨"app"⟩ candidates).Nodup := by decide +kernel
  refine ⟨_, hgroup, fun source convention => ?_⟩
  have hmethods := nodup_methods_iff hgroup source convention
  have hiff := (endpointOf convention source (Group.sorted ⟨⟨"app"⟩, [js, ts]⟩)).distinct_iff
    convention
  exact ⟨fun h => htwo (hmethods.mp (hiff.1.mp h)), fun h => htwo (hmethods.mp (hiff.2.mp h))⟩

end RouteScaffold.Artifact
