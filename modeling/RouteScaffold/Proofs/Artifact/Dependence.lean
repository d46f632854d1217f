import RouteScaffold.Artifact.Files
import RouteScaffold.Proofs.Route.Anchors

/-! What the files of a route depend on.

A hook depends on its descriptor and on the path of the route, and the modules for the
requests with a body on the path and on the descriptors that have one (`SameBodies`). The
directory itself is in none of the app convention's files. So route groups and slots, of
which the path is free, are not seen in them (`files_interspersed`), and a descriptor
without a body adds its hook and leaves the other files but two as they are
(`files_insert_bodiless`). -/
namespace RouteScaffold.Artifact
open Route

namespace Endpoint
variable {e e' : Endpoint}

/-! ### What is the same for two endpoints -/

theorem hookScript_congr (h : e.path = e'.path) (d : Descriptor) :
    e.hookScript d = e'.hookScript d := by
  obtain ⟨directory, path, configs⟩ := e
  obtain ⟨directory', path', configs'⟩ := e'
  obtain rfl : path = path' := h
  rfl

/-- The endpoints have one path and the same descriptors with a body. -/
structure SameBodies (e e' : Endpoint) : Prop where
  path : e.path = e'.path
  bodyConfigs : e.bodyConfigs = e'.bodyConfigs

/-- The modules that the app convention has for the requests with a body. -/
def bodyScripts (e : Endpoint) : List Script :=
  [e.actionsScript, e.formActionsScript, e.actionHooksScript, e.formActionHooksScript,
    e.formFieldsScript]

theorem SameBodies.bodyScripts (h : SameBodies e e') : e.bodyScripts = e'.bodyScripts := by
  obtain ⟨directory, path, configs⟩ := e
  obtain ⟨directory', path', configs'⟩ := e'
  obtain ⟨hpath, hbody⟩ := h
  obtain rfl : path = path' := hpath
  -- The other descriptors are still in the endpoints, but no module here reads them.
  simp only [Endpoint.bodyScripts, actionsScript, formActionsScript, actionHooksScript,
    formActionHooksScript, formFieldsScript, serverImports, bodyTypesImport, hbody]
  rfl

theorem SameBodies.hasBody (h : SameBodies e e') : e.hasBody = e'.hasBody := by
  rw [Bool.eq_iff_iff, hasBody_iff, hasBody_iff, h.bodyConfigs]

theorem files_app (e : Endpoint) :
    e.files .app = e.routeScript.file :: e.clientScript.file ::
      (e.configs.map (fun d => (e.hookScript d).file) ++
        if e.hasBody then e.bodyScripts.map Script.file else []) := by
  rw [files, scripts]
  split <;> simp [Endpoint.bodyScripts, List.map_map, Function.comp_def]

/-! ### Route groups and slots -/

/-- The app convention's files do not depend on the directory but through the path. -/
theorem files_app_congr (hpath : e.path = e'.path) (hconfigs : e.configs = e'.configs) :
    e.files .app = e'.files .app := by
  obtain ⟨directory, path, configs⟩ := e
  obtain ⟨directory', path', configs'⟩ := e'
  obtain rfl : path = path' := hpath
  obtain rfl : configs = configs' := hconfigs
  rfl

end Endpoint

/-- **Route groups and slots are invisible.** Wherever and in which number they are put into the
names of a directory, the same convention is told from it, and in the app convention it has the same
route path and, with the same descriptors, the same files. -/
theorem files_interspersed {directory directory' : Path}
    (h : Convention.Interspersed directory.names directory'.names) (configs : List Descriptor) :
    Convention.ofDirectory directory' = Convention.ofDirectory directory ∧
    Convention.app.routePath directory' = Convention.app.routePath directory ∧
    (Endpoint.ofDirectory .app directory' configs).files .app =
      (Endpoint.ofDirectory .app directory configs).files .app :=
  ⟨h.ofDirectory, h.routePath, Endpoint.files_app_congr h.routePath rfl⟩

/-- Groups and slots in front of the marker, between the marker and a dynamic segment, and behind
it. -/
theorem files_interspersed_posts :
    let directory : Path := ⟨"src/app/posts/[postId]"⟩
    let directory' : Path := ⟨"(a)/src/app/(shop)/@modal/posts/[postId]/@tab"⟩
    Convention.Interspersed directory.names directory'.names ∧
      ∀ configs : List Descriptor,
        Convention.ofDirectory directory' = Convention.ofDirectory directory ∧
        Convention.app.routePath directory' = Convention.app.routePath directory ∧
        (Endpoint.ofDirectory .app directory' configs).files .app =
          (Endpoint.ofDirectory .app directory configs).files .app := by
  intro directory directory'
  have hnames : directory.names = ["src", "app", "posts", "[postId]"] := by decide +kernel
  have hnames' : directory'.names =
      ["(a)", "src", "app", "(shop)", "@modal", "posts", "[postId]", "@tab"] := by decide +kernel
  have h : Convention.Interspersed directory.names directory'.names := by
    rw [hnames, hnames']
    refine .insert (.group "a") (.keep _ (.keep _ (.insert (.group "shop") ?_)))
    exact .insert (.slot "modal") (.keep _ (.keep _ (.insert (.slot "tab") .nil)))
  exact ⟨h, files_interspersed h⟩

/-! ### A descriptor without a body -/

namespace Endpoint

/-- **A descriptor without a body adds its hook.** Wherever it is put among the descriptors, the
app convention's files stay in their order, all of them but the entry and the client stay as they
are, and the one new file is its hook, behind the hooks of the descriptors in front of it. -/
theorem files_insert_bodiless (directory : Path) (path : String) (front back : List Descriptor)
    {d : Descriptor} (h : d.body.declared = false) :
    let before : Endpoint := ⟨directory, path, front ++ back⟩
    let after : Endpoint := ⟨directory, path, front ++ d :: back⟩
    ∃ route client route' client' hook : File, ∃ hooks rest : List File,
      before.files .app = route :: client :: (hooks ++ rest) ∧
      after.files .app = route' :: client' :: (hooks ++ hook :: rest) ∧
      (route.name = "route.ts" ∧ route'.name = "route.ts") ∧
      (client.name = "client.ts" ∧ client'.name = "client.ts") ∧
      hook.name = "use-" ++ d.method.token ++ ".ts" ∧
      hooks.map File.name = front.map fun d => "use-" ++ d.method.token ++ ".ts" := by
  intro before after
  have hsame : SameBodies before after := by
    refine ⟨rfl, ?_⟩
    show (front ++ back).filter _ = (front ++ d :: back).filter _
    rw [List.filter_append, List.filter_append, List.filter_cons_of_neg (by simp [h])]
  have hhook (d : Descriptor) : before.hookScript d = after.hookScript d := hookScript_congr rfl d
  refine ⟨before.routeScript.file, before.clientScript.file, after.routeScript.file,
    after.clientScript.file, (after.hookScript d).file,
    front.map fun d => (after.hookScript d).file,
    back.map (fun d => (after.hookScript d).file) ++
      if after.hasBody then after.bodyScripts.map Script.file else [],
    ?_, ?_, ⟨rfl, rfl⟩, ⟨rfl, rfl⟩, rfl, ?_⟩
  · rw [files_app, hsame.hasBody, hsame.bodyScripts]
    simp only [hhook, before, List.map_append, List.append_assoc]
  · rw [files_app]
    simp only [after, List.map_append, List.map_cons, List.append_assoc, List.cons_append]
  · rw [List.map_map]
    rfl

/-- Between two methods with a body. -/
theorem files_insert_bodiless_delete :
    let post : Descriptor :=
      { method := .post, fileName := "route.post.config.ts", body := { declared := true } }
    let put : Descriptor :=
      { method := .put, fileName := "route.put.config.ts", body := { declared := true } }
    let delete : Descriptor := { method := .delete, fileName := "route.delete.config.ts" }
    let before : Endpoint := ⟨⟨"app/posts"⟩, "/posts", [post] ++ [put]⟩
    let after : Endpoint := ⟨⟨"app/posts"⟩, "/posts", [post] ++ delete :: [put]⟩
    delete.body.declared = false ∧
      ∃ route client route' client' hook : File, ∃ hooks rest : List File,
        before.files .app = route :: client :: (hooks ++ rest) ∧
        after.files .app = route' :: client' :: (hooks ++ hook :: rest) ∧
        (route.name = "route.ts" ∧ route'.name = "route.ts") ∧
        (client.name = "client.ts" ∧ client'.name = "client.ts") ∧
        hook.name = "use-delete.ts" ∧ hooks.map File.name = ["use-post.ts"] := by
  intro post put delete before after
  exact ⟨rfl, files_insert_bodiless ⟨"app/posts"⟩ "/posts" [post] [put] rfl⟩

end Endpoint
end RouteScaffold.Artifact
