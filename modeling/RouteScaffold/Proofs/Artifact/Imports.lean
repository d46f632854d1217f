import RouteScaffold.Proofs.Artifact.References

/-! What the modules of a route import.

There are nine kinds of modules (`HasScript`). Whatever the convention, what a module
imports from the directory above it is a descriptor (`config_of_isAbove`). -/
namespace RouteScaffold.Artifact
open Route

namespace Endpoint

/-- The modules that a route can have. -/
inductive HasScript (e : Endpoint) : Script → Prop where
  | route : HasScript e e.routeScript
  | handler : HasScript e e.handlerScript
  | client : HasScript e e.clientScript
  | hook {d : Descriptor} (hd : d ∈ e.configs) : HasScript e (e.hookScript d)
  | actions : HasScript e e.actionsScript
  | formActions : HasScript e e.formActionsScript
  | actionHooks : HasScript e e.actionHooksScript
  | formActionHooks : HasScript e e.formActionHooksScript
  | formFields : HasScript e e.formFieldsScript

variable {e : Endpoint}

theorem hasScript_of_shared {s : Script} (hs : s ∈ e.clientScript :: e.configs.map e.hookScript) :
    e.HasScript s := by
  rcases List.mem_cons.mp hs with rfl | hs
  · exact .client
  · obtain ⟨d, hd, rfl⟩ := List.mem_map.mp hs
    exact .hook hd

theorem hasScript_of_mem {convention : Convention} {s : Script} (hs : s ∈ e.scripts convention) :
    e.HasScript s := by
  cases convention with
  | app =>
    rw [scripts, List.cons_append, List.mem_cons, List.mem_append] at hs
    rcases hs with rfl | hs | hs
    · exact .route
    · exact hasScript_of_shared hs
    · split at hs
      · simp only [List.mem_cons, List.not_mem_nil, or_false] at hs
        rcases hs with rfl | rfl | rfl | rfl | rfl
        · exact .actions
        · exact .formActions
        · exact .actionHooks
        · exact .formActionHooks
        · exact .formFields
      · cases hs
  | pages =>
    rw [scripts, List.cons_append, List.mem_cons, List.mem_append] at hs
    rcases hs with rfl | hs | hs
    · exact .handler
    · exact hasScript_of_shared hs
    · split at hs
      · obtain rfl := List.mem_singleton.mp hs
        exact .formFields
      · cases hs

end Endpoint

/-- A module of the directory above is imported. -/
def Import.isAbove (i : Import) : Bool := "../".toList.isPrefixOf i.module.toList

/-- The modules that are imported besides descriptors. -/
def otherModules : List String :=
  [runtimeModule, "zod", "react", "./client", "./actions", "./form-actions"]

theorem not_above_of_mem :
    ∀ module ∈ otherModules, "../".toList.isPrefixOf module.toList = false := by
  decide

namespace Endpoint
variable {e : Endpoint}

/-- The import is one of a descriptor of the route. -/
def IsConfig (e : Endpoint) (i : Import) : Prop :=
  ∃ d ∈ e.configs, ∃ typeOnly, i = .config typeOnly d

theorem isConfig_of_mem {typeOnly : Bool} {configs : List Descriptor}
    (hsub : configs ⊆ e.configs) {i : Import} (hi : i ∈ configs.map (.config typeOnly)) :
    e.IsConfig i := by
  obtain ⟨d, hd, rfl⟩ := List.mem_map.mp hi
  exact ⟨d, hsub hd, typeOnly, rfl⟩

theorem mem_serverImports {i : Import} (hi : i ∈ e.serverImports) :
    e.IsConfig i ∨ i.module ∈ otherModules := by
  rw [serverImports, List.mem_cons, List.mem_append, List.mem_singleton] at hi
  rcases hi with rfl | hi | rfl
  · exact .inr (List.mem_cons_self ..)
  · exact .inl (isConfig_of_mem (fun _ => mem_configs_of_bodyConfigs) hi)
  · exact .inr (by simp [bodyTypesImport, Import.types, otherModules])

/-- A module imports descriptors of the route and a few other modules. -/
theorem HasScript.mem_imports {s : Script} (hs : e.HasScript s) {i : Import}
    (hi : i ∈ s.imports) : e.IsConfig i ∨ i.module ∈ otherModules := by
  cases hs with
  | route | handler | client =>
    rcases List.mem_cons.mp hi with rfl | hi
    · exact .inr (by simp [Import.values, Import.types, otherModules])
    · exact .inl (isConfig_of_mem (fun _ h => h) hi)
  | actions | formActions => exact mem_serverImports hi
  | hook | actionHooks | formActionHooks =>
    simp only [hookScript, actionHooksScript, formActionHooksScript, List.mem_cons,
      List.not_mem_nil, or_false] at hi
    rcases hi with rfl | rfl | rfl <;> exact .inr (by
      simp [Import.values, clientImport, bodyTypesImport, Import.types, otherModules])
  | formFields => cases hi

/-- What a module imports from the directory above it is a descriptor of the route. -/
theorem HasScript.config_of_isAbove {s : Script} (hs : e.HasScript s) {i : Import}
    (hi : i ∈ s.imports) (habove : i.isAbove = true) : e.IsConfig i := by
  rcases hs.mem_imports hi with hconfig | hother
  · exact hconfig
  · rw [Import.isAbove, not_above_of_mem _ hother] at habove
    cases habove

end Endpoint
end RouteScaffold.Artifact
