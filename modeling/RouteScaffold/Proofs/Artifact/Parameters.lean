import Mathlib.Data.List.Nodup
import RouteScaffold.Artifact.Endpoint

/-! The fields of the path parameters.

The dynamic segments of a route and the fields declared for its parameters are merged
by name: every name keeps its first place, segments first, and has the field that was
declared for it first, or a required string (`paramFields_eq`). So no declaration is
lost, and a name occurs twice only if two segments have it (`paramFields_merged`). -/
namespace RouteScaffold.Artifact
open Route

theorem nodup_eraseDups (names : List String) : names.eraseDups.Nodup := by
  cases names with
  | nil => simp
  | cons name names =>
    rw [List.eraseDups_cons, List.nodup_cons, List.mem_eraseDups]
    exact ⟨by simp, nodup_eraseDups _⟩
termination_by names.length
decreasing_by
  rw [List.length_cons, Nat.lt_succ_iff]
  exact List.length_filter_le _ _

/-! ### One declaration after the other -/

section declarations
variable {declared : List Field}

/-- The field of a name: the first one declared, or a required string. -/
def fieldNamed (declared : List Field) (name : String) : Field :=
  (declared.find? (·.name == name)).getD ⟨name, .string, false⟩

theorem name_fieldNamed (name : String) : (fieldNamed declared name).name = name := by
  rw [fieldNamed]
  cases h : declared.find? (·.name == name) with
  | none => rfl
  | some f => simpa using List.find?_some h

theorem fieldNamed_of_undeclared {name : String} (h : ∀ f ∈ declared, f.name ≠ name) :
    fieldNamed declared name = ⟨name, .string, false⟩ := by
  have hnone : declared.find? (·.name == name) = none :=
    List.find?_eq_none.mpr fun f hf => by simpa using h f hf
  rw [fieldNamed, hnone, Option.getD_none]

theorem find?_of_declared {f : Field} (hf : f ∈ declared) :
    declared.find? (·.name == f.name) = some (fieldNamed declared f.name) := by
  have hsome : (declared.find? (·.name == f.name)).isSome := by
    rw [List.find?_isSome]
    exact ⟨f, hf, beq_self_eq_true f.name⟩
  rw [fieldNamed, ← Option.some_get hsome, Option.getD_some]

/-- What is declared first stands for its name. -/
theorem fieldNamed_first {before after : List Field} {f : Field}
    (h : ∀ g ∈ before, g.name ≠ f.name) : fieldNamed (before ++ f :: after) f.name = f := by
  have hnone : before.find? (·.name == f.name) = none :=
    List.find?_eq_none.mpr fun g hg => by simpa using h g hg
  rw [fieldNamed, List.find?_append, hnone, Option.none_or,
    List.find?_cons_of_pos (by simp), Option.getD_some]

/-- A declared field is added unless one of its name is there. -/
def addNew (fields : List Field) (field : Field) : List Field :=
  if fields.any (·.name == field.name) then fields else fields ++ [field]

theorem any_map_fieldNamed (names : List String) (f : Field) :
    (names.map (fieldNamed declared)).any (·.name == f.name) = decide (f.name ∈ names) := by
  rw [Bool.eq_iff_iff, List.any_eq_true, decide_eq_true_iff]
  simp [name_fieldNamed]

/-- The names of further fields, each once and in the order in which they come first. -/
def newNames (names : List String) (fields : List Field) : List String :=
  ((fields.map Field.name).filter (· ∉ names)).eraseDups

theorem newNames_cons_of_mem {names : List String} {f : Field} (h : f.name ∈ names)
    (fields : List Field) : newNames names (f :: fields) = newNames names fields := by
  rw [newNames, List.map_cons, List.filter_cons_of_neg (by simpa using h), newNames]

theorem newNames_cons_of_notMem {names : List String} {f : Field} (h : f.name ∉ names)
    (fields : List Field) :
    newNames names (f :: fields) = f.name :: newNames (names ++ [f.name]) fields := by
  have hfilter : (fun name => (!name == f.name) && decide (name ∉ names)) =
      fun name => decide (name ∉ names ++ [f.name]) := by
    funext name
    rw [Bool.eq_iff_iff]
    simp [and_comm]
  rw [newNames, List.map_cons, List.filter_cons_of_pos (by simpa using h), List.eraseDups_cons,
    List.filter_filter, hfilter, newNames]

/-- Adding what is left of the declared fields, once all before have their names among those that
are there. -/
theorem foldl_addNew {names : List String} {before rest : List Field}
    (hbefore : ∀ g ∈ before, g.name ∈ names) (hdeclared : declared = before ++ rest) :
    rest.foldl addNew (names.map (fieldNamed declared)) =
      (names ++ newNames names rest).map (fieldNamed declared) := by
  induction rest generalizing names before with
  | nil => simp [newNames]
  | cons f rest ih =>
    have hsplit : declared = (before ++ [f]) ++ rest := by simp [hdeclared]
    rw [List.foldl_cons, addNew, any_map_fieldNamed]
    by_cases hname : f.name ∈ names
    · have hall : ∀ g ∈ before ++ [f], g.name ∈ names := by
        rw [List.forall_mem_append, List.forall_mem_singleton]
        exact ⟨hbefore, hname⟩
      rw [if_pos (by simpa using hname), newNames_cons_of_mem hname]
      exact ih hall hsplit
    · have hall : ∀ g ∈ before ++ [f], g.name ∈ names ++ [f.name] := by
        rw [List.forall_mem_append, List.forall_mem_singleton]
        exact ⟨fun g hg => List.mem_append_left _ (hbefore g hg), by simp⟩
      have hfirst : fieldNamed declared f.name = f := by
        rw [hdeclared]
        exact fieldNamed_first fun g hg heq => hname (heq ▸ hbefore g hg)
      have hadded : names.map (fieldNamed declared) ++ [f] =
          (names ++ [f.name]).map (fieldNamed declared) := by
        rw [List.map_append, List.map_singleton, hfirst]
      rw [if_neg (by simpa using hname), hadded, ih hall hsplit, newNames_cons_of_notMem hname,
        List.append_assoc, List.singleton_append]

end declarations

/-! ### The parameters of a method -/

/-- The fields of the parameters are those of the dynamic segments and then of the other declared
names. -/
theorem paramFields_eq (e : Endpoint) (d : Descriptor) :
    e.paramFields d =
      (e.segments ++ newNames e.segments d.params.fields).map (fieldNamed d.params.fields) :=
  foldl_addNew (List.forall_mem_nil _) rfl

theorem map_name_paramFields (e : Endpoint) (d : Descriptor) :
    (e.paramFields d).map Field.name = e.segments ++ newNames e.segments d.params.fields := by
  rw [paramFields_eq, List.map_map, show Field.name ∘ fieldNamed d.params.fields = id from
    funext name_fieldNamed, List.map_id]

/-- The dynamic segments come first among the fields of the parameters. -/
theorem prefix_paramFields (e : Endpoint) (d : Descriptor) :
    e.segments <+: (e.paramFields d).map Field.name :=
  ⟨_, (map_name_paramFields e d).symm⟩

theorem segments_eq_nil {e : Endpoint} {d : Descriptor} (h : e.paramFields d = []) :
    e.segments = [] := by
  have hprefix := prefix_paramFields e d
  rw [h] at hprefix
  exact List.prefix_nil.mp hprefix

theorem mem_newNames {names : List String} {fields : List Field} {name : String} :
    name ∈ newNames names fields ↔ name ∈ fields.map Field.name ∧ name ∉ names := by
  rw [newNames, List.mem_eraseDups, List.mem_filter, decide_eq_true_iff]

/-- **Segments and declared fields are merged without loss.** The names are the dynamic segments
in path order and then the declared names that are no segments, each once, in the order in which
they are declared first. Every field is the first one declared under its name, or that of a segment
that is not declared, a required string. So every declared name is there, and a name is there twice
only if two segments have it. -/
theorem paramFields_merged (e : Endpoint) (d : Descriptor) :
    (e.paramFields d).map Field.name =
        e.segments ++ ((d.params.fields.map Field.name).filter (· ∉ e.segments)).eraseDups ∧
      (∀ f ∈ e.paramFields d, d.params.fields.find? (·.name == f.name) = some f ∨
        f.name ∈ e.segments ∧ f.name ∉ d.params.fields.map Field.name ∧
          f = ⟨f.name, .string, false⟩) ∧
      (∀ f ∈ d.params.fields, f.name ∈ (e.paramFields d).map Field.name) ∧
      (((e.paramFields d).map Field.name).Nodup ↔ e.segments.Nodup) := by
  have hnames := map_name_paramFields e d
  refine ⟨hnames, fun f hf => ?_, fun f hf => ?_, ?_⟩
  · rw [paramFields_eq] at hf
    obtain ⟨name, hname, rfl⟩ := List.mem_map.mp hf
    rw [name_fieldNamed]
    by_cases hdeclared : name ∈ d.params.fields.map Field.name
    · obtain ⟨g, hg, rfl⟩ := List.mem_map.mp hdeclared
      exact .inl (find?_of_declared hg)
    · have hsegment : name ∈ e.segments := (List.mem_append.mp hname).resolve_right fun hnew =>
        hdeclared (mem_newNames.mp hnew).1
      have hundeclared : ∀ g ∈ d.params.fields, g.name ≠ name := fun g hg heq =>
        hdeclared (heq ▸ List.mem_map_of_mem hg)
      exact .inr ⟨hsegment, hdeclared, fieldNamed_of_undeclared hundeclared⟩
  · rw [hnames, List.mem_append, mem_newNames]
    by_cases hsegment : f.name ∈ e.segments
    · exact .inl hsegment
    · exact .inr ⟨List.mem_map_of_mem hf, hsegment⟩
  · have hnew : (newNames e.segments d.params.fields).Nodup := nodup_eraseDups _
    have hapart : ∀ a ∈ e.segments, ∀ b ∈ newNames e.segments d.params.fields, a ≠ b :=
      fun a ha b hb heq => (mem_newNames.mp hb).2 (heq ▸ ha)
    rw [hnames, List.nodup_append]
    exact ⟨And.left, fun hsegments => ⟨hsegments, hnew, hapart⟩⟩

example :
    let e : Endpoint := ⟨⟨"app/api/[orgId]/[postId]"⟩, "/api/[orgId]/[postId]", []⟩
    let extra : Field := ⟨"extra", .boolean, true⟩
    let fields : List Field := [extra, ⟨"postId", .number, false⟩, ⟨"extra", .number, false⟩]
    e.paramFields { method := .get, fileName := "route.get.config.ts", params := ⟨true, fields⟩ } =
      [⟨"orgId", .string, false⟩, ⟨"postId", .number, false⟩, extra] := by
  decide +kernel

end RouteScaffold.Artifact
