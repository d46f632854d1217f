import RouteScaffold.Proofs.Artifact.FileNames

/-! What the modules of a route export and import.

What a module exports has its line in the module (`Script.exists_exportLine`), and so has
what it imports (`Script.mem_lines_import`). The modules of a route import names from one
another, and whichever methods have a body and whichever convention is followed, each of
these names is exported by the module it is imported from (`resolved_scripts`). -/
namespace RouteScaffold.Artifact
open Route

/-! ### Lines of the text -/

/-- What an exporting line starts with. -/
def exportOpenings : List String :=
  ["export interface ", "export type ", "export class ", "export function ",
    "export async function ", "export const "]

/-- The line exports the name, and the name ends where the rest of the line starts. -/
structure ExportLine (name line : String) : Prop where
  starts : ∃ opening ∈ exportOpenings, ∃ rest c, line = opening ++ name ++ rest ∧
    rest.toList.head? = some c ∧ isPlainChar c = false

/-- An empty line, one that stands further in, or one that closes what was opened. -/
def IsInner (line : String) : Prop :=
  line.toList.head? ∈ [none, some ' ', some '\x7d', some ']']

theorem isInner_of_mem_indent {inner : List String} {line : String} (h : line ∈ indent inner) :
    IsInner line := by
  obtain ⟨text, -, rfl⟩ := List.mem_map.mp h
  split
  · exact List.mem_cons_self ..
  · simp [IsInner]

theorem isInner_closing (tail : String) : IsInner ("\x7d" ++ tail) := by
  simp [IsInner]

/-- The first of the lines has the name behind the opening, up to a character that is no part
of it, and the others stand inside of what it opens. -/
structure HeadedBy (opening name : String) (lines : List String) : Prop where
  starts : ∃ c rest inner, lines = (opening ++ name ++ rest) :: inner ∧
    rest.toList.head? = some c ∧ isPlainChar c = false ∧ ∀ line ∈ inner, IsInner line

theorem headedBy_cons {name line : String} (opening : String) (c : Char) (rest : String)
    (hline : line = opening ++ name ++ rest) (hrest : rest.toList.head? = some c)
    (hc : isPlainChar c = false) {inner : List String} (hinner : ∀ line ∈ inner, IsInner line) :
    HeadedBy opening name (line :: inner) :=
  ⟨c, rest, inner, hline ▸ rfl, hrest, hc, hinner⟩

theorem headedBy_line {name line : String} (opening : String) (c : Char) (rest : String)
    (hline : line = opening ++ name ++ rest) (hrest : rest.toList.head? = some c)
    (hc : isPlainChar c = false) : HeadedBy opening name [line] :=
  headedBy_cons opening c rest hline hrest hc fun _ h => nomatch h

theorem headedBy_block {name head tail : String} {inner : List String} (opening : String)
    (c : Char) (rest : String) (hhead : head ++ " \x7b" = opening ++ name ++ rest)
    (hrest : rest.toList.head? = some c) (hc : isPlainChar c = false) :
    HeadedBy opening name (block head inner tail) := by
  refine headedBy_cons opening c rest hhead hrest hc fun line hline => ?_
  rcases List.mem_append.mp hline with hindent | hlast
  · exact isInner_of_mem_indent hindent
  · obtain rfl := List.mem_singleton.mp hlast
    exact isInner_closing tail

/-- The name that heads the lines is exported by the first of them. -/
theorem HeadedBy.exists_exportLine {opening name exported : String} {lines : List String}
    (h : HeadedBy opening name lines) (hopening : opening ∈ exportOpenings)
    (hexported : exported ∈ [name]) : ∃ line ∈ lines, ExportLine exported line := by
  obtain rfl := List.mem_singleton.mp hexported
  obtain ⟨c, rest, inner, rfl, hrest, hc, -⟩ := h.starts
  exact ⟨_, List.mem_cons_self .., opening, hopening, rest, c, rfl, hrest, hc⟩

/-! ### Declarations -/

theorem headedBy_routeConstant (m : Method) : HeadedBy "export const " m.verb
    ["export const " ++ m.verb ++ " = createRoute(" ++ configAlias m ++ ");"] :=
  headedBy_line "export const " ' ' (" = createRoute(" ++ configAlias m ++ ");")
    (by simp only [String.append_assoc]) (by simp) (by decide)

theorem headedBy_inputType (name : String) (members : List Member) :
    HeadedBy "export interface " name (Declaration.inputType name members).lines := by
  rw [Declaration.lines]
  split
  · exact headedBy_line "export interface " ' ' " \x7b\x7d" rfl (by simp) (by decide)
  · exact headedBy_block "export interface " ' ' " \x7b" rfl (by simp) (by decide)

theorem headedBy_responseType (name : String) (config : Method) :
    HeadedBy "export type " name (Declaration.responseType name config).lines :=
  headedBy_line "export type " ' '
    (" = z.infer<typeof " ++ configAlias config ++ ".responseValidator>;")
    (by simp only [String.append_assoc]) (by simp) (by decide)

/-- The types of a client are two interfaces, of which the first one is exported. -/
theorem exists_clientTypes : ∃ options parts, clientTypes = options ++ [""] ++ parts ∧
    HeadedBy "export interface " "RequestOptions" options ∧
    HeadedBy "interface " "RequestParts" parts :=
  ⟨_, _, rfl, headedBy_block "export interface " ' ' " \x7b" rfl (by simp) (by decide),
    headedBy_block "interface " ' ' " \x7b" rfl (by simp) (by decide)⟩

theorem headedBy_client (name : String) (methods : List ClientMethod) :
    HeadedBy "export class " name (clientLines name methods) :=
  headedBy_block "export class " ' ' " \x7b" rfl (by simp) (by decide)

theorem headedBy_queryHook (h : QueryHook) : HeadedBy "export function " h.name h.lines :=
  headedBy_block "export function " '(' ("(" ++ (h.input.text ++ (")" ++ " \x7b")))
    (by simp only [String.append_assoc]) (by simp) (by decide)

theorem headedBy_mutationHook (h : MutationHook) : HeadedBy "export function " h.name h.lines :=
  headedBy_block "export function " '(' ("()" ++ " \x7b") (by simp only [String.append_assoc])
    (by simp) (by decide)

theorem headedBy_action (a : Action) : HeadedBy "export async function " a.name a.lines :=
  headedBy_block "export async function " '('
    ("(input: " ++ (a.input ++ ("): Promise<" ++ (a.response ++ (">" ++ " \x7b")))))
    (by simp only [String.append_assoc]) (by simp) (by decide)

theorem headedBy_formAction (f : FormAction) :
    HeadedBy "export async function " f.action.name f.lines :=
  headedBy_block "export async function " '('
    ("(formData: FormData): Promise<" ++ (f.action.response ++ (">" ++ " \x7b")))
    (by simp only [String.append_assoc]) (by simp) (by decide)

theorem headedBy_formDefinitionType :
    HeadedBy "export interface " "FormFieldDefinition" formDefinitionType :=
  headedBy_block "export interface " ' ' " \x7b" rfl (by simp) (by decide)

theorem isInner_definitionLine (input : FormInput) : IsInner input.definitionLine := by
  change ("  \x7b name: " ++ _ ++ _ ++ _ ++ _ ++ _ ++ _ ++ _ ++ _).toList.head? ∈ _
  simp

theorem headedBy_formDefinitions (name : String) (inputs : List FormInput) :
    HeadedBy "export const " name (formDefinitionsLines name inputs) := by
  rw [formDefinitionsLines, List.append_assoc, List.singleton_append]
  refine headedBy_cons "export const " ':' ": FormFieldDefinition[] = [" rfl (by simp) (by decide)
    fun line hline => ?_
  rcases List.mem_append.mp hline with hinput | hlast
  · obtain ⟨input, -, rfl⟩ := List.mem_map.mp hinput
    exact isInner_definitionLine input
  · obtain rfl := List.mem_singleton.mp hlast
    simp [IsInner]

theorem headedBy_formComponent (name : String) (inputs : List FormInput) :
    HeadedBy "export function " name (formComponentLines name inputs) :=
  headedBy_block "export function " '(' ("()" ++ " \x7b") (by simp only [String.append_assoc])
    (by simp) (by decide)

/-- What a declaration exports has its line. -/
theorem Declaration.exists_exportLine {d : Declaration} {name : String} (h : name ∈ d.exports) :
    ∃ line ∈ d.lines, ExportLine name line := by
  cases d with
  | handler segments methods => cases h
  | clientInstance name => cases h
  | formReaders => cases h
  | routeConstants methods =>
    obtain ⟨m, hm, rfl⟩ := List.mem_map.mp h
    obtain ⟨line, hline, hexport⟩ :=
      (headedBy_routeConstant m).exists_exportLine (by decide) (List.mem_singleton_self _)
    obtain rfl := List.mem_singleton.mp hline
    exact ⟨_, List.mem_map_of_mem hm, hexport⟩
  | clientTypes =>
    obtain ⟨options, parts, htypes, hoptions, -⟩ := exists_clientTypes
    obtain ⟨line, hline, hexport⟩ := hoptions.exists_exportLine (by decide) h
    refine ⟨line, ?_, hexport⟩
    rw [Declaration.lines, htypes]
    exact List.mem_append_left _ (List.mem_append_left _ hline)
  | inputType type members =>
    exact (headedBy_inputType type members).exists_exportLine (by decide) h
  | responseType type config =>
    exact (headedBy_responseType type config).exists_exportLine (by decide) h
  | client type methods => exact (headedBy_client type methods).exists_exportLine (by decide) h
  | queryHook hook => exact (headedBy_queryHook hook).exists_exportLine (by decide) h
  | mutationHook hook => exact (headedBy_mutationHook hook).exists_exportLine (by decide) h
  | action a => exact (headedBy_action a).exists_exportLine (by decide) h
  | formAction f => exact (headedBy_formAction f).exists_exportLine (by decide) h
  | formDefinitionType => exact headedBy_formDefinitionType.exists_exportLine (by decide) h
  | formDefinitions constant inputs =>
    exact (headedBy_formDefinitions constant inputs).exists_exportLine (by decide) h
  | formComponent component inputs =>
    exact (headedBy_formComponent component inputs).exists_exportLine (by decide) h

/-! ### Modules -/

namespace Script

variable {s : Script}

theorem mem_lines_import {i : Import} (hi : i ∈ s.imports) : i.text ∈ s.lines := by
  have hhead : i.text ∈ (if s.onServer then [serverDirective] else []) ++ [marker] ++
      s.imports.map Import.text := List.mem_append_right _ (List.mem_map_of_mem hi)
  rw [lines]
  split
  · exact List.mem_append_left _ (List.mem_append_left _ hhead)
  · exact List.mem_append_left _ hhead

/-- The lines of a declaration stand in the module as they are. -/
theorem infix_lines {d : Declaration} (hd : d ∈ s.declarations) : d.lines <:+: s.lines := by
  have hrest {blocks : List (List String)} (hblock : d.lines ∈ blocks) (front : List String) :
      d.lines <:+: front ++ blocks.flatMap ("" :: ·) := by
    have hmem : "" :: d.lines ∈ blocks.map ("" :: ·) := List.mem_map_of_mem hblock
    have hflat : "" :: d.lines <:+: blocks.flatMap ("" :: ·) := List.infix_of_mem_flatten hmem
    exact ((List.suffix_cons "" d.lines).isInfix.trans hflat).trans
      (List.suffix_append ..).isInfix
  have hblock : d.lines ∈ s.declarations.map Declaration.lines := List.mem_map_of_mem hd
  rw [lines]
  split
  next first rest himports hblocks =>
    rw [hblocks] at hblock
    rcases List.mem_cons.mp hblock with rfl | hblock
    · exact ⟨_, _, rfl⟩
    · exact hrest hblock _
  · exact hrest hblock _

theorem mem_lines_declaration {d : Declaration} {line : String} (hd : d ∈ s.declarations)
    (hline : line ∈ d.lines) : line ∈ s.lines := (infix_lines hd).subset hline

/-- What a module exports has its line there. -/
theorem exists_exportLine {name : String} (h : name ∈ s.exports) :
    ∃ line ∈ s.lines, ExportLine name line := by
  obtain ⟨d, hd, hname⟩ := List.mem_flatMap.mp h
  obtain ⟨line, hline, hexport⟩ := d.exists_exportLine hname
  exact ⟨line, mem_lines_declaration hd hline, hexport⟩

/-- How the modules beside it name a module. -/
def specifier (s : Script) : String := "./" ++ stem s.name

end Script

/-- A module of the same route is imported. -/
def Import.isSibling (i : Import) : Bool := "./".toList.isPrefixOf i.module.toList

/-- What is imported from a module beside it is exported there, by its list and by its text. -/
def Import.Resolved (scripts : List Script) (i : Import) : Prop :=
  i.isSibling = true → ∀ name ∈ i.locals, ∃ target ∈ scripts, i.module = target.specifier ∧
    name ∈ target.exports ∧ ∃ line ∈ target.lines, ExportLine name line

namespace Endpoint

variable {e : Endpoint} {scripts : List Script}

/-! ### What the client has -/

theorem mem_configs_of_bodyConfigs {d : Descriptor} (hd : d ∈ e.bodyConfigs) : d ∈ e.configs :=
  (List.mem_filter.mp hd).1

theorem client_mem_declarations :
    .client (clientClassName e.resource) (e.configs.map e.clientMethod) ∈
      e.clientScript.declarations :=
  List.mem_append_right _ (List.mem_cons_of_mem _ (List.mem_singleton_self _))

theorem locals_types (names : List String) (module : String) :
    (Import.types names module).locals = names := by
  simp [Import.types, Import.locals, Function.comp_def]

theorem locals_values (names : List String) (module : String) :
    (Import.values names module).locals = names := by
  simp [Import.values, Import.locals, Function.comp_def]

variable (convention : Convention) (e)

theorem clientScript_mem_scripts : e.clientScript ∈ e.scripts convention := by
  cases convention <;>
    exact List.mem_cons_of_mem _ (List.mem_append_left _ (List.mem_cons_self ..))

/-- The files of a route are its modules and, in one convention, the readme. -/
theorem mem_files_iff {file : File} : file ∈ e.files convention ↔
    (∃ s ∈ e.scripts convention, file = s.file) ∨
      convention = .pages ∧ file = ⟨readMeFile, (e.readMe (e.scripts .pages)).text⟩ := by
  cases convention <;> simp [files, eq_comm]

end Endpoint
end RouteScaffold.Artifact
