import RouteScaffold.Proofs.Artifact.Address
import RouteScaffold.Proofs.Artifact.Signatures
import RouteScaffold.Proofs.Artifact.Templates

/-! The input of a method, as it is declared and as it is used.

What a method takes stands in three places: in the interface of its input, in the parameter
of every function that takes one, and in what the method reads from it. Each is written by
conditions of its own, and each is read back here from the lines that are emitted. They
agree (`inputs_agree`): the parameter has a default exactly if no member of the interface is
required, its name says whether it is read, and what is read is declared. -/
namespace RouteScaffold.Artifact
open Route Text Text.Quoted

/-! ### Interfaces -/

/-- The member that a line of an interface declares, optional if a question mark stands in front of
its colon. -/
def memberIn (line : String) : List Member :=
  match (behind? "  " line.toList).map fun text => text.span (· != ':') with
  | some (key, ':' :: ' ' :: type) =>
    let optional := key.getLast? == some '?'
    [⟨String.ofList (if optional then key.dropLast else key), optional,
      String.ofList type.dropLast⟩]
  | _ => []

/-- A member of an interface is read back. -/
theorem memberIn_text {m : Member} (hcolon : ':' ∉ m.name.toList) (hmark : '?' ∉ m.name.toList) :
    memberIn ("  " ++ m.text) = [m] := by
  obtain ⟨name, optional, type⟩ := m
  dsimp only at hcolon hmark
  let key := name.toList ++ if optional then ['?'] else []
  have hkey : ':' ∉ key := by
    cases optional <;> simp [key, hcolon]
  have hbehind : behind? "  " ("  " ++ (Member.mk name optional type).text).toList =
      some (key ++ ':' :: ' ' :: (type.toList ++ [';'])) := by
    rw [behind?_eq_some_iff]
    cases optional <;> simp [Member.text, key]
  rw [memberIn, hbehind, Option.map_some, span_append hkey]
  dsimp only
  cases optional with
  | true => simp [key]
  | false =>
    have hlast : name.toList.getLast? ≠ some '?' := fun h => hmark (List.mem_of_getLast? h)
    simp [key, hlast]

/-- An interface is read back. -/
theorem memberIn_inputType (name : String) {members : List Member}
    (h : ∀ m ∈ members, ':' ∉ m.name.toList ∧ '?' ∉ m.name.toList) :
    (Declaration.inputType name members).lines.flatMap memberIn = members := by
  have hhead (rest : String) : memberIn ("export interface " ++ name ++ rest) = [] := by
    have hfirst : NoneStarts ["  "] (some 'e') := by decide
    rw [memberIn, behind?_of_noneStarts hfirst (List.mem_singleton_self _) (by simp)]
    rfl
  have hinner : (indent (members.map Member.text)).flatMap memberIn = members := by
    have hone : ∀ m ∈ members,
        memberIn (if m.text == "" then "" else "  " ++ m.text) = [m] := fun m hm => by
      have hne : m.text ≠ "" := fun heq => by
        have hlist := congrArg String.toList heq
        simp [Member.text] at hlist
      rw [if_neg (by simpa using hne), memberIn_text (h m hm).1 (h m hm).2]
    rw [indent, List.map_map, List.flatMap_map]
    exact (List.flatMap_congr hone).trans (by simp)
  rw [Declaration.lines]
  split
  next hempty => rw [List.flatMap_singleton, hhead, List.isEmpty_iff.mp hempty]
  next =>
    have hclosing : memberIn ("\x7d" ++ "") = [] := rfl
    rw [block, enclose, List.flatMap_cons, hhead, List.flatMap_append, hinner,
      List.flatMap_singleton, hclosing, List.append_nil, List.nil_append]

/-! ### Object types -/

/-- A property key and the name that it stands for. -/
inductive Key : String → String → Prop where
  | plain {name : String} : isPlainName name = true → Key name name
  | quoted {key name : String} : unquote key = some name → Key key name

/-- A key with a type behind it. -/
inductive Entry : String → String → Prop where
  | required {key name type : String} : Key key name → ';' ∉ type.toList →
      Entry (key ++ ": " ++ type) name
  | optional {key name type : String} : Key key name → ';' ∉ type.toList →
      Entry (key ++ "?: " ++ type) name

/-- What stands in the braces of an object type, and the names of its members. -/
inductive Entries : String → List String → Prop where
  | one {entry name : String} : Entry entry name → Entries entry [name]
  | cons {entry name rest : String} {names : List String} : Entry entry name →
      Entries rest names → Entries (entry ++ "; " ++ rest) (name :: names)

theorem key_propertyKey (name : String) : Key (propertyKey name) name := by
  rw [propertyKey]
  split
  next h => exact .plain h
  next => exact .quoted (unquote_quote name)

theorem entry_memberText (field : Field) : Entry (memberText field) field.name := by
  have htype : ';' ∉ field.type.scriptType.toList := by
    cases field.type with
    | other token =>
      rw [BaseType.scriptType]
      repeat' split
      all_goals decide
    | _ => decide
  have hkey := key_propertyKey field.name
  cases hoptional : field.optional with
  | false => simpa [memberText, hoptional] using Entry.required hkey htype
  | true =>
    have hmark : propertyKey field.name ++ "?" ++ ": " = propertyKey field.name ++ "?: " := by
      rw [String.append_assoc]
      rfl
    simpa [memberText, hoptional, hmark] using Entry.optional hkey htype

theorem entries_memberText {fields : List Field} (h : fields ≠ []) :
    Entries ("; ".intercalate (fields.map memberText)) (fields.map Field.name) := by
  induction fields with
  | nil => exact absurd rfl h
  | cons field fields ih =>
    cases fields with
    | nil => simpa using Entries.one (entry_memberText field)
    | cons next fields =>
      have hcons := Entries.cons (entry_memberText field) (ih (List.cons_ne_nil _ _))
      simpa [String.intercalate_cons_cons] using hcons

/-! ### The input of a method -/

namespace Endpoint
variable (e : Endpoint) (d : Descriptor)

/-- The lines of the interface of a method's input. -/
def interfaceLines : List String :=
  (Declaration.inputType (inputTypeName d.method e.resource) (InputShape.of e d).members).lines

/-- The lines of a client's method, as they stand in its class. -/
def methodLines : List String := indent (e.clientMethod d).lines

/-- The hooks that take the input of a method, each with the module that it stands in. -/
def inputHooks (convention : Convention) : List (Script × Declaration) :=
  (e.hookScript d,
      if d.method.isQuery then .queryHook (e.queryHook d) else .mutationHook (e.mutationHook d)) ::
    if convention = .app ∧ d.body.declared then
      [(e.actionHooksScript, .mutationHook (e.actionHook d))]
    else []

/-- The members that the interface of a method's input declares. -/
def inputMembers : List Member := (e.interfaceLines d).flatMap memberIn

/-- The parameter of this name that takes the input of a method, with a default exactly if no member
of the interface is required. -/
def inputUnder (name : String) : Parameter :=
  ⟨name, inputTypeName d.method e.resource, (e.inputMembers d).all (·.optional)⟩

theorem plain_fill_resource {mold : Mold} (h : mold.isPlain = true) :
    ∀ c ∈ (mold.fill e.resource).toList, isPlainChar c = true := by
  refine Mold.plain_fill h fun c hc => ?_
  rw [isPlainChar, isAlphanumeric_of_mem_resource hc]
  rfl

theorem plain_inputTypeName (m : Method) :
    ∀ c ∈ (inputTypeName m e.resource).toList, isPlainChar c = true := by
  rw [← Mold.fill_inputType]
  exact e.plain_fill_resource (by cases m <;> decide +kernel)

theorem plain_responseTypeName (m : Method) :
    ∀ c ∈ (responseTypeName m e.resource).toList, isPlainChar c = true := by
  rw [← Mold.fill_responseType]
  exact e.plain_fill_resource (by cases m <;> decide +kernel)

/-- What the members of an input are called. -/
def memberNames : List String := ["params", "body", "searchParams", "headers"]

theorem name_mem_memberNames {m : Member} (hm : m ∈ (InputShape.of e d).members) :
    m.name ∈ memberNames := by
  have hone {p : Prop} [Decidable p] {name : String} (hname : name ∈ memberNames)
      (optional : Bool) (type : String)
      (h : m ∈ if p then [⟨name, optional, type⟩] else []) : m.name ∈ memberNames := by
    split at h
    · rwa [List.mem_singleton.mp h]
    · cases h
  simp only [InputShape.of, List.mem_append] at hm
  rcases hm with ((hm | hm) | hm) | hm <;> exact hone (by decide) _ _ hm

/-- The interface of an input is read back. -/
theorem inputMembers_eq : e.inputMembers d = (InputShape.of e d).members := by
  have hnames : ∀ name ∈ memberNames, ':' ∉ name.toList ∧ '?' ∉ name.toList := by decide
  exact memberIn_inputType _ fun m hm => hnames _ (e.name_mem_memberNames d hm)

theorem parameter_eq (name : String) :
    (InputShape.of e d).parameter name (inputTypeName d.method e.resource) =
      e.inputUnder d name := by
  rw [InputShape.parameter, inputUnder, inputMembers_eq, InputShape.required]
  simp [List.not_any_eq_all_not]

theorem plain_inputUnder {name : String} (hname : ∀ c ∈ name.toList, isPlainChar c = true) :
    (e.inputUnder d name).Plain := ⟨hname, e.plain_inputTypeName d.method⟩

/-- What a method reads besides its parameters. -/
theorem passedIn_methodLines :
    (e.methodLines d).flatMap passedIn = (requestParts d).map RequestPart.name := by
  rw [methodLines, anyColumn_passedIn.flatMap_indent]
  exact passedIn_clientMethod rfl

/-- A route with a dynamic segment has parameters. -/
theorem hasParams_of_segments (h : e.segments ≠ []) : (InputShape.of e d).hasParams = true := by
  simp [InputShape.of, mt segments_eq_nil h]

/-- The parameter of a method has its name by what the method reads. -/
theorem input_clientMethod : (e.clientMethod d).input =
    e.inputUnder d (if e.segments = [] ∧ requestParts d = [] then "_input" else "input") := by
  have hused : ((InputShape.of e d).hasParams && !e.segments.isEmpty ||
      !(requestParts d).isEmpty) = !decide (e.segments = [] ∧ requestParts d = []) := by
    by_cases hsegments : e.segments = []
    · cases hparts : requestParts d <;> simp [hsegments]
    · simp [hsegments, e.hasParams_of_segments d hsegments]
  have hname : (e.clientMethod d).input = (InputShape.of e d).parameter
      (if ((InputShape.of e d).hasParams && !e.segments.isEmpty || !(requestParts d).isEmpty) = true
        then "input" else "_input") (inputTypeName d.method e.resource) := rfl
  rw [hname, parameter_eq, hused]
  congr 1
  by_cases h : e.segments = [] ∧ requestParts d = [] <;> simp [h]

theorem plain_input_clientMethod : (e.clientMethod d).input.Plain := by
  rw [input_clientMethod]
  refine e.plain_inputUnder d ?_
  split <;> exact List.all_eq_true.mp (by decide +kernel)

theorem parameterIn_methodLines :
    (e.methodLines d).flatMap parameterIn =
      [e.inputUnder d (if e.segments = [] ∧ requestParts d = [] then "_input" else "input")] := by
  rw [methodLines, anyColumn_parameterIn.flatMap_indent,
    parameterIn_clientMethod (e.plain_input_clientMethod d) (e.plain_responseTypeName d.method),
    input_clientMethod]

theorem addressIn_methodLines {inner : List Char}
    (h : (urlTemplate e.path "input.params").toList = '\x60' :: (inner ++ ['\x60'])) :
    (e.methodLines d).flatMap addressIn = [inner] := by
  rw [← url_clientMethod e d] at h
  rw [methodLines, anyColumn_addressIn.flatMap_indent]
  exact addressIn_clientMethod (e.plain_input_clientMethod d) (e.plain_responseTypeName d.method) h
    rfl

/-! ### What is emitted -/

variable {e d}

theorem interfaceLines_infix (hd : d ∈ e.configs) : e.interfaceLines d <:+: e.clientScript.lines :=
  Script.infix_lines (List.mem_append_left _ (List.mem_flatMap.mpr ⟨d, hd, List.mem_cons_self⟩))

theorem methodLines_infix (hd : d ∈ e.configs) : e.methodLines d <:+: e.clientScript.lines := by
  have hmethod : (e.clientMethod d).lines ++ [""] <:+:
      (e.configs.map e.clientMethod).flatMap fun m => m.lines ++ [""] :=
    List.infix_of_mem_flatten (List.mem_map_of_mem (List.mem_map_of_mem hd))
  have hlines := (List.prefix_append (e.clientMethod d).lines [""]).isInfix.trans hmethod
  exact (indent_infix_block (hlines.trans (List.infix_append _ _ _)) _ _).trans
    (Script.infix_lines client_mem_declarations)

theorem plain_hookInput : (e.hookInput d).Plain := by
  rw [hookInput, parameter_eq]
  exact e.plain_inputUnder d (List.all_eq_true.mp (by decide +kernel))

theorem parameterIn_inputHooks {convention : Convention} {hook : Script × Declaration}
    (h : hook ∈ e.inputHooks d convention) :
    hook.2.lines.flatMap parameterIn = [e.inputUnder d "input"] := by
  have hinput : e.hookInput d = e.inputUnder d "input" := parameter_eq ..
  have hplain : (e.hookInput d).Plain := plain_hookInput
  rw [← hinput]
  rcases List.mem_cons.mp h with rfl | h
  · cases hquery : d.method.isQuery with
    | true => exact parameterIn_queryHook (h := e.queryHook d) hplain
    | false => exact parameterIn_mutationHook (h := e.mutationHook d) hplain
  · split at h
    · obtain rfl := List.mem_singleton.mp h
      exact parameterIn_mutationHook (h := e.actionHook d) hplain
    · cases h

theorem inputHooks_emitted {convention : Convention} (hd : d ∈ e.configs)
    {hook : Script × Declaration} (h : hook ∈ e.inputHooks d convention) :
    hook.1 ∈ e.scripts convention ∧ hook.2.lines <:+: hook.1.lines := by
  rcases List.mem_cons.mp h with rfl | h
  · refine ⟨?_, Script.infix_lines (List.mem_cons_of_mem _ (List.mem_singleton_self _))⟩
    have hshared := List.mem_cons_of_mem e.clientScript (List.mem_map_of_mem (f := e.hookScript) hd)
    cases convention <;> exact List.mem_cons_of_mem _ (List.mem_append_left _ hshared)
  · split at h
    next happ =>
      obtain rfl := List.mem_singleton.mp h
      have hbody : d ∈ e.bodyConfigs := List.mem_filter.mpr ⟨hd, happ.2⟩
      have hhas : e.hasBody = true := e.hasBody_iff.mpr (List.ne_nil_of_mem hbody)
      have hhook : .mutationHook (e.actionHook d) ∈ e.actionHooksScript.declarations :=
        List.mem_map.mpr ⟨d, hbody, rfl⟩
      refine ⟨?_, Script.infix_lines hhook⟩
      rw [happ.1]
      simp [scripts, hhas]
    next => cases h

theorem name_mem_members {p : RequestPart} (h : p ∈ requestParts d) :
    p.name ∈ (InputShape.of e d).members.map Member.name := by
  simp only [requestParts, List.mem_append] at h
  simp only [InputShape.of, List.map_append, List.mem_append]
  rcases h with (h | h) | h <;> split at h <;>
    simp_all [RequestPart.name]

/-- The parameters are declared with a key for each dynamic segment. -/
theorem exists_params (h : e.segments ≠ []) :
    ∃ member ∈ (InputShape.of e d).members, member.name = "params" ∧
      ∃ inner keys, member.type = inBraces inner ∧ Entries inner keys ∧
        ∀ segment ∈ e.segments, segment ∈ keys := by
  have hfields : e.paramFields d ≠ [] := mt segments_eq_nil h
  refine ⟨⟨"params", false, objectType (e.paramFields d)⟩, ?_, rfl, _, _, ?_,
    entries_memberText hfields, fun segment hsegment => (prefix_paramFields e d).subset hsegment⟩
  · simp [InputShape.of, hfields]
  · rw [objectType, if_neg (by simpa using hfields)]

/-- What is emitted for the input of a method, read back from its lines: the URL that the method
requests and the names of the parameters in it, and everywhere else the same input. -/
structure InputsAgree (convention : Convention) (e : Endpoint) (d : Descriptor) (url : List Char)
    (names : List (List Char)) : Prop where
  /-- The interface and the method are parts of the client. -/
  client : e.clientScript ∈ e.scripts convention ∧ e.interfaceLines d <:+: e.clientScript.lines ∧
    e.methodLines d <:+: e.clientScript.lines
  /-- The method requests one URL, and its placeholders read the parameters. -/
  address : (e.methodLines d).flatMap addressIn = [url] ∧
    Rendered "input.params" (separate (· == '/') e.path.toList) (separate (· == '/') url) names
  /-- The method takes the input, under a name that says whether it reads anything from it. -/
  method : (e.methodLines d).flatMap parameterIn =
    [e.inputUnder d
      (if names = [] ∧ (e.methodLines d).flatMap passedIn = [] then "_input" else "input")]
  /-- So does every hook. -/
  hooks : ∀ hook ∈ e.inputHooks d convention, hook.1 ∈ e.scripts convention ∧
    hook.2.lines <:+: hook.1.lines ∧ hook.2.lines.flatMap parameterIn = [e.inputUnder d "input"]
  /-- What the method passes on is declared. -/
  passed : ∀ name ∈ (e.methodLines d).flatMap passedIn,
    name ∈ (e.inputMembers d).map Member.name
  /-- If there is a parameter in the URL, the parameters are declared, with a key for each. -/
  params : names ≠ [] → ∃ member ∈ e.inputMembers d, member.name = "params" ∧
    ∃ inner keys, member.type = inBraces inner ∧ Entries inner keys ∧
      ∀ name ∈ names, String.ofList name ∈ keys

/-- **A method's input is declared as it is used.** For every descriptor of a route, whatever it
declares, the method and the hooks take the input with a default exactly if no member of the
emitted interface is required; the method's parameter is called `input` exactly if there is a
parameter in the URL or a part of the input is passed on; and what is read from the input is a
member of the interface, with a key for each dynamic segment among the parameters. -/
theorem inputs_agree (convention : Convention) (e : Endpoint) {d : Descriptor}
    (hd : d ∈ e.configs) : ∃ url names, e.InputsAgree convention d url names := by
  have hslashless : '/' ∉ "input.params".toList := by decide
  obtain ⟨url, hurl, hrendered⟩ := rendered_pieces hslashless e.path
  let names := (Route.segments e.path.toList).filterMap dynamicName?
  have hsegments : e.segments = names.map String.ofList := by
    rw [segments, dynamicNames, List.map_filterMap]
  refine ⟨url, names, ?client, ⟨e.addressIn_methodLines d hurl, hrendered⟩, ?method, ?hooks,
    ?passed, ?params⟩
  case client =>
    exact ⟨e.clientScript_mem_scripts convention, interfaceLines_infix hd, methodLines_infix hd⟩
  case method =>
    have hread : (names = [] ∧ (e.methodLines d).flatMap passedIn = []) ↔
        (e.segments = [] ∧ requestParts d = []) := by
      rw [hsegments, passedIn_methodLines, List.map_eq_nil_iff, List.map_eq_nil_iff]
    rw [parameterIn_methodLines]
    simp only [hread]
  case hooks =>
    intro hook hhook
    obtain ⟨hscript, hlines⟩ := inputHooks_emitted hd hhook
    exact ⟨hscript, hlines, parameterIn_inputHooks hhook⟩
  case passed =>
    intro name hname
    rw [passedIn_methodLines] at hname
    obtain ⟨part, hpart, rfl⟩ := List.mem_map.mp hname
    rw [inputMembers_eq]
    exact name_mem_members hpart
  case params =>
    intro hne
    have hdynamic : e.segments ≠ [] := by
      rw [hsegments]
      simpa using hne
    obtain ⟨member, hmember, hparams, inner, keys, htype, hentries, hkeys⟩ :=
      exists_params (d := d) hdynamic
    rw [inputMembers_eq]
    exact ⟨member, hmember, hparams, inner, keys, htype, hentries,
      fun name hname => hkeys _ (hsegments ▸ List.mem_map_of_mem hname)⟩

theorem inputs_agree_put :
    let d : Descriptor :=
      { method := .put, fileName := "route.put.config.ts", headers := ⟨true, []⟩ }
    let e : Endpoint := ⟨⟨"app/posts/[post-id]"⟩, "/posts/[post-id]", [d]⟩
    d ∈ e.configs ∧ (∃ url names, e.InputsAgree .app d url names) ∧
      e.inputMembers d =
        [⟨"params", false, "\x7b \"post-id\": string \x7d"⟩,
         ⟨"headers", true, "Record<string, unknown>"⟩] ∧
      (e.methodLines d).flatMap parameterIn = [⟨"input", "PutPostsInput", false⟩] := by
  refine ⟨List.mem_singleton_self _, inputs_agree _ _ (List.mem_singleton_self _), ?_, ?_⟩ <;>
    decide +kernel

end Endpoint
end RouteScaffold.Artifact
