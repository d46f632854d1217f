import Mathlib.Data.List.Forall2
import RouteScaffold.Proofs.Artifact.Markup
import RouteScaffold.Proofs.Artifact.Names
import RouteScaffold.Proofs.Artifact.References
import RouteScaffold.Proofs.Artifact.Told

/-! What a form submits and what its action reads.

The action reads the form by calls that name a key in quotes; the component names the
same key in its attributes, escaped for markup. Both are read back from the generated
texts here, call by call (`formCalls`) and attribute by attribute (`attributes`), and
the keys agree one by one, whatever characters the names of the fields have
(`form_submits`). -/
namespace RouteScaffold.Artifact
open Route Text Text.Quoted

/-! ### Reading generated text -/

/-- The word between the last blank and a suffix, in a text with the last character first. -/
def wordBefore? (suffix : String) (before : List Char) : Option String :=
  if suffix.toList.reverse.isPrefixOf before then
    some (String.ofList ((before.drop suffix.length).takeWhile (· != ' ')).reverse)
  else none

/-- The function that is called with a form and a string, and what the string stands for. -/
def formCall? (found : List Char × List Char) : Option (String × Option String) :=
  (wordBefore? "(formData, " found.1).map (·, (unescape found.2).map String.ofList)

/-- The calls with a form and a string in a script. -/
def formCalls (script : String) : List (String × Option String) :=
  (strings true (.outside []) script.toList).filterMap formCall?

/-- The attribute that has a string as its value, and what the value shows. -/
def attribute? (found : List Char × List Char) : Option (String × String) :=
  (wordBefore? "=" found.1).map (·, decodeMarkup (String.ofList found.2))

/-- The attributes in markup. -/
def attributes (markup : String) : List (String × String) :=
  (strings false (.outside []) markup.toList).filterMap attribute?

theorem wordBefore?_word (suffix : String) {word : String} (hword : ' ' ∉ word.toList)
    (front : List Char) :
    wordBefore? suffix (front ++ ' ' :: (word.toList ++ suffix.toList)).reverse = some word := by
  have hback : (front ++ ' ' :: (word.toList ++ suffix.toList)).reverse =
      suffix.toList.reverse ++ (word.toList.reverse ++ ' ' :: front.reverse) := by simp
  have hblankless : ∀ c ∈ word.toList.reverse, (c != ' ') = true := fun c hc => by
    rw [bne_iff_ne]
    rintro rfl
    exact hword (List.mem_reverse.mp hc)
  rw [hback, wordBefore?, if_pos (List.isPrefixOf_iff_prefix.mpr (List.prefix_append ..)),
    ← String.length_toList, ← List.length_reverse, List.drop_left,
    List.takeWhile_append_of_pos hblankless, List.takeWhile_cons_of_neg (by simp),
    List.append_nil, List.reverse_reverse, String.ofList_toList]

/-- Blanks do not end in a suffix with another character. -/
theorem wordBefore?_blanks {suffix : String} {pad : List Char} {c : Char} (hc : c ∈ suffix.toList)
    (hblank : c ≠ ' ') (hpad : ∀ c ∈ pad, c = ' ') : wordBefore? suffix pad = none := by
  refine if_neg fun hstart => hblank (hpad c ?_)
  exact (List.isPrefixOf_iff_prefix.mp hstart).subset (List.mem_reverse.mpr hc)

/-! ### The action -/

/-- What a script tells by its calls with a form and a string. -/
abbrev ScriptTells := Tells (stringsIn true formCall?)

theorem formCall?_word {word : String} (hword : ' ' ∉ word.toList) (front : List Char)
    (key : String) :
    formCall? ((front ++ ' ' :: (word.toList ++ "(formData, ".toList)).reverse,
      escapes key.toList) = some (word, some key) := by
  rw [formCall?, wordBefore?_word "(formData, " hword, ofList_unescape_escapes]
  rfl

/-- A reading tells its reader and its key. -/
theorem lineTells_reading (r : Reading) :
    LineTells (stringsIn true formCall?) r.text [(r.reader.name, some r.key)] := by
  intro pad hpad
  let front : List Char := ':' :: ' ' :: (r.reader.name.toList ++ "(formData, ".toList)
  have hline : pad ++ r.text.toList = pad ++ '\x22' :: (escapes r.property.toList ++ '\x22' ::
      (front ++ '\x22' :: (escapes r.key.toList ++ '\x22' :: "),".toList))) := by
    simp [front, Reading.text, toList_quote]
  have hproperty : formCall? (pad.reverse, escapes r.property.toList) = none := by
    have hblanks : ∀ c ∈ pad.reverse, c = ' ' := fun c hc => hpad c (List.mem_reverse.mp hc)
    rw [formCall?, wordBefore?_blanks (c := '(') (by decide) (by decide) hblanks]
    rfl
  have hkey : formCall? (front.reverse, escapes r.key.toList) =
      some (r.reader.name, some r.key) := by
    have hblankless : ' ' ∉ r.reader.name.toList := by cases r.reader <;> decide
    exact formCall?_word hblankless [':'] r.key
  have hquote : '\x22' ∉ front := by cases hr : r.reader <;> simp [front, hr, Reader.name]
  have hbreak : '\n' ∉ front := by cases hr : r.reader <;> simp [front, hr, Reader.name]
  have hback : CharsTell (stringsIn true formCall?) "),".toList [] :=
    charsTell_quoteless (by decide)
  have hcall := hback.string hquote hbreak (takenIn_escapes r.key.toList)
  have hall := hcall.string (notMem_pad hpad (by decide)) (notMem_pad hpad (by decide))
    (takenIn_escapes r.property.toList)
  rw [hproperty, hkey] at hall
  rw [hline]
  exact hall

/-- A facet that is read as a whole tells its prefix. -/
theorem lineTells_readPrefixed {facet : String} (hquote : '\x22' ∉ facet.toList)
    (hbreak : '\n' ∉ facet.toList) :
    LineTells (stringsIn true formCall?)
      (facet ++ ": readPrefixed(formData, " ++ quote (facet ++ ".") ++ "),")
      [("readPrefixed", some (facet ++ "."))] := by
  intro pad hpad
  let front : List Char := pad ++ facet.toList ++ [':'] ++
    ' ' :: ("readPrefixed".toList ++ "(formData, ".toList)
  have hline : pad ++
      (facet ++ ": readPrefixed(formData, " ++ quote (facet ++ ".") ++ "),").toList =
      front ++ '\x22' :: (escapes (facet ++ ".").toList ++ '\x22' :: "),".toList) := by
    simp [front, toList_quote]
  have hkey : formCall? (front.reverse, escapes (facet ++ ".").toList) =
      some ("readPrefixed", some (facet ++ ".")) := formCall?_word (by decide) _ _
  have hquote : '\x22' ∉ front := by
    simp [front, hquote, notMem_pad hpad (c := '\x22') (by decide)]
  have hbreak : '\n' ∉ front := by
    simp [front, hbreak, notMem_pad hpad (c := '\n') (by decide)]
  have hback : CharsTell (stringsIn true formCall?) "),".toList [] :=
    charsTell_quoteless (by decide)
  have hall := hback.string hquote hbreak (takenIn_escapes (facet ++ ".").toList)
  rw [hkey] at hall
  rw [hline]
  exact hall

/-- The calls by which a facet is read. -/
def FacetReading.calls (f : FacetReading) : List (String × Option String) :=
  if f.readings.isEmpty then [("readPrefixed", some (f.facet ++ "."))]
  else f.readings.map fun r => (r.reader.name, some r.key)

theorem tells_facet {f : FacetReading} (hquote : '\x22' ∉ f.facet.toList)
    (hbreak : '\n' ∉ f.facet.toList) : ScriptTells f.lines f.calls := by
  rw [FacetReading.lines, FacetReading.calls]
  split
  next => exact tells_line (lineTells_readPrefixed hquote hbreak)
  next =>
    have hreadings : ScriptTells (f.readings.map Reading.text)
        (f.readings.map fun r => (r.reader.name, some r.key)) := by
      rw [List.map_eq_flatMap, List.map_eq_flatMap]
      exact tells_flatMap fun r _ => tells_line (lineTells_reading r)
    exact hreadings.block (by simpa using hquote) (by decide)

namespace Endpoint
variable (e : Endpoint) (d : Descriptor)

/-- A character that is neither a letter nor a number is not in the names made of the resource. -/
theorem notMem_stemOf (m : Method) {c : Char} (hc : isAlphanumeric c = false) :
    c ∉ (stemOf m e.resource).toList := by
  have htitle : ∀ c ∈ (title m).toList, isAlphanumeric c = true :=
    List.all_eq_true.mp (by cases m <;> decide)
  rw [stemOf_eq, String.toList_append, List.mem_append, not_or]
  exact ⟨fun h => by simp [htitle c h] at hc, e.notMem_resource hc⟩

theorem quoteless_stemOf (m : Method) : '\x22' ∉ (stemOf m e.resource).toList :=
  e.notMem_stemOf m (by decide)

theorem quoteless_formAction :
    '\x22' ∉ (e.formAction d).action.name.toList ∧
    '\x22' ∉ (e.formAction d).action.input.toList ∧
    '\x22' ∉ (e.formAction d).action.response.toList ∧
    '\x22' ∉ (configAlias (e.formAction d).action.config).toList := by
  have hresource : '\x22' ∉ e.resource.toList := e.notMem_resource (by decide)
  have htoken : '\x22' ∉ d.method.token.toList := by cases d.method <;> decide
  have hstem := e.quoteless_stemOf d.method
  refine ⟨?_, ?_, ?_, ?_⟩
  · simp [formAction, formActionName, hresource, htoken]
  · simp [formAction, action, inputTypeName, hstem]
  · simp [formAction, action, responseTypeName, hstem]
  · simp [formAction, action, configAlias, htoken]

/-- The function that reads a form tells the calls of its facets. -/
theorem tells_formAction : ScriptTells (Declaration.formAction (e.formAction d)).lines
    ((formReadings e d).flatMap FacetReading.calls) := by
  obtain ⟨hname, hinput, hresponse, halias⟩ := e.quoteless_formAction d
  have hfacets : ScriptTells ((formReadings e d).flatMap FacetReading.lines)
      ((formReadings e d).flatMap FacetReading.calls) := by
    refine tells_flatMap fun f hf => ?_
    have hfacet : f.facet = "body" ∨ f.facet = "params" := by
      rw [formReadings, List.mem_append] at hf
      rcases hf with hf | hf <;> split at hf <;> simp_all [FacetReading.of]
    rcases hfacet with hfacet | hfacet <;>
      exact tells_facet (by rw [hfacet]; decide) (by rw [hfacet]; decide)
  have hinvoke : ScriptTells ["return invokeHandler(" ++
      configAlias (e.formAction d).action.config ++ ", input as " ++
      (e.formAction d).action.input ++ ");"] [] :=
    tells_line (lineTells_quoteless (by simp [halias, hinput]))
  have hinputLines : ScriptTells
      (block "const input =" ((formReadings e d).flatMap FacetReading.lines) ";")
      ((formReadings e d).flatMap FacetReading.calls) := hfacets.block (by decide) (by decide)
  have hbody := hinputLines.append hinvoke
  rw [List.append_nil] at hbody
  exact hbody.block (by simp [hname, hresponse]) (by decide)

end Endpoint

/-! ### The component -/

/-- What markup tells by its attributes. -/
abbrev MarkupTells := Tells (stringsIn false attribute?)

/-- An attribute can have this name. -/
def IsAttribute (word : String) : Prop := ∀ c ∈ word.toList, c ≠ ' ' ∧ c ≠ '\x22' ∧ c ≠ '\n'

instance (word : String) : Decidable (IsAttribute word) := List.decidableBAll _ _

/-- An attribute tells its name and what its value shows. -/
theorem CharsTell.attribute {front back : List Char} {word : String}
    {told : List (String × String)} (hback : CharsTell (stringsIn false attribute?) back told)
    (hquote : '\x22' ∉ front) (hbreak : '\n' ∉ front) (hword : IsAttribute word) (value : String) :
    CharsTell (stringsIn false attribute?)
      (front ++ ' ' :: (word.toList ++ "=".toList) ++
        '\x22' :: ((escapeMarkup value).toList ++ '\x22' :: back))
      ((word, value) :: told) := by
  have htold : attribute? ((front ++ ' ' :: (word.toList ++ "=".toList)).reverse,
      (escapeMarkup value).toList) = some (word, value) := by
    rw [attribute?, wordBefore?_word "=" fun h => (hword _ h).1 rfl, String.ofList_toList,
      decodeMarkup_escapeMarkup]
    rfl
  have hquoteless : '\x22' ∉ word.toList := fun h => (hword _ h).2.1 rfl
  have hbreakless : '\n' ∉ word.toList := fun h => (hword _ h).2.2 rfl
  have hfront : '\x22' ∉ front ++ ' ' :: (word.toList ++ "=".toList) := by
    simp [hquote, hquoteless]
  have hline : '\n' ∉ front ++ ' ' :: (word.toList ++ "=".toList) := by
    simp [hbreak, hbreakless]
  have hall := hback.string hfront hline (takenIn_of_quoteless (quoteless_escapeMarkup value))
  rw [htold] at hall
  exact hall

/-- A line tells its first attribute and what stands behind it. -/
theorem lineTells_attribute (opening word value : String) {back : List Char}
    {told : List (String × String)} (hback : CharsTell (stringsIn false attribute?) back told)
    {line : String} (hline : line.toList = opening.toList ++ ' ' :: (word.toList ++ "=".toList) ++
      '\x22' :: ((escapeMarkup value).toList ++ '\x22' :: back))
    (hopening : '\x22' ∉ opening.toList ∧ '\n' ∉ opening.toList) (hword : IsAttribute word) :
    LineTells (stringsIn false attribute?) line ((word, value) :: told) := by
  intro pad hpad
  have hquote : '\x22' ∉ pad ++ opening.toList := by
    simp [hopening.1, notMem_pad hpad (c := '\x22') (by decide)]
  have hbreak : '\n' ∉ pad ++ opening.toList := by
    simp [hopening.2, notMem_pad hpad (c := '\n') (by decide)]
  have hall := hback.attribute hquote hbreak hword value
  rwa [List.append_assoc, List.append_assoc, ← List.append_assoc opening.toList, ← hline] at hall

/-- The attributes of an input and of its label. -/
def FormInput.attributes (i : FormInput) : List (String × String) :=
  [("htmlFor", i.key), ("id", i.key), ("name", i.key), ("type", i.inputType)]

namespace FormInput
variable (i : FormInput)

/-- What markup tells is told by the lines of the label and of the input. -/
theorem tells_of_lines {β : Type} {read : List Char → List β} {label input : String}
    {labelTold inputTold : List β} (hmarkup : i.markup = ["<div>", label, input, "</div>"])
    (hopening : LineTells read "<div>" []) (hlabel : LineTells read label labelTold)
    (hinput : LineTells read input inputTold) (hclosing : LineTells read "</div>" []) :
    Tells read i.markup (labelTold ++ inputTold) := by
  have htells := Tells.cons hopening (.cons hlabel (.cons hinput (tells_line hclosing)))
  rwa [List.nil_append, List.append_nil, ← hmarkup] at htells

theorem lineTells_label :
    LineTells (stringsIn false attribute?)
      ("  <label htmlFor=\"" ++ escapeMarkup i.key ++ "\">" ++ escapeMarkup i.label ++ "</label>")
      [("htmlFor", i.key)] := by
  let back : List Char := '>' :: ((escapeMarkup i.label).toList ++ "</label>".toList)
  have hback : CharsTell (stringsIn false attribute?) back [] :=
    charsTell_quoteless (by simp [back, quoteless_escapeMarkup])
  exact lineTells_attribute "  <label" "htmlFor" i.key hback (by simp [back]) (by decide)
    (by decide)

theorem lineTells_input (htype : escapeMarkup i.inputType = i.inputType) :
    LineTells (stringsIn false attribute?)
      ("  <input id=\"" ++ escapeMarkup i.key ++ "\" name=\"" ++ escapeMarkup i.key ++
        "\" type=\"" ++ i.inputType ++ "\"" ++ (if i.required then " required" else "") ++ " />")
      [("id", i.key), ("name", i.key), ("type", i.inputType)] := by
  let back : List Char := ((if i.required then " required" else "") ++ " />").toList
  let typed : List Char := [] ++ ' ' :: ("type".toList ++ "=".toList) ++
    '\x22' :: ((escapeMarkup i.inputType).toList ++ '\x22' :: back)
  let named : List Char := [] ++ ' ' :: ("name".toList ++ "=".toList) ++
    '\x22' :: ((escapeMarkup i.key).toList ++ '\x22' :: typed)
  have hback : CharsTell (stringsIn false attribute?) back [] :=
    charsTell_quoteless (by cases hr : i.required <;> simp [back, hr])
  have htyped : CharsTell (stringsIn false attribute?) typed [("type", i.inputType)] :=
    hback.attribute (by simp) (by simp) (by decide) i.inputType
  have hnamed : CharsTell (stringsIn false attribute?) named
      [("name", i.key), ("type", i.inputType)] :=
    htyped.attribute (by simp) (by simp) (by decide) i.key
  exact lineTells_attribute "  <input" "id" i.key hnamed (by simp [back, named, typed, htype])
    (by decide) (by decide)

theorem tells_attributes (htype : escapeMarkup i.inputType = i.inputType) :
    MarkupTells i.markup i.attributes :=
  i.tells_of_lines rfl (lineTells_quoteless (by decide)) i.lineTells_label
    (i.lineTells_input htype) (lineTells_quoteless (by decide))

end FormInput

theorem escapeMarkup_inputType (type : BaseType) :
    escapeMarkup type.inputType = type.inputType := by
  have hplain : ∀ text ∈ ["text", "number", "checkbox"], escapeMarkup text = text := by
    decide +kernel
  exact hplain _ (by cases type <;> simp [BaseType.inputType])

theorem escapeMarkup_inputType_of_mem {e : Endpoint} {d : Descriptor} {i : FormInput}
    (h : i ∈ formInputs e d) : escapeMarkup i.inputType = i.inputType := by
  rw [formInputs, List.mem_append, List.mem_map, List.mem_map] at h
  rcases h with ⟨field, -, rfl⟩ | ⟨field, -, rfl⟩ <;> exact escapeMarkup_inputType field.type

/-- The lines of a component around its inputs. -/
def componentFrame (name : String) : List String :=
  ["export function " ++ name ++ "()" ++ " \x7b", "return (", "<>", "</>", ");", "\x7d" ++ ""]

/-- What a component tells is told by the markup of its inputs, if the lines around it tell
nothing. -/
theorem tells_formComponentLines {β : Type} {read : List Char → List β} {name : String}
    {inputs : List FormInput} {told : FormInput → List β}
    (hframe : ∀ line ∈ componentFrame name, LineTells read line [])
    (hinputs : ∀ i ∈ inputs, Tells read i.markup (told i)) :
    Tells read (formComponentLines name inputs) (inputs.flatMap told) := by
  simp only [componentFrame, List.forall_mem_cons] at hframe
  obtain ⟨hhead, hreturn, hopening, hclosing, hreturned, htail, -⟩ := hframe
  have hfragment := ((tells_line hopening).append (tells_flatMap hinputs).indent).append
    (tells_line hclosing)
  have hbody := ((tells_line hreturn).append hfragment.indent).append (tells_line hreturned)
  rw [List.nil_append, List.append_nil, List.nil_append, List.append_nil] at hbody
  exact hbody.enclose hhead htail

namespace Endpoint
variable (e : Endpoint) (d : Descriptor)

/-- The component tells the attributes of its inputs. -/
theorem tells_formComponent : MarkupTells
    (Declaration.formComponent (formFieldsName d.method e.resource) (formInputs e d)).lines
    ((formInputs e d).flatMap FormInput.attributes) := by
  have hstem := e.quoteless_stemOf d.method
  have hframe : ∀ line ∈ componentFrame (formFieldsName d.method e.resource),
      '\x22' ∉ line.toList :=
    List.forall_mem_cons.mpr ⟨by simp [formFieldsName, hstem], by decide⟩
  exact tells_formComponentLines (fun line hline => lineTells_quoteless (hframe line hline))
    fun i hi => i.tells_attributes (escapeMarkup_inputType_of_mem hi)

end Endpoint

/-! ### What agrees -/

/-- The calls that read a single value: the reader and the key. -/
def singleReads (script : String) : List (String × Option String) :=
  (formCalls script).filter (·.1 != "readPrefixed")

/-- The prefixes of the calls that read all values whose key starts with one. -/
def prefixReads (script : String) : List (Option String) :=
  ((formCalls script).filter (·.1 == "readPrefixed")).map Prod.snd

/-- The types of inputs, and the reader that fits each. -/
def fittingReaders : List (String × String) :=
  [("number", "readNumber"), ("checkbox", "readBoolean"), ("text", "readString")]

namespace Endpoint

/-- The function that reads the form of a method. -/
def formActionText (e : Endpoint) (d : Descriptor) : String :=
  unlines (Declaration.formAction (e.formAction d)).lines

/-- The component with the inputs of a method's form. -/
def formComponentText (e : Endpoint) (d : Descriptor) : String :=
  unlines (Declaration.formComponent (formFieldsName d.method e.resource) (formInputs e d)).lines

end Endpoint

/-- The text has the part somewhere. -/
def Contains (text part : String) : Prop := ∃ before after, text = before ++ part ++ after

/-- What the form of a method submits is what its action reads. -/
structure Submits (e : Endpoint) (d : Descriptor) : Prop where
  /-- The function stands in the module of the form actions. -/
  action : e.formActionsScript ∈ e.scripts .app ∧
    Contains e.formActionsScript.text (e.formActionText d)
  /-- The component stands in the module of the form fields. -/
  component : e.formFieldsScript ∈ e.scripts .app ∧
    Contains e.formFieldsScript.text (e.formComponentText d)
  /-- The values read one by one are those of the inputs, each by a reader that fits. -/
  single : List.Forall₂
    (fun read input => read.2 = some input.key ∧ (input.inputType, read.1) ∈ fittingReaders)
    (singleReads (e.formActionText d)) (formInputs e d)
  /-- A declared facet without fields is read by its prefix. -/
  prefixed : prefixReads (e.formActionText d) =
    (if d.body.fields = [] then [some "body."] else []) ++
      (if d.params.declared = true ∧ e.paramFields d = [] then [some "params."] else [])
  /-- A facet that is read by its prefix has no input. -/
  unasked : ∀ start, some start ∈ prefixReads (e.formActionText d) →
    ∀ input ∈ formInputs e d, ¬ start.toList <+: input.key.toList
  /-- The attributes name the keys of the inputs. -/
  attributes : attributes (e.formComponentText d) =
    (formInputs e d).flatMap FormInput.attributes

section submitting
variable {e : Endpoint} {d : Descriptor}

theorem calls_formActionText : formCalls (e.formActionText d) =
    (formReadings e d).flatMap FacetReading.calls := (e.tells_formAction d).text

theorem Script.contains_declaration {s : Script} {declaration : Declaration}
    (h : declaration ∈ s.declarations) : Contains s.text (unlines declaration.lines) := by
  obtain ⟨before, after, hlines⟩ := s.infix_lines h
  exact ⟨unlines before, unlines after, by
    rw [Script.text, ← hlines, unlines_append, unlines_append]⟩

/-- The single values that a facet's reading asks for. -/
def singleCalls (facet : String) (fields : List Field) : List (String × Option String) :=
  fields.map fun field => ((Reader.ofType field.type).name, some (formKey facet field))

theorem calls_of (facet : String) (fields : List Field) : (FacetReading.of facet fields).calls =
    if fields.isEmpty then [("readPrefixed", some (facet ++ "."))]
    else singleCalls facet fields := by
  simp [FacetReading.calls, FacetReading.of, singleCalls, Reading.of, Function.comp_def]

theorem ne_prefixed_of_mem {facet : String} {fields : List Field}
    {call : String × Option String} (h : call ∈ singleCalls facet fields) :
    (call.1 != "readPrefixed") = true := by
  have hreader : ∀ reader : Reader, (reader.name != "readPrefixed") = true := by
    intro reader
    cases reader <;> decide
  obtain ⟨field, -, rfl⟩ := List.mem_map.mp h
  exact hreader _

theorem filter_single (facet : String) (fields : List Field) :
    (FacetReading.of facet fields).calls.filter (·.1 != "readPrefixed") =
      singleCalls facet fields := by
  rw [calls_of]
  split
  next hempty =>
    rw [List.isEmpty_iff.mp hempty]
    rfl
  next => exact List.filter_eq_self.mpr fun _ => ne_prefixed_of_mem

theorem filter_prefixed (facet : String) (fields : List Field) :
    ((FacetReading.of facet fields).calls.filter (·.1 == "readPrefixed")).map Prod.snd =
      if fields = [] then [some (facet ++ ".")] else [] := by
  rw [calls_of]
  by_cases hempty : fields = []
  · rw [if_pos (List.isEmpty_iff.mpr hempty), if_pos hempty]
    rfl
  · rw [if_neg (by simpa using hempty), if_neg hempty, List.map_eq_nil_iff, List.filter_eq_nil_iff]
    exact fun call hcall => by simpa using ne_prefixed_of_mem hcall

theorem forall₂_fitting (facet : String) (fields : List Field) : List.Forall₂
    (fun read input => read.2 = some input.key ∧ (input.inputType, read.1) ∈ fittingReaders)
    (singleCalls facet fields) (fields.map (FormInput.of facet)) := by
  rw [singleCalls, List.forall₂_map_left_iff, List.forall₂_map_right_iff, List.forall₂_same]
  refine fun field _ => ⟨rfl, ?_⟩
  show (field.type.inputType, _) ∈ _
  cases field.type <;> simp [fittingReaders, BaseType.inputType, Reader.ofType, Reader.name]

/-- The keys of one facet do not start with the name of another. -/
theorem not_prefix_formKey {start : List Char} {facet : String}
    (h : ¬ start <+: (facet ++ ".").toList ∧ ¬ (facet ++ ".").toList <+: start) (field : Field) :
    ¬ start <+: (FormInput.of facet field).key.toList := by
  intro hstart
  have hfacet : (facet ++ ".").toList <+: (FormInput.of facet field).key.toList := by
    have hkey : (FormInput.of facet field).key.toList =
        (facet ++ ".").toList ++ field.name.toList := String.toList_append
    rw [hkey]
    exact List.prefix_append ..
  exact (List.prefix_or_prefix_of_prefix hstart hfacet).elim h.1 h.2

end submitting

/-- **Submitting a form feeds its action**, for every route and every method with a body: what is
read are the keys of the inputs in their order, and the attributes show the same keys. -/
theorem form_submits {e : Endpoint} {d : Descriptor} (hd : d ∈ e.bodyConfigs) : Submits e d := by
  have hdeclared : d.body.declared = true := (List.mem_filter.mp hd).2
  have hbody : e.hasBody = true := e.hasBody_iff.mpr (List.ne_nil_of_mem hd)
  have hcalls : formCalls (e.formActionText d) =
      (FacetReading.of "body" d.body.fields).calls ++
        if d.params.declared || !(e.paramFields d).isEmpty then
          (FacetReading.of "params" (e.paramFields d)).calls else [] := by
    rw [calls_formActionText, formReadings, if_pos hdeclared]
    split <;> simp
  have hprefixed : prefixReads (e.formActionText d) =
      (if d.body.fields = [] then [some "body."] else []) ++
        (if d.params.declared = true ∧ e.paramFields d = [] then [some "params."] else []) := by
    rw [prefixReads, hcalls, List.filter_append, List.map_append, filter_prefixed]
    refine congrArg _ ?_
    by_cases hempty : e.paramFields d = []
    · cases hparams : d.params.declared
      · simp [hempty]
      · rw [if_pos (by simp), filter_prefixed]
        simp [hempty]
    · rw [if_pos (by simp [hempty]), filter_prefixed]
      simp [hempty]
  refine ⟨⟨by simp [Endpoint.scripts, hbody], ?_⟩, ⟨by simp [Endpoint.scripts, hbody], ?_⟩, ?_, ?_,
    ?_, (e.tells_formComponent d).text⟩
  · exact Script.contains_declaration
      (List.mem_cons_of_mem _ (List.mem_map.mpr ⟨d, hd, rfl⟩))
  · exact Script.contains_declaration (List.mem_cons_of_mem _
      (List.mem_flatMap.mpr ⟨d, hd, List.mem_cons_of_mem _ (List.mem_singleton_self _)⟩))
  · rw [singleReads, hcalls, List.filter_append, filter_single]
    refine List.rel_append (forall₂_fitting "body" d.body.fields) ?_
    split
    next =>
      rw [filter_single]
      exact forall₂_fitting "params" (e.paramFields d)
    next hnone =>
      have hempty : e.paramFields d = [] := by simp_all
      rw [hempty]
      exact .nil
  · exact hprefixed
  · intro start hstart input hinput
    rw [hprefixed, List.mem_append] at hstart
    rcases hstart with hstart | hstart <;> split at hstart
    next hempty =>
      obtain rfl := Option.some.inj (List.mem_singleton.mp hstart)
      rw [formInputs, hempty] at hinput
      obtain ⟨field, -, rfl⟩ := List.mem_map.mp hinput
      exact not_prefix_formKey (by decide) field
    next => cases hstart
    next hempty =>
      obtain rfl := Option.some.inj (List.mem_singleton.mp hstart)
      rw [formInputs, hempty.2, List.map_nil, List.append_nil] at hinput
      obtain ⟨field, -, rfl⟩ := List.mem_map.mp hinput
      exact not_prefix_formKey (by decide) field
    next => cases hstart

/-- The name of a field that spells entities and breaks lines, beside an undeclared segment. -/
theorem form_submits_entities :
    let d : Descriptor := {
      method := .post
      fileName := "route.post.config.ts"
      body := { declared := true, fields := [⟨"a\"b\\&quot;\n<c>", .number, false⟩] } }
    let e : Endpoint := ⟨⟨"app/posts/[postId]"⟩, "/posts/[postId]", [d]⟩
    d ∈ e.bodyConfigs ∧ Submits e d := by
  intro d e
  have hd : d ∈ e.bodyConfigs := List.mem_singleton_self d
  exact ⟨hd, form_submits hd⟩

end RouteScaffold.Artifact
