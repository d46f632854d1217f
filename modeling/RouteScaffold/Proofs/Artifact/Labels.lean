import RouteScaffold.Proofs.Artifact.Signatures
import RouteScaffold.Proofs.Artifact.Submitted
import RouteScaffold.Proofs.Route.Humps
import RouteScaffold.Source.Validator

/-! What the name of a field does to the markup of a form.

The label of a field is read back from the component between its tags, and the values of
the attributes from the tags, whatever characters the name has. Escaping keeps angle
brackets and quotes out of both, and what is read back shows the label and the key. The
braces, between which markup has code, are escaped nowhere, so they stand in a label
exactly if they stand in the name (`formMarkup`). -/
namespace RouteScaffold.Route
open Text

/-! ### Braces in labels -/

def IsBrace (c : Char) : Prop := c = '\x7b' ∨ c = '\x7d'

theorem IsBrace.toNat {b : Char} (hb : IsBrace b) : b.toNat = 0x7b ∨ b.toNat = 0x7d :=
  hb.imp (congrArg Char.toNat) (congrArg Char.toNat)

/-- No other character has a brace in its upper-case form. -/
theorem IsBrace.eq_of_mem_upper {b c : Char} (hb : IsBrace b) (h : b ∈ upper c) : b = c := by
  have := hb.toNat
  exact Text.eq_of_mem_upper (by omega) (by omega) (by omega) h

theorem IsBrace.mem_upper_iff {b : Char} (hb : IsBrace b) (c : Char) : b ∈ upper c ↔ b = c := by
  refine ⟨hb.eq_of_mem_upper, ?_⟩
  rintro rfl
  rcases hb with rfl | rfl <;> decide

theorem IsBrace.mem_capitalize_iff {b : Char} (hb : IsBrace b) (word : List Char) :
    b ∈ capitalize word ↔ b ∈ word := by
  cases word with
  | nil => rfl
  | cons c rest => rw [capitalize, List.mem_append, hb.mem_upper_iff, List.mem_cons]

theorem mem_intercalate_iff {c : Char} {between : List Char} (hc : c ∉ between)
    (parts : List (List Char)) : c ∈ List.intercalate between parts ↔ c ∈ parts.flatten := by
  have hother : ∀ d ∈ between, (d == c) = false := by
    intro d hd
    rw [beq_eq_false_iff_ne]
    rintro rfl
    exact hc hd
  have hmem (cs : List Char) : c ∈ cs ↔ c ∈ cs.filter (· == c) := by simp
  rw [hmem, filter_intercalate hother, ← hmem]

/-- A label has the braces of its name. -/
theorem IsBrace.mem_labelOf_iff {b : Char} (hb : IsBrace b) (name : String) :
    b ∈ (labelOf name).toList ↔ b ∈ name.toList := by
  have hblank : b ∉ [' '] := by
    rcases hb with rfl | rfl <;> decide
  rw [labelOf, String.toList_ofList, mem_intercalate_iff hblank, flatten_map_capitalize_humps,
    hb.mem_capitalize_iff]

end RouteScaffold.Route

namespace RouteScaffold.Artifact
open Route Text

/-! ### Reading elements -/

/-- What stands behind each place where the pattern starts. -/
def behind (pattern : List Char) : List Char → List (List Char)
  | [] => []
  | c :: cs =>
    if pattern.isPrefixOf (c :: cs) then (c :: cs).drop pattern.length :: behind pattern cs
    else behind pattern cs

/-- What stands in front of the first place where the pattern starts. -/
def upTo (pattern : List Char) : List Char → List Char
  | [] => []
  | c :: cs => if pattern.isPrefixOf (c :: cs) then [] else c :: upTo pattern cs

/-- What a reader makes of what stands behind each place where the pattern starts. -/
def elementsIn {β : Type} (pattern : List Char) (f : List Char → β) (cs : List Char) : List β :=
  (behind pattern cs).map f

/-- The rest of a tag. -/
def attributesOf (cs : List Char) : String := String.ofList (cs.span (· != '>')).1

/-- What stands behind the rest of a tag, up to the closing tag of a label. -/
def labelText (cs : List Char) : String :=
  String.ofList (upTo "</label>".toList ((cs.span (· != '>')).2.drop 1))

/-- The labels in markup: the attributes as they are written, and what stands between the tags. -/
def labelsIn (cs : List Char) : List (String × String) :=
  elementsIn ['<', 'l', 'a', 'b', 'e', 'l', ' '] (fun cs => (attributesOf cs, labelText cs)) cs

/-- The attributes of the inputs in markup, as they are written. -/
def inputsIn (cs : List Char) : List String :=
  elementsIn ['<', 'i', 'n', 'p', 'u', 't', ' '] attributesOf cs

/-! ### Passing text over -/

/-- Behind each opening bracket another character follows than the one that is looked for. -/
def passes (first : Char) : List Char → Bool
  | [] => true
  | c :: cs => (c != '<' || cs.head?.any (· != first)) && passes first cs

section passing
variable {β : Type} {first : Char} {more : List Char} {f : List Char → β}

theorem passes_append {a b : List Char} (ha : passes first a = true) (hb : passes first b = true) :
    passes first (a ++ b) = true := by
  induction a with
  | nil => exact hb
  | cons c a ih =>
    rw [passes, Bool.and_eq_true] at ha
    rw [List.cons_append, passes, ih ha.2, Bool.and_true]
    cases a with
    | nil => simp_all
    | cons d a => exact ha.1

theorem passes_of_notMem {cs : List Char} (h : '<' ∉ cs) : passes first cs = true := by
  induction cs with
  | nil => rfl
  | cons c cs ih =>
    rw [List.mem_cons, not_or] at h
    rw [passes, ih h.2, bne_iff_ne.mpr (Ne.symm h.1)]
    rfl

theorem behind_passes {front : List Char} (h : passes first front = true) (rest : List Char) :
    behind ('<' :: first :: more) (front ++ rest) = behind ('<' :: first :: more) rest := by
  induction front with
  | nil => rfl
  | cons c front ih =>
    rw [passes, Bool.and_eq_true, Bool.or_eq_true] at h
    have hstart : ¬ ('<' :: first :: more).isPrefixOf (c :: (front ++ rest)) = true := by
      rw [List.isPrefixOf_iff_prefix]
      intro hopening
      obtain ⟨hbracket, hname⟩ := List.cons_prefix_cons.mp hopening
      cases front with
      | nil => simp [← hbracket] at h
      | cons d front =>
        have hfirst := (List.cons_prefix_cons.mp hname).1
        simp [← hbracket, ← hfirst] at h
    rw [List.cons_append, behind, if_neg hstart]
    exact ih h.2

theorem behind_pattern (hmore : '<' ∉ first :: more) (rest : List Char) :
    behind ('<' :: first :: more) ('<' :: first :: more ++ rest) =
      rest :: behind ('<' :: first :: more) rest := by
  have hstart : ('<' :: first :: more).isPrefixOf ('<' :: (first :: more ++ rest)) = true :=
    List.isPrefixOf_iff_prefix.mpr (List.prefix_append ('<' :: first :: more) rest)
  rw [List.cons_append, behind, if_pos hstart, behind_passes (passes_of_notMem hmore)]
  have hdrop : ('<' :: first :: more ++ rest).drop ('<' :: first :: more).length = rest :=
    List.drop_left
  exact congrArg (· :: _) hdrop

theorem lineTells_passes {line : String} (h : passes first line.toList = true) :
    LineTells (elementsIn ('<' :: first :: more) f) line [] := by
  intro pad hpad rest
  have hpadded := passes_append (passes_of_notMem (notMem_pad hpad (by decide))) h
  have hline : pad ++ line.toList ++ '\n' :: rest = (pad ++ line.toList ++ ['\n']) ++ rest := by
    simp
  rw [hline, elementsIn, behind_passes (passes_append hpadded rfl)]
  rfl

/-- A line with an element tells what the reader makes of it. -/
theorem lineTells_element {line : String} {front back : List Char} {told : β}
    (hline : line.toList = front ++ ('<' :: first :: more ++ back)) (hmore : '<' ∉ first :: more)
    (hfront : passes first front = true) (hback : passes first back = true)
    (htold : ∀ rest, f (back ++ rest) = told) :
    LineTells (elementsIn ('<' :: first :: more) f) line [told] := by
  intro pad hpad rest
  have hpadded := passes_append (passes_of_notMem (notMem_pad hpad (by decide))) hfront
  have hsplit : pad ++ line.toList ++ '\n' :: rest =
      (pad ++ front) ++ ('<' :: first :: more ++ ((back ++ ['\n']) ++ rest)) := by
    rw [hline]
    simp
  rw [hsplit, elementsIn, behind_passes hpadded, behind_pattern hmore, List.map_cons,
    behind_passes (passes_append hback rfl), List.append_assoc, htold]
  rfl

end passing

/-- The text in front of an opening bracket ends where the pattern starts. -/
theorem upTo_append {pattern : List Char} {first : Char} (hfirst : pattern.head? = some first)
    {front : List Char} (hfront : first ∉ front) (rest : List Char) :
    upTo pattern (front ++ (pattern ++ rest)) = front := by
  obtain ⟨tail, rfl⟩ := List.head?_eq_some_iff.mp hfirst
  induction front with
  | nil =>
    have hstart : (first :: tail).isPrefixOf (first :: (tail ++ rest)) = true :=
      List.isPrefixOf_iff_prefix.mpr (List.prefix_append (first :: tail) rest)
    rw [List.nil_append, List.cons_append, upTo, if_pos hstart]
  | cons c front ih =>
    rw [List.mem_cons, not_or] at hfront
    rw [List.cons_append, upTo, if_neg (by simp [hfront.1]), ih hfront.2]

/-! ### The component -/

/-- No tag starts or ends in the text. -/
def IsTagless (s : String) : Prop := '<' ∉ s.toList ∧ '>' ∉ s.toList

theorem isTagless_escapeMarkup (s : String) : IsTagless (escapeMarkup s) :=
  ⟨notMem_escapeMarkup (by decide) (by decide) s, notMem_escapeMarkup (by decide) (by decide) s⟩

theorem IsTagless.append {a b : String} (ha : IsTagless a) (hb : IsTagless b) :
    IsTagless (a ++ b) := by
  unfold IsTagless at *
  simp [ha, hb]

namespace FormInput
variable (i : FormInput)

/-- The attributes of an input's label as they are written, and what stands between its tags. -/
def labelWritten : String × String :=
  ("htmlFor=\"" ++ escapeMarkup i.key ++ "\"", escapeMarkup i.label)

/-- The attributes of an input as they are written. -/
def tagWritten : String :=
  "id=\"" ++ escapeMarkup i.key ++ "\" name=\"" ++ escapeMarkup i.key ++ "\" type=\"" ++
    i.inputType ++ "\"" ++ (if i.required then " required" else "") ++ " /"

theorem markup_eq : i.markup =
    ["<div>",
     "  <label " ++ i.labelWritten.1 ++ ">" ++ i.labelWritten.2 ++ "</label>",
     "  <input " ++ i.tagWritten ++ ">",
     "</div>"] := by
  simp [markup, labelWritten, tagWritten, ← String.toList_inj]

theorem isTagless_labelWritten : IsTagless i.labelWritten.1 := by
  have hquoted : IsTagless "htmlFor=\"" ∧ IsTagless "\"" := by unfold IsTagless; decide
  exact (hquoted.1.append (isTagless_escapeMarkup i.key)).append hquoted.2

theorem isTagless_tagWritten (htype : escapeMarkup i.inputType = i.inputType) :
    IsTagless i.tagWritten := by
  have hkey := isTagless_escapeMarkup i.key
  have htype' := isTagless_escapeMarkup i.inputType
  rw [htype] at htype'
  have hrest : ∀ required : Bool, IsTagless "id=\"" ∧ IsTagless "\" name=\"" ∧
      IsTagless "\" type=\"" ∧ IsTagless "\"" ∧
      IsTagless (if required then " required" else "") ∧ IsTagless " /" := by
    unfold IsTagless
    decide
  obtain ⟨hid, hname, htyped, hquote, hrequired, hend⟩ := hrest i.required
  exact (((((((hid.append hkey).append hname).append hkey).append htyped).append htype').append
    hquote).append hrequired).append hend

theorem passes_label : passes 'i'
    ("  <label " ++ i.labelWritten.1 ++ ">" ++ i.labelWritten.2 ++ "</label>").toList = true := by
  have hattributes : passes 'i' i.labelWritten.1.toList = true :=
    passes_of_notMem i.isTagless_labelWritten.1
  have htext : passes 'i' i.labelWritten.2.toList = true :=
    passes_of_notMem (isTagless_escapeMarkup i.label).1
  simp only [String.toList_append]
  exact passes_append (passes_append (passes_append (passes_append (by decide) hattributes)
    (by decide)) htext) (by decide)

theorem passes_input (htype : escapeMarkup i.inputType = i.inputType) :
    passes 'l' ("  <input " ++ i.tagWritten ++ ">").toList = true := by
  have htag : passes 'l' i.tagWritten.toList = true :=
    passes_of_notMem (i.isTagless_tagWritten htype).1
  rw [String.toList_append, String.toList_append]
  exact passes_append (passes_append (by decide) htag) (by decide)

/-- The line of a label tells the label. -/
theorem labelsIn_label : LineTells labelsIn
    ("  <label " ++ i.labelWritten.1 ++ ">" ++ i.labelWritten.2 ++ "</label>")
    [i.labelWritten] := by
  have hlabel : IsTagless i.labelWritten.2 := isTagless_escapeMarkup i.label
  have hclosing : "</label>".toList.head? = some '<' := rfl
  let back : List Char :=
    i.labelWritten.1.toList ++ '>' :: (i.labelWritten.2.toList ++ "</label>".toList)
  have hback : passes 'l' back = true := by
    have hattributes : passes 'l' (i.labelWritten.1.toList ++ ['>']) = true :=
      passes_append (passes_of_notMem i.isTagless_labelWritten.1) (by decide)
    have htext : passes 'l' (i.labelWritten.2.toList ++ "</label>".toList) = true :=
      passes_append (passes_of_notMem hlabel.1) (by decide)
    have hjoined := passes_append hattributes htext
    rwa [List.append_assoc, List.singleton_append] at hjoined
  have htold (rest : List Char) :
      (attributesOf (back ++ rest), labelText (back ++ rest)) = i.labelWritten := by
    have hsplit : back ++ rest = i.labelWritten.1.toList ++
        '>' :: (i.labelWritten.2.toList ++ ("</label>".toList ++ rest)) := by
      simp [back]
    rw [hsplit, attributesOf, labelText, span_append i.isTagless_labelWritten.2]
    dsimp only
    rw [List.drop_one, List.tail_cons, upTo_append hclosing hlabel.1, String.ofList_toList,
      String.ofList_toList]
  have hline : ("  <label " ++ i.labelWritten.1 ++ ">" ++ i.labelWritten.2 ++ "</label>").toList =
      [' ', ' '] ++ (['<', 'l', 'a', 'b', 'e', 'l', ' '] ++ back) := by
    simp [back]
  exact lineTells_element hline (by decide) (by decide) hback htold

/-- The line of an input tells its attributes. -/
theorem inputsIn_input (htype : escapeMarkup i.inputType = i.inputType) :
    LineTells inputsIn ("  <input " ++ i.tagWritten ++ ">") [i.tagWritten] := by
  have htag := i.isTagless_tagWritten htype
  have hline : ("  <input " ++ i.tagWritten ++ ">").toList =
      [' ', ' '] ++ (['<', 'i', 'n', 'p', 'u', 't', ' '] ++ (i.tagWritten.toList ++ ['>'])) := by
    simp
  have htold (rest : List Char) : attributesOf (i.tagWritten.toList ++ ['>'] ++ rest) =
      i.tagWritten := by
    rw [List.append_assoc, List.singleton_append, attributesOf, span_append htag.2,
      String.ofList_toList]
  exact lineTells_element hline (by decide) (by decide)
    (passes_append (passes_of_notMem htag.1) rfl) htold

theorem tells_label (htype : escapeMarkup i.inputType = i.inputType) :
    Tells labelsIn i.markup [i.labelWritten] :=
  i.tells_of_lines i.markup_eq (lineTells_passes (by decide)) i.labelsIn_label
    (lineTells_passes (i.passes_input htype)) (lineTells_passes (by decide))

theorem tells_input (htype : escapeMarkup i.inputType = i.inputType) :
    Tells inputsIn i.markup [i.tagWritten] :=
  i.tells_of_lines i.markup_eq (lineTells_passes (by decide)) (lineTells_passes i.passes_label)
    (i.inputsIn_input htype) (lineTells_passes (by decide))

end FormInput

section component
variable (e : Endpoint) (d : Descriptor)

theorem passes_componentFrame {first : Char} (h : first = 'l' ∨ first = 'i') :
    ∀ line ∈ componentFrame (formFieldsName d.method e.resource),
      passes first line.toList = true := by
  have hname : '<' ∉ (formFieldsName d.method e.resource).toList := by
    have hstem := e.notMem_stemOf d.method (c := '<') (by decide)
    simp [formFieldsName, hstem]
  refine List.forall_mem_cons.mpr ⟨passes_of_notMem (by simp [hname]), ?_⟩
  rcases h with rfl | rfl <;> decide

/-- The labels of a component. -/
theorem labelsIn_formComponentText : labelsIn (e.formComponentText d).toList =
    (formInputs e d).map FormInput.labelWritten := by
  have htells : Tells labelsIn
      (formComponentLines (formFieldsName d.method e.resource) (formInputs e d))
      ((formInputs e d).flatMap fun i => [i.labelWritten]) :=
    tells_formComponentLines
      (fun line hline => lineTells_passes (passes_componentFrame e d (.inl rfl) line hline))
      fun i hi => i.tells_label (escapeMarkup_inputType_of_mem hi)
  rw [List.map_eq_flatMap]
  exact htells.read_unlines rfl

/-- The inputs of a component. -/
theorem inputsIn_formComponentText : inputsIn (e.formComponentText d).toList =
    (formInputs e d).map FormInput.tagWritten := by
  have htells : Tells inputsIn
      (formComponentLines (formFieldsName d.method e.resource) (formInputs e d))
      ((formInputs e d).flatMap fun i => [i.tagWritten]) :=
    tells_formComponentLines
      (fun line hline => lineTells_passes (passes_componentFrame e d (.inr rfl) line hline))
      fun i hi => i.tells_input (escapeMarkup_inputType_of_mem hi)
  rw [List.map_eq_flatMap]
  exact htells.read_unlines rfl

end component

/-! ### What markup shows of a field -/

/-- The fields that a form asks for, each with its facet. -/
def formFields (e : Endpoint) (d : Descriptor) : List (String × Field) :=
  d.body.fields.map ("body", ·) ++ (e.paramFields d).map ("params", ·)

/-- An attribute's value as it is written ends at its quotes, and shows the key of the field. -/
structure Keyed (value : String) (field : String × Field) : Prop where
  quoteless : '\x22' ∉ value.toList
  shown : decodeMarkup value = field.1 ++ "." ++ field.2.name

/-- What a label tells of the field. -/
structure Labelled (label : String × String) (field : String × Field) : Prop where
  keyed : ∃ value, label.1 = "htmlFor=\"" ++ value ++ "\"" ∧ Keyed value field
  /-- What stands between the tags shows the name as people read it. -/
  shown : decodeMarkup label.2 = labelOf field.2.name
  /-- No tag starts or ends there. -/
  tagless : IsTagless label.2
  /-- Code starts or ends there exactly with the braces of the name. -/
  braces : ∀ b, IsBrace b → (b ∈ label.2.toList ↔ b ∈ field.2.name.toList)

/-- What an input tells of the field. -/
def Asked (tag : String) (field : String × Field) : Prop :=
  ∃ value rest, tag = "id=\"" ++ value ++ "\" name=\"" ++ value ++ "\" type=\"" ++
    field.2.type.inputType ++ "\"" ++ rest ∧ rest ∈ [" /", " required /"] ∧ Keyed value field

/-- The markup of a form shows its fields, one by one. -/
structure ShowsFields (e : Endpoint) (d : Descriptor) : Prop where
  /-- The component stands in the module of the form fields. -/
  component : ∀ convention, e.formFieldsScript ∈ e.scripts convention ∧
    Contains e.formFieldsScript.text (e.formComponentText d)
  labels : List.Forall₂ Labelled (labelsIn (e.formComponentText d).toList) (formFields e d)
  inputs : List.Forall₂ Asked (inputsIn (e.formComponentText d).toList) (formFields e d)

theorem keyed_formKey (facet : String) (field : Field) :
    Keyed (escapeMarkup (formKey facet field)) (facet, field) :=
  ⟨quoteless_escapeMarkup _, decodeMarkup_escapeMarkup _⟩

theorem labelled_of (facet : String) (field : Field) :
    Labelled (FormInput.of facet field).labelWritten (facet, field) where
  keyed := ⟨_, rfl, keyed_formKey facet field⟩
  shown := decodeMarkup_escapeMarkup _
  tagless := isTagless_escapeMarkup _
  braces b hb := by
    have hunescaped : (∀ a ∈ entities, b ∉ a.2.toList) ∧ entities.lookup b = none := by
      rcases hb with rfl | rfl <;> decide
    exact (mem_escapeMarkup_iff hunescaped.1 hunescaped.2 _).trans (hb.mem_labelOf_iff field.name)

theorem asked_of (facet : String) (field : Field) :
    Asked (FormInput.of facet field).tagWritten (facet, field) := by
  refine ⟨escapeMarkup (formKey facet field),
    (if (FormInput.of facet field).required then " required" else "") ++ " /", ?_, ?_,
    keyed_formKey facet field⟩
  · simp [FormInput.tagWritten, FormInput.of, ← String.toList_inj]
  · split <;> simp

theorem formInputs_eq (e : Endpoint) (d : Descriptor) :
    formInputs e d = (formFields e d).map fun field => FormInput.of field.1 field.2 := by
  simp [formInputs, formFields, Function.comp_def]

/-- **The markup of a form shows the names of its fields**, whatever characters they have: in the
attributes, which no name ends, and between the tags of a label, where no name starts a tag. Code
starts there exactly if the name has a brace. -/
theorem showsFields {e : Endpoint} {d : Descriptor} (hd : d ∈ e.bodyConfigs) : ShowsFields e d where
  component convention := by
    have hbody : e.hasBody = true := e.hasBody_iff.mpr (List.ne_nil_of_mem hd)
    refine ⟨by cases convention <;> simp [Endpoint.scripts, hbody], ?_⟩
    exact Script.contains_declaration (List.mem_cons_of_mem _
      (List.mem_flatMap.mpr ⟨d, hd, List.mem_cons_of_mem _ (List.mem_singleton_self _)⟩))
  labels := by
    rw [labelsIn_formComponentText, formInputs_eq, List.map_map, List.forall₂_map_left_iff,
      List.forall₂_same]
    exact fun field _ => labelled_of field.1 field.2
  inputs := by
    rw [inputsIn_formComponentText, formInputs_eq, List.map_map, List.forall₂_map_left_iff,
      List.forall₂_same]
    exact fun field _ => asked_of field.1 field.2

/-- A name that ends attributes and tags, beside a segment of the path. -/
theorem showsFields_marks :
    let d : Descriptor := {
      method := .post
      fileName := "route.post.config.ts"
      body := { declared := true, fields := [⟨"a\">\x7b</label>&lt;", .number, false⟩] } }
    let e : Endpoint := ⟨⟨"app/posts/[postId]"⟩, "/posts/[postId]", [d]⟩
    d ∈ e.bodyConfigs ∧ ShowsFields e d := by
  intro d e
  have hd : d ∈ e.bodyConfigs := List.mem_singleton_self d
  exact ⟨hd, showsFields hd⟩

/-- A quoted key with a brace opens code in the label of its field. -/
theorem label_opens_code :
    let source := "const b = z.object(\x7b \"a\x7bb\": z.string() \x7d);\n" ++
      "export const requestValidator = f(\x7b body: b \x7d);\n"
    let d := Descriptor.ofSource .post "route.post.config.ts" source
    let e : Endpoint := ⟨⟨"app/posts"⟩, "/posts", [d]⟩
    d ∈ e.bodyConfigs ∧
      labelsIn (e.formComponentText d).toList = [("htmlFor=\"body.a\x7bb\"", "A\x7bb")] := by
  intro source d e
  rw [labelsIn_formComponentText]
  decide +kernel

end RouteScaffold.Artifact
