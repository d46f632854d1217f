import RouteScaffold.Artifact.Client
import RouteScaffold.Convention
import RouteScaffold.Proofs.Artifact.Segments
import RouteScaffold.Proofs.Text.Template

/-! The address that a client requests.

The URL of a route is a template literal, and the parameters are the record that it reads.
Their type declares its members by property keys, quoted where need be; the URL writes the
names as they are, and the static segments too. So it evaluates to the route with the
values in it exactly if each dynamic segment has an identifier for its name and no static
segment has a character with a meaning within a template literal (`url_evaluates_iff`). -/
namespace RouteScaffold.Artifact
open Route Text Text.Literal Text.Template

/-! ### Property keys -/

/-- The name of the member that a property key declares: what a quoted key denotes, and another
key itself if it is an identifier. -/
def keyName? (ids : Identifiers) (key : String) : Option (List Char) :=
  match key.toList with
  | '\x22' :: rest =>
    match rest.reverse with
    | '\x22' :: inner => denoted? inner.reverse
    | _ => none
  | name => if ids.Allows name then some name else none

theorem notMem_of_allows {ids : Identifiers} {name : List Char} (h : ids.Allows name) {c : Char}
    (hc : c.toNat < 0x80) (hmeant : ¬ (c.isAlphanum = true ∨ c = '_' ∨ c = '$')) : c ∉ name :=
  fun hmem => hmeant (ids.ascii c hc (List.all_eq_true.mp h.2 c hmem))

/-- An identifier is declared by its property key, quoted or not. -/
theorem keyName?_propertyKey {ids : Identifiers} {name : String} (h : ids.Allows name.toList) :
    keyName? ids (propertyKey name) = some name.toList := by
  have hquote : '\x22' ∉ name.toList := notMem_of_allows h (by decide) (by decide)
  have hzero : '\x00' ∉ name.toList := notMem_of_allows h (by decide) (by decide)
  rw [propertyKey]
  split
  · rw [keyName?]
    split
    next heq => exact absurd (heq ▸ List.mem_cons_self) hquote
    next => exact if_pos h
  · simp [keyName?, Quoted.toList_quote, denoted?_escapes hzero]

/-- The members that an object type declares. -/
def declares (ids : Identifiers) (fields : List Field) (name : List Char) : Bool :=
  fields.any fun field => keyName? ids (propertyKey field.name) == some name

/-! ### Routes with values -/

/-- A segment of a route, with the value of its name if it is dynamic. -/
def filledSegment (value : List Char → List Char) (segment : List Char) : List Char :=
  match dynamicName? segment with
  | some name => value name
  | none => segment

def filledPath (value : List Char → List Char) (path : String) : List Char :=
  List.intercalate ['/'] ((segments path.toList).map (filledSegment value))

def segmentParts (segment : List Char) : List Part :=
  match dynamicName? segment with
  | some name => [.member name]
  | none => segment.map .char

/-- What the URL of a route is to evaluate to. -/
def pathParts (path : String) : List Part :=
  List.intercalate [.char '/'] ((segments path.toList).map segmentParts)

theorem flatMap_intercalate {α β : Type} (f : α → List β) (between : List α)
    (parts : List (List α)) :
    (List.intercalate between parts).flatMap f =
      List.intercalate (between.flatMap f) (parts.map (·.flatMap f)) := by
  induction parts with
  | nil => rfl
  | cons part parts ih =>
    cases parts with
    | nil => simp
    | cons next parts =>
      rw [List.intercalate_cons_of_ne_nil (List.cons_ne_nil _ _), List.flatMap_append,
        List.flatMap_append, ih]
      exact (List.intercalate_cons_of_ne_nil (List.cons_ne_nil _ _)).symm

/-- The URL of a route is written from the parts it is to evaluate to. -/
theorem toList_urlTemplate_eq_spelling (path accessor : String) :
    (urlTemplate path accessor).toList =
      '\x60' :: (spelling accessor (pathParts path) ++ ['\x60']) := by
  have hsegment : templateSegment accessor = spelling accessor ∘ segmentParts := by
    funext segment
    cases hname : dynamicName? segment <;>
      simp [segmentParts, templateSegment, hname, spelling, Part.text, placeholder,
        List.flatMap_map]
  have hparts : List.intercalate ['/'] ((segments path.toList).map (templateSegment accessor)) =
      spelling accessor (pathParts path) := by
    rw [pathParts, spelling, flatMap_intercalate, List.map_map, hsegment]
    rfl
  rw [toList_urlTemplate, hparts]

theorem fill_pathParts (value : List Char → List Char) (path : String) :
    fill (whole value) (pathParts path) = filledPath value path := by
  have hsegment : filledSegment value = fill (whole value) ∘ segmentParts := by
    funext segment
    cases hname : dynamicName? segment <;>
      simp [segmentParts, filledSegment, hname, fill, Part.value, whole, List.flatMap_map]
  rw [pathParts, fill, flatMap_intercalate, List.map_map, filledPath, hsegment]
  rfl

/-! ### Segments as they are written -/

/-- A segment has no character with a meaning within a template literal, and no dollar sign in
front of a brace. -/
def Verbatim (segment : List Char) : Prop :=
  (∀ c ∈ segment, c ∉ meant) ∧ segment.IsChain fun c d => ¬ (c = '$' ∧ d = '\x7b')

/-- The URL writes a segment as it is to be read: a static one is verbatim, and a dynamic one has an
identifier for its name. -/
def Writable (ids : Identifiers) (segment : List Char) : Prop :=
  (∀ name, StandsFor segment name → ids.Allows name) ∧
    ((∀ name, ¬ StandsFor segment name) → Verbatim segment)

variable {ids : Identifiers}

theorem plain_segmentParts_iff {segment : List Char} :
    Plain ids (segmentParts segment) ↔ Writable ids segment := by
  cases hname : dynamicName? segment with
  | some name =>
    have hstands := dynamicName?_eq_some_iff.mp hname
    have honly {other : List Char} (h : StandsFor segment other) : other = name := by
      rw [← dynamicName?_eq_some_iff, hname] at h
      exact (Option.some.inj h).symm
    have hparts : segmentParts segment = [.member name] := by rw [segmentParts, hname]
    rw [hparts]
    constructor
    · intro h
      exact ⟨fun other hother => honly hother ▸ h.1 _ List.mem_cons_self,
        fun hnone => absurd hstands (hnone name)⟩
    · intro h
      exact ⟨List.forall_mem_singleton.mpr (h.1 name hstands), .singleton _⟩
  | none =>
    have hstatic := dynamicName?_eq_none_iff.mp hname
    have hparts : segmentParts segment = segment.map .char := by rw [segmentParts, hname]
    rw [hparts, Plain, List.forall_mem_map, List.isChain_map]
    constructor
    · intro h
      exact ⟨fun name hstands => absurd hstands (hstatic name),
        fun _ => by simpa [Verbatim] using h⟩
    · intro h
      simpa [Verbatim] using h.2 hstatic

theorem plain_append_slash_iff {ps qs : List Part} :
    Plain ids (ps ++ .char '/' :: qs) ↔ Plain ids ps ∧ Plain ids qs := by
  have hslash : Part.Plain ids (.char '/') := by
    rw [Part.plain_char_iff]
    decide
  have hparts : (∀ p ∈ ps ++ .char '/' :: qs, p.Plain ids) ↔
      (∀ p ∈ ps, p.Plain ids) ∧ ∀ q ∈ qs, q.Plain ids := by
    rw [List.forall_mem_append, List.forall_mem_cons, and_iff_right hslash]
  have hchain : (ps ++ .char '/' :: qs).IsChain (fun p q => ¬ (p = .char '$' ∧ q = .char '\x7b')) ↔
      ps.IsChain (fun p q => ¬ (p = .char '$' ∧ q = .char '\x7b')) ∧
        qs.IsChain (fun p q => ¬ (p = .char '$' ∧ q = .char '\x7b')) := by
    simp [List.isChain_append, List.isChain_cons]
  rw [Plain, hparts, hchain, and_and_and_comm, Plain, Plain]

theorem plain_pathParts_iff {path : String} :
    Plain ids (pathParts path) ↔ ∀ segment ∈ segments path.toList, Writable ids segment := by
  have hpieces (pieces : List (List Part)) :
      Plain ids (List.intercalate [.char '/'] pieces) ↔ ∀ ps ∈ pieces, Plain ids ps := by
    induction pieces with
    | nil => simp [Plain]
    | cons ps pieces ih =>
      cases pieces with
      | nil => simp
      | cons next pieces =>
        rw [List.intercalate_cons_of_ne_nil (List.cons_ne_nil _ _), List.append_assoc,
          List.singleton_append, plain_append_slash_iff, ih]
        exact List.forall_mem_cons.symm
  rw [pathParts, hpieces, List.forall_mem_map]
  exact forall₂_congr fun segment _ => plain_segmentParts_iff

/-! ### Addresses -/

/-- The record that a client takes as the parameters of a method, with these values. -/
def Endpoint.paramsRecord (e : Endpoint) (d : Descriptor) (ids : Identifiers)
    (value : List Char → List Char) : List Char → Option (List Char) :=
  restrict (declares ids (e.paramFields d)) value

theorem declares_paramFields (e : Endpoint) (d : Descriptor) {name : List Char}
    (hallows : ids.Allows name) (h : String.ofList name ∈ dynamicNames e.path) :
    declares ids (e.paramFields d) name = true := by
  have hmem : String.ofList name ∈ (e.paramFields d).map Field.name :=
    (prefix_paramFields e d).subset h
  obtain ⟨field, hfield, hname⟩ := List.mem_map.mp hmem
  refine List.any_eq_true.mpr ⟨field, hfield, beq_iff_eq.mpr ?_⟩
  rw [hname, keyName?_propertyKey (by rwa [String.toList_ofList]), String.toList_ofList]

theorem mem_dynamicNames {path : String} {segment name : List Char}
    (hsegment : segment ∈ segments path.toList) (h : StandsFor segment name) :
    String.ofList name ∈ dynamicNames path :=
  List.mem_filterMap.mpr
    ⟨segment, hsegment, by rw [dynamicName?_eq_some_iff.mpr h, Option.map_some]⟩

theorem defined_pathParts {path : String} {keys : List Char → Bool}
    (h : ∀ segment ∈ segments path.toList, ∀ name, StandsFor segment name → keys name = true) :
    (pathParts path).flatMap (·.defined keys) = pathParts path := by
  have hsegment : ∀ segment ∈ segments path.toList,
      (segmentParts segment).flatMap (·.defined keys) = segmentParts segment := by
    intro segment hsegment
    cases hname : dynamicName? segment with
    | none =>
      rw [segmentParts, hname, List.flatMap_map]
      exact List.map_eq_flatMap.symm
    | some name =>
      have hkey := h segment hsegment name (dynamicName?_eq_some_iff.mp hname)
      rw [segmentParts, hname, List.flatMap_singleton, Part.defined, if_pos hkey]
  rw [pathParts, flatMap_intercalate, List.map_map]
  exact congrArg _ (List.map_congr_left hsegment)

/-- A route without dynamic segments has one URL, wherever the parameters are. -/
theorem urlTemplate_of_static {path : String} (h : dynamicNames path = []) (a b : String) :
    urlTemplate path a = urlTemplate path b := by
  have hsegment : ∀ segment ∈ segments path.toList,
      templateSegment a segment = templateSegment b segment := by
    intro segment hsegment
    have hstatic : ∀ name, ¬ StandsFor segment name := fun name hname =>
      List.not_mem_nil (h ▸ mem_dynamicNames hsegment hname)
    rw [templateSegment_of_static a hstatic, templateSegment_of_static b hstatic]
  rw [urlTemplate, urlTemplate, List.map_congr_left hsegment]

theorem url_clientMethod (e : Endpoint) (d : Descriptor) :
    (e.clientMethod d).url = urlTemplate e.path "input.params" := by
  rw [Endpoint.clientMethod]
  split
  next => rfl
  next hparams =>
    have hshape : (InputShape.of e d).hasParams =
        (d.params.declared || !(e.paramFields d).isEmpty) := rfl
    have hnone : e.paramFields d = [] := by
      rw [hshape, Bool.not_eq_true, Bool.or_eq_false_iff] at hparams
      simpa using hparams.2
    exact urlTemplate_of_static (segments_eq_nil hnone) ..

/-- The identifiers of ASCII. -/
def asciiIdentifiers : Identifiers where
  starts c := c.isAlpha || c == '_' || c == '$'
  continues c := c.isAlphanum || c == '_' || c == '$'
  ascii c _ h := by simpa [or_assoc] using h

/-- **The URL of a route evaluates to it.** With the values of its dynamic segments as the members
that the type of the parameters declares, the URL that a client requests evaluates to the route with
the values in it, whatever they are, exactly if it writes every segment as it is to be read: each
dynamic segment has an identifier for its name, and no static one has a backtick, a backslash, a
carriage return or a dollar sign in front of a brace. -/
theorem url_evaluates_iff (ids : Identifiers) (e : Endpoint) (d : Descriptor) :
    (e.clientMethod d).url = urlTemplate e.path "input.params" ∧
      ((∀ value, evaluate? ids "input.params" (e.paramsRecord d ids value)
          (urlTemplate e.path "input.params").toList = some (filledPath value e.path)) ↔
        ∀ segment ∈ segments e.path.toList, Writable ids segment) := by
  refine ⟨url_clientMethod e d, ?_⟩
  simp only [toList_urlTemplate_eq_spelling, ← fill_pathParts]
  rw [← plain_pathParts_iff]
  refine (evaluate?_spelling_iff (by decide)).trans
    ⟨And.left, fun h => ⟨h, defined_pathParts fun segment hsegment name hname => ?_⟩⟩
  have hallows := (plain_pathParts_iff.mp h segment hsegment).1 name hname
  exact declares_paramFields e d hallows (mem_dynamicNames hsegment hname)

example : evaluate? asciiIdentifiers "input.params" (fun name => some ('7' :: name))
    (urlTemplate "/posts/[id]/[[...rest]]" "input.params").toList =
      some "/posts/7id/7rest".toList := by
  decide +kernel

/-- A name that is no identifier has a quoted key in the type of the parameters, and the URL has it
bare: it does not evaluate to the route. Nor does a URL with a backslash in it, which it drops. -/
theorem url_of_hyphenated_name :
    let e : Endpoint := ⟨⟨"app/api/[user-id]"⟩, Convention.app.routePath ⟨"app/api/[user-id]"⟩, []⟩
    let d : Descriptor := { method := .get, fileName := "route.get.config.ts" }
    let value (_ : List Char) : List Char := ['7']
    e.path = "/api/[user-id]" ∧
      declares asciiIdentifiers (e.paramFields d) "user-id".toList = true ∧
      filledPath value e.path = "/api/7".toList ∧
      evaluate? asciiIdentifiers "input.params" (e.paramsRecord d asciiIdentifiers value)
        (urlTemplate e.path "input.params").toList = none ∧
      evaluate? asciiIdentifiers "input.params" (e.paramsRecord d asciiIdentifiers value)
        (urlTemplate "/a\\d" "input.params").toList = some "/ad".toList := by
  decide +kernel

end RouteScaffold.Artifact
