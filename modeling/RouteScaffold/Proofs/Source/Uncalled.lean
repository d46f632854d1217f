import RouteScaffold.Proofs.Source.Literals
import RouteScaffold.Proofs.Source.Facets

/-! Validators without a call.

The arguments of a validator are those of the first call behind its equals sign, and only a
semicolon keeps a call further down from being taken for it. So a validator that is ended by
a semicolon without a call declares nothing, and one that is ended by a line break declares
what the first call in the lines below it passes (`ofSource_uncalled`). -/
namespace RouteScaffold.Source
open Text Route

/-! ### The first call -/

/-- What is shown behind the equals sign of the validator. -/
def assigned? (source : List Char) : Option (List Cell) :=
  search (fun cells => (word? validatorName.toList cells).bind equals?) none (mask source)

/-- A column that neither opens a call nor ends a statement. -/
def Passed (cell : Cell) : Prop := cell.shown ≠ '(' ∧ cell.shown ≠ ';'

instance (cell : Cell) : Decidable (Passed cell) := inferInstanceAs (Decidable (_ ∧ _))

/-- What the first bracket encloses, with no semicolon in front of it. -/
inductive FirstCall : List Cell → List Char → Prop where
  | here {bracket : Cell} {cells : List Cell} {inside after : List Char} : bracket.shown = '(' →
      enclosed? '(' (sourceOf cells) = some (inside, after) → FirstCall (bracket :: cells) inside
  | behind {cell : Cell} {cells : List Cell} {inside : List Char} : Passed cell →
      FirstCall cells inside → FirstCall (cell :: cells) inside

theorem firstCall_cons_iff {cell : Cell} (h : Passed cell) {cells : List Cell}
    {inside : List Char} : FirstCall (cell :: cells) inside ↔ FirstCall cells inside := by
  constructor
  · rintro (⟨hbracket, -⟩ | ⟨-, hcall⟩)
    · exact absurd hbracket h.1
    · exact hcall
  · exact .behind h

/-- What opens no call and ends no statement can be left out in front. -/
theorem firstCall_append_iff {init cells : List Cell} (h : ∀ cell ∈ init, Passed cell)
    {inside : List Char} : FirstCall (init ++ cells) inside ↔ FirstCall cells inside := by
  induction init with
  | nil => rfl
  | cons cell init ih =>
    obtain ⟨hcell, hinit⟩ := List.forall_mem_cons.mp h
    exact (firstCall_cons_iff hcell).trans (ih hinit)

/-- There is no call where a semicolon comes first. -/
theorem not_firstCall_semicolon {stop : Cell} (h : stop.shown = ';') (cells : List Cell)
    (inside : List Char) : ¬ FirstCall (stop :: cells) inside := by
  rintro (⟨hbracket, -⟩ | ⟨hpassed, -⟩)
  · rw [h] at hbracket
    cases hbracket
  · exact hpassed.2 h

theorem toArguments?_cons (cell : Cell) (cells : List Cell) :
    toArguments? (cell :: cells) =
      if cell.shown = '(' then some cells
      else if cell.shown = ';' then none
      else toArguments? cells := by
  rw [toArguments?, toArguments?]
  by_cases hbracket : cell.shown = '('
  · simp [hbracket]
  · by_cases hstop : cell.shown = ';' <;> simp [hbracket, hstop]

/-- What is read behind the equals sign is the first call. -/
theorem toArguments?_eq_some_iff {cells : List Cell} {inside : List Char} :
    ((toArguments? cells).bind fun arguments =>
        (enclosed? '(' (sourceOf arguments)).map Prod.fst) = some inside ↔
      FirstCall cells inside := by
  induction cells with
  | nil => exact ⟨nofun, nofun⟩
  | cons cell cells ih =>
    rw [toArguments?_cons]
    split
    next hbracket =>
      rw [Option.bind_some, Option.map_eq_some_iff]
      constructor
      · rintro ⟨⟨_, after⟩, hclose, rfl⟩
        exact .here hbracket hclose
      · rintro (⟨-, hclose⟩ | ⟨hpassed, -⟩)
        · exact ⟨_, hclose, rfl⟩
        · exact absurd hbracket hpassed.1
    split
    next hstop => exact ⟨nofun, fun h => absurd h (not_firstCall_semicolon hstop cells inside)⟩
    next hbracket hstop => rw [ih, firstCall_cons_iff ⟨hbracket, hstop⟩]

/-- The arguments of the validator are those of the first call behind its equals sign. -/
theorem validatorArguments?_eq_some_iff {source : List Char} {cells : List Cell}
    (h : assigned? source = some cells) {inside : List Char} :
    validatorArguments? source = some inside ↔ FirstCall cells inside := by
  rw [validatorArguments?_eq, ← assigned?, h, Option.bind_some, toArguments?_eq_some_iff]

/-! ### What a call declares -/

/-- The keys by which a validator declares the facets of a request. -/
def facetKeys : List String := ["body", "params", "searchParams", "headers", "user"]

/-- The object literal that a call is given, in place or by the name of a variable. -/
inductive Passes (source inside : List Char) : List Char → Prop where
  | inPlace {rest body after : List Char} : stripComments inside = '\x7b' :: rest →
      enclosed? '\x7b' rest = some (body, after) → Passes source inside body
  | byName {name rest body : List Char} : identifier? (stripComments inside) = some (name, rest) →
      objectBody? source name .literal = some body → Passes source inside body

theorem entries_nil : entries [] = [] := by decide +kernel

/-- The object literal that a call is given is read. -/
theorem Passes.literalOf? {source inside body : List Char} (h : Passes source inside body) :
    literalOf? source (stripComments inside) = some body := by
  cases h with
  | inPlace hrest hclose => simp [Source.literalOf?, hrest, hclose]
  | byName hname hobject =>
    have hbrace : (stripComments inside).head? ≠ some '\x7b' := by
      intro hhead
      obtain ⟨rest, hrest⟩ := List.head?_eq_some_iff.mp hhead
      rw [hrest] at hname
      cases hname
    rw [Source.literalOf?, if_neg hbrace, named, hname]
    simp [hobject]

/-- What is read with an entry is the object literal that the call is given. -/
theorem passes_of_mem {source inside body : List Char} {e : Entry}
    (h : literalOf? source (stripComments inside) = some body) (he : e ∈ entries body) :
    Passes source inside body := by
  have hnil : body ≠ [] := by
    rintro rfl
    rw [entries_nil] at he
    cases he
  rw [literalOf?] at h
  split at h
  next hbrace =>
    obtain ⟨rest, hrest⟩ := List.head?_eq_some_iff.mp hbrace
    rw [hrest, List.tail_cons] at h
    obtain ⟨⟨_, after⟩, hclose, rfl⟩ := Option.map_eq_some_iff.mp h
    exact .inPlace hrest hclose
  next =>
    obtain rfl := Option.some.inj h
    rw [named] at hnil ⊢
    split
    next name rest hname =>
      rw [hname] at hnil
      cases hobject : objectBody? source name .literal with
      | none => simp [hobject] at hnil
      | some object => exact .byName hname hobject
    next hname =>
      rw [hname] at hnil
      exact absurd rfl hnil

theorem hasKey_eq_false_iff {key : String} {es : List Entry} :
    hasKey key es = false ↔ ∀ e ∈ es, String.ofList e.key ≠ key := by
  simp [hasKey, key_beq]

/-- Without a member under its key, a facet is left undeclared. -/
theorem facetOf_of_not_hasKey {source : List Char} {key : String} {es : List Entry}
    (h : hasKey key es = false) : facetOf source key es = {} := by
  have hnone : es.filter (·.key == key.toList) = [] := by
    rw [List.filter_eq_nil_iff]
    exact List.any_eq_false.mp h
  rw [facetOf, h, lastValue?, hnone]
  rfl

/-- A descriptor is blank exactly if no entry has the key of a facet. -/
theorem descriptorOf_eq_blank_iff {method : Method} {fileName : String} {source : List Char}
    {es : List Entry} :
    descriptorOf method fileName source es = { method, fileName } ↔
      ∀ e ∈ es, String.ofList e.key ∉ facetKeys := by
  have hkeys : (∀ e ∈ es, String.ofList e.key ∉ facetKeys) ↔
      ∀ key ∈ facetKeys, hasKey key es = false := by
    simp only [hasKey_eq_false_iff]
    exact ⟨fun h key hkey e he heq => h e he (heq ▸ hkey), fun h e he hmem => h _ hmem e he rfl⟩
  rw [hkeys]
  simp only [facetKeys, List.forall_mem_cons, List.not_mem_nil, false_implies, implies_true,
    and_true]
  constructor
  · intro h
    exact ⟨congrArg (·.body.declared) h, congrArg (·.params.declared) h,
      congrArg (·.searchParams.declared) h, congrArg (·.headers.declared) h, congrArg (·.auth) h⟩
  · rintro ⟨hbody, hparams, hsearch, hheaders, huser⟩
    rw [descriptorOf, facetOf_of_not_hasKey hbody, facetOf_of_not_hasKey hparams,
      facetOf_of_not_hasKey hsearch, facetOf_of_not_hasKey hheaders, huser]

/-! ### Descriptors -/

/-- The first call passes no object literal with the key of a facet. -/
def DeclaresNothing (source : List Char) (cells : List Cell) : Prop :=
  ∀ inside body, FirstCall cells inside → Passes source inside body →
    ∀ e ∈ entries body, String.ofList e.key ∉ facetKeys

theorem ofSource_eq_blank_iff {source : String} {cells : List Cell}
    (h : assigned? source.toList = some cells) {method : Method} {fileName : String} :
    Descriptor.ofSource method fileName source = { method, fileName } ↔
      DeclaresNothing source.toList cells := by
  have hentries : Descriptor.ofSource method fileName source = { method, fileName } ↔
      ∀ body, validatorBody? source.toList = some body →
        ∀ e ∈ entries body, String.ofList e.key ∉ facetKeys := by
    rw [Descriptor.ofSource]
    cases validatorBody? source.toList with
    | none => simp
    | some body => simp [foldl_declare, descriptorOf_eq_blank_iff]
  rw [hentries]
  constructor
  · intro hnothing inside body hcall hpasses
    refine hnothing body ?_
    rw [validatorBody?_eq, (validatorArguments?_eq_some_iff h).mpr hcall]
    exact hpasses.literalOf?
  · intro hnothing body hbody e he
    rw [validatorBody?_eq] at hbody
    obtain ⟨inside, hinside, hliteral⟩ := Option.bind_eq_some_iff.mp hbody
    exact hnothing inside body ((validatorArguments?_eq_some_iff h).mp hinside)
      (passes_of_mem hliteral he) e he

/-- **What a validator without a call declares.** The descriptor is blank exactly if the first call
behind the validator's equals sign, up to a semicolon, passes no key of a facet. So it is blank,
whatever follows, where a semicolon ends the validator before any call; where a line break does, it
is blank exactly if the first call further down passes no such key. -/
theorem ofSource_uncalled {source : String} {cells : List Cell}
    (hassigned : assigned? source.toList = some cells) (method : Method) (fileName : String) :
    (Descriptor.ofSource method fileName source = { method, fileName } ↔
        DeclaresNothing source.toList cells) ∧
      ∀ init stop after, cells = init ++ stop :: after → (∀ cell ∈ init, Passed cell) →
        (stop.shown = ';' → Descriptor.ofSource method fileName source = { method, fileName }) ∧
        (stop.shown = '\n' → (Descriptor.ofSource method fileName source = { method, fileName } ↔
          DeclaresNothing source.toList after)) := by
  refine ⟨ofSource_eq_blank_iff hassigned, ?_⟩
  rintro init stop after rfl hinit
  rw [ofSource_eq_blank_iff hassigned]
  simp only [DeclaresNothing, firstCall_append_iff hinit]
  constructor
  · intro hstop inside body hcall
    exact absurd hcall (not_firstCall_semicolon hstop after inside)
  · intro hstop
    have hpassed : Passed stop := by
      rw [Passed, hstop]
      decide
    simp only [firstCall_cons_iff hpassed]

/-- Behind the semicolon a call may pass anything. -/
theorem ofSource_uncalled_semicolon :
    let source := "export const requestValidator = shared.user as Parts;\nf(\x7b body \x7d)\n"
    Descriptor.ofSource .post "route.post.config.ts" source =
      { method := .post, fileName := "route.post.config.ts" } := by
  intro source
  have hassigned : assigned? source.toList = some
      (codeCells " shared.user as Parts".toList ++
        ⟨';', [';']⟩ :: codeCells "\nf(\x7b body \x7d)\n".toList) := by
    decide +kernel
  have h := (ofSource_uncalled hassigned .post "route.post.config.ts").2 _ _ _ rfl
    (by decide +kernel)
  exact h.1 rfl

/-- So the parameters of a function further down are taken for facets, and so are those of a
function's type. -/
theorem handler_declares_facets :
    Descriptor.ofSource .post "route.post.config.ts"
        ("export const requestValidator = shared.getUser\n" ++
          "export async function handler(\x7b body, params \x7d) \x7b return body \x7d\n") =
      { method := .post, fileName := "route.post.config.ts", body := ⟨true, []⟩,
        params := ⟨true, []⟩ } ∧
    Descriptor.ofSource .post "route.post.config.ts"
        "export const requestValidator = base as (\x7b body \x7d: Parts) => void;\n" =
      { method := .post, fileName := "route.post.config.ts", body := ⟨true, []⟩ } := by
  decide +kernel

end RouteScaffold.Source
