import Mathlib.Data.List.Induction
import RouteScaffold.Proofs.Source.Finding
import RouteScaffold.Proofs.Source.Members
import RouteScaffold.Source.Validator

/-! The facets of a written validator.

A descriptor exports a validator that is built by a call with an object literal
of any members. `ofSource_validator` says what is read from it: a facet is
declared exactly if a member has its key, and its fields are those of the schema
that the last such member names. -/
namespace RouteScaffold.Source
open Text Route

/-! ### What is written -/

/-- What stands in front of the name of the export. -/
def exportLead : List Char := "export const ".toList

/-- The export up to the bracket of the builder's call. -/
def validatorHead (builder : List Char) : List Char :=
  exportLead ++ (validatorName.toList ++ (' ' :: '=' :: ' ' :: (builder ++ ['('])))

/-- The export of a validator that `builder` makes from an object literal. -/
def validator (builder : List Char) (items : List Item) (trailing : Option (List Char)) :
    List Char :=
  validatorHead builder ++ ('\x7b' :: (literal items trailing ++ ['\x7d', ')']))

/-- A builder is named by code without brackets, on a line of its own. -/
def IsBuilder (builder : List Char) : Prop := ∀ c ∈ builder, isPlainWord c = true ∧ c ≠ ';'

/-! ### What is declared -/

/-- Whether one of the entries has the key. -/
def hasKey (key : String) (es : List Entry) : Bool := es.any (·.key == key.toList)

/-- The value of the last entry with the key. -/
def lastValue? (key : String) (es : List Entry) : Option (List Char) :=
  (es.filter (·.key == key.toList)).getLast?.map Entry.value

/-- The schema that a value refers to by the name it starts with. The name `z` refers to none: a
schema that is written in place starts with it. -/
def reference? (value : List Char) : Option (List Char) :=
  let name := value.takeWhile isIdentChar
  if IsName name ∧ name ≠ ['z'] then some name else none

/-- The facet that the entries of a validator declare under a key. -/
def facetOf (source : List Char) (key : String) (es : List Entry) : Facet :=
  ⟨hasKey key es, (((lastValue? key es).bind reference?).map (schemaFields source)).getD []⟩

/-- The descriptor that the entries of a validator declare. -/
def descriptorOf (method : Method) (fileName : String) (source : List Char) (es : List Entry) :
    Descriptor where
  method := method
  fileName := fileName
  body := facetOf source "body" es
  params := facetOf source "params" es
  searchParams := facetOf source "searchParams" es
  headers := facetOf source "headers" es
  auth := hasKey "user" es

theorem facetFields_eq (source value : List Char) :
    facetFields source value = ((reference? value).map (schemaFields source)).getD [] := by
  rw [facetFields, identifier?_eq, reference?]
  generalize value.takeWhile isIdentChar = name
  by_cases hname : IsName name
  · rw [if_pos hname]
    by_cases hz : name = ['z']
    · simp [hz]
    · simp [hname, hz]
  · simp [hname]

theorem key_beq (e : Entry) (key : String) :
    (e.key == key.toList) = decide (String.ofList e.key = key) := by
  rw [Bool.eq_iff_iff, beq_iff_eq, decide_eq_true_iff, ← String.toList_inj, String.toList_ofList]

theorem hasKey_concat (key : String) (es : List Entry) (e : Entry) :
    hasKey key (es ++ [e]) = if String.ofList e.key = key then true else hasKey key es := by
  rw [hasKey, List.any_append, List.any_cons, List.any_nil, Bool.or_false, key_beq]
  split <;> simp [hasKey, *]

theorem facetOf_concat (source : List Char) (key : String) (es : List Entry) (e : Entry) :
    facetOf source key (es ++ [e]) =
      if String.ofList e.key = key then ⟨true, facetFields source e.value⟩
      else facetOf source key es := by
  rw [facetOf, hasKey_concat, lastValue?, List.filter_append, List.filter_singleton, key_beq]
  split <;> simp [facetOf, lastValue?, facetFields_eq, *]

theorem declare_eq (source : List Char) (d : Descriptor) (e : Entry) :
    d.declare source e =
      { d with
        body := if String.ofList e.key = "body" then ⟨true, facetFields source e.value⟩ else d.body
        params :=
          if String.ofList e.key = "params" then ⟨true, facetFields source e.value⟩ else d.params
        searchParams :=
          if String.ofList e.key = "searchParams" then ⟨true, facetFields source e.value⟩
          else d.searchParams
        headers :=
          if String.ofList e.key = "headers" then ⟨true, facetFields source e.value⟩ else d.headers
        auth := if String.ofList e.key = "user" then true else d.auth } := by
  simp only [Descriptor.declare, key_beq, decide_eq_true_eq]
  generalize String.ofList e.key = key
  by_cases hbody : key = "body"
  · simp [hbody]
  by_cases hparams : key = "params"
  · simp [hparams]
  by_cases hsearch : key = "searchParams"
  · simp [hsearch]
  by_cases hheaders : key = "headers"
  · simp [hheaders]
  simp only [hbody, hparams, hsearch, hheaders, if_false]
  split <;> rfl

/-- What a validator's entry declares by: its key and the name that its value starts with. -/
def Entry.head (entry : Entry) : List Char × Option (List Char) :=
  (entry.key, (identifier? entry.value).map Prod.fst)

theorem facetFields_identifier (source value : List Char) : facetFields source value =
    match (identifier? value).map Prod.fst with
    | none => []
    | some name => if name == ['z'] then [] else schemaFields source name := by
  rw [facetFields]
  cases identifier? value <;> rfl

/-- Entries with the same heads declare the same, in sources that give the same fields. -/
theorem foldl_declare_congr {source source' : List Char} {xs ys : List Entry}
    (hfields : ∀ entry ∈ xs, facetFields source' entry.value = facetFields source entry.value)
    (h : ys.map Entry.head = xs.map Entry.head) (d : Descriptor) :
    ys.foldl (Descriptor.declare source') d = xs.foldl (Descriptor.declare source) d := by
  induction xs generalizing ys d with
  | nil =>
    rw [List.map_eq_nil_iff.mp h]
    rfl
  | cons x xs ih =>
    obtain ⟨y, ys, rfl, hhead, hrest⟩ := List.map_eq_cons_iff.mp h
    obtain ⟨hx, hfields⟩ := List.forall_mem_cons.mp hfields
    obtain ⟨hkey, hword⟩ := Prod.mk.inj hhead
    have hdeclare : d.declare source' y = d.declare source x := by
      rw [Descriptor.declare, Descriptor.declare, hkey, ← hx, facetFields_identifier, hword,
        ← facetFields_identifier]
    rw [List.foldl_cons, List.foldl_cons, hdeclare, ih hfields hrest]

/-- Declaring entry after entry, the last one with a key decides on its facet. -/
theorem foldl_declare (method : Method) (fileName : String) (source : List Char) (es : List Entry) :
    es.foldl (Descriptor.declare source) { method, fileName } =
      descriptorOf method fileName source es := by
  induction es using List.reverseRecOn with
  | nil => rfl
  | append_singleton es e ih =>
    rw [List.foldl_concat, ih, declare_eq]
    simp only [descriptorOf, facetOf_concat, hasKey_concat]

/-- What is read from a source is what some entries declare. -/
theorem exists_descriptorOf (method : Method) (fileName source : String) :
    ∃ es, Descriptor.ofSource method fileName source =
      descriptorOf method fileName source.toList es := by
  rw [Descriptor.ofSource]
  cases validatorBody? source.toList with
  | none => exact ⟨[], foldl_declare method fileName source.toList []⟩
  | some body => exact ⟨_, foldl_declare method fileName source.toList (entries body)⟩

theorem method_ofSource (method : Method) (fileName source : String) :
    (Descriptor.ofSource method fileName source).method = method := by
  obtain ⟨es, hes⟩ := exists_descriptorOf method fileName source
  rw [hes, descriptorOf]

theorem fileName_ofSource (method : Method) (fileName source : String) :
    (Descriptor.ofSource method fileName source).fileName = fileName := by
  obtain ⟨es, hes⟩ := exists_descriptorOf method fileName source
  rw [hes, descriptorOf]

/-! ### Finding the call -/

theorem isIdentChar_of_mem_validatorName : ∀ c ∈ validatorName.toList, isIdentChar c = true :=
  List.all_eq_true.mp (by decide)

theorem length_exportLead_lt : exportLead.length < validatorName.toList.length := by decide

theorem isBlank_of_mem_validatorName : ∀ c ∈ validatorName.toList, isBlank c = false :=
  fun c hc => isBlank_of_isIdentChar (isIdentChar_of_mem_validatorName c hc)

theorem startsSolid_exportLead (rest : List Char) : StartsSolid (exportLead ++ rest) := by
  intro c hc
  obtain rfl : 'e' = c := Option.some.inj hc
  decide

/-- What stands in front of the export's name does not bind it. -/
theorem not_occurs_lead {before : List Char} (hbefore : Lines before)
    (h : ¬ Mentions validatorName.toList before) :
    ¬ Occurs (Binds validatorName.toList) (codeOf before ++ exportLead) := by
  have hlead (rest : List Char) (hrest : rest.length ≤ exportLead.length) :
      ¬ Binds validatorName.toList rest := by
    rintro ⟨behind, rfl, -⟩
    have := length_exportLead_lt
    rw [List.length_append] at hrest
    omega
  rintro ⟨front, rest, heq, hword, hbinds⟩
  rcases List.append_eq_append_iff.mp heq with ⟨more, rfl, hmore⟩ | ⟨more, hcode, rfl⟩
  · exact hlead rest (by rw [hmore, List.length_append]; omega) hbinds
  · cases more with
    | nil => exact hlead _ (Nat.le_refl _) hbinds
    | cons d more =>
      have hends : EndsBlank (d :: more) := by
        have hended := ended_codeOf hbefore.ended
        rw [hcode] at hended
        exact endsBlank_of_append hended (by simp)
      exact h ⟨front, d :: more, hcode, hword, binds_of_append isBlank_of_mem_validatorName hends
        (by simpa using startsSolid_exportLead []) hbinds⟩

theorem code_builder {builder : List Char} (h : IsBuilder builder) :
    IsCode (validatorHead builder) := by
  have hlead : IsCode exportLead := by decide
  have hname : IsCode validatorName.toList := by decide
  have hequals : IsCode [' ', '=', ' '] := by decide
  have hround : IsCode ['('] := by decide
  have hbuilder : IsCode builder := fun c hc => code_of_isPlainWord (h c hc).1
  have hcall := List.forall_mem_append.mpr ⟨hbuilder, hround⟩
  exact List.forall_mem_append.mpr ⟨hlead, List.forall_mem_append.mpr
    ⟨hname, List.forall_mem_append.mpr ⟨hequals, hcall⟩⟩⟩

/-- The search finds the export behind lines that do not mention its name in their code. -/
theorem search_validatorHead {before builder : List Char} (hbefore : Lines before)
    (hmention : ¬ Mentions validatorName.toList before) (hbuilder : IsBuilder builder)
    (rest : List Char) :
    ∃ cells, search (fun cells => (word? validatorName.toList cells).bind equals?) none
        (mask (before ++ (validatorHead builder ++ rest))) =
      some (codeCells (' ' :: (builder ++ ['('])) ++ cells) ∧ sourceOf cells = rest := by
  refine ⟨(pieces (lastSolid (lastSolid none before) (validatorHead builder)) rest).flatMap
    Piece.cells, ?_, ?_⟩
  · rw [mask_lines hbefore, cells_code (code_builder hbuilder), validatorHead, codeCells_append,
      List.append_assoc, ← List.append_assoc (mask before)]
    refine search_behind (P := Binds validatorName.toList) (fun _ _ => binds_of_equals?)
      (fun text hends h => ?_) ?_ ?_ rfl ?_
    · refine binds_of_append isBlank_of_mem_validatorName hends ?_ h
      rw [codeCells_append, List.append_assoc, shown_append, shown_codeCells]
      intro c hc
      obtain rfl : 'r' = c := Option.some.inj hc
      decide
    · rw [shown_append, shown_codeCells]
      intro c hc
      obtain rfl : ' ' = c := by
        rw [List.getLast?_append] at hc
        exact Option.some.inj hc
      decide
    · rw [shown_append, shown_codeCells]
      exact not_occurs_lead hbefore hmention
    · rw [codeCells_append, List.append_assoc, word?_codeCells]
      rfl
  · rw [sourceOf_cells, textOf_pieces]

/-! ### Reading the call -/

theorem codeCells_call (builder : List Char) (cells : List Cell) :
    codeCells (' ' :: (builder ++ ['('])) ++ cells =
      codeCells (' ' :: builder) ++ (⟨'(', ['(']⟩ :: cells) := by
  rw [← List.cons_append, codeCells_append, List.append_assoc]
  rfl

/-- Neither a bracket nor a semicolon stands in front of the call's bracket. -/
theorem shown_of_mem_builder {builder : List Char} (h : IsBuilder builder) :
    ∀ cell ∈ codeCells (' ' :: builder),
      (cell.shown != '(') = true ∧ (cell.shown == ';') = false := by
  have hchars : ∀ c ∈ ' ' :: builder, (c != '(') = true ∧ (c == ';') = false := by
    refine List.forall_mem_cons.mpr ⟨by decide, fun c hc => ?_⟩
    obtain ⟨hplain, hsemicolon⟩ := h c hc
    refine ⟨bne_iff_ne.mpr ?_, beq_eq_false_iff_ne.mpr hsemicolon⟩
    rintro rfl
    cases hplain
  exact List.forall_mem_map.mpr hchars

theorem takeWhile_call {builder : List Char} (h : IsBuilder builder) (cells : List Cell) :
    (codeCells (' ' :: (builder ++ ['('])) ++ cells).takeWhile (·.shown != '(') =
      codeCells (' ' :: builder) := by
  have hbuilder := fun cell hc => (shown_of_mem_builder h cell hc).1
  rw [codeCells_call, List.takeWhile_append_of_pos hbuilder, List.takeWhile_cons_of_neg (by simp),
    List.append_nil]

theorem dropWhile_call {builder : List Char} (h : IsBuilder builder) (cells : List Cell) :
    (codeCells (' ' :: (builder ++ ['('])) ++ cells).dropWhile (·.shown != '(') =
      ⟨'(', ['(']⟩ :: cells := by
  have hbuilder := fun cell hc => (shown_of_mem_builder h cell hc).1
  rw [codeCells_call, List.dropWhile_append_of_pos hbuilder, List.dropWhile_cons_of_neg (by simp)]

/-- The object literal is the whole argument of the call. -/
theorem validatorArguments?_validator {before builder body : List Char} (hbefore : Lines before)
    (hmention : ¬ Mentions validatorName.toList before) (hbuilder : IsBuilder builder)
    (hbody : Tokens true (some '\x7b') body) (after : List Char) :
    validatorArguments? (before ++ (validatorHead builder ++
        ('\x7b' :: (body ++ '\x7d' :: ')' :: after)))) = some ('\x7b' :: (body ++ ['\x7d'])) := by
  obtain ⟨cells, hsearch, hsource⟩ := search_validatorHead hbefore hmention hbuilder
    ('\x7b' :: (body ++ '\x7d' :: ')' :: after))
  have hnone : ((codeCells (' ' :: (builder ++ ['('])) ++ cells).takeWhile (·.shown != '(')).any
      (·.shown == ';') = false := by
    rw [takeWhile_call hbuilder]
    exact List.any_eq_false.mpr fun cell hc => by simp [(shown_of_mem_builder hbuilder cell hc).2]
  have hgroup : Tokens true (some '(') ('\x7b' :: (body ++ ['\x7d'])) := .group .curly hbody .nil
  have hclose : enclosed? '(' ('\x7b' :: (body ++ '\x7d' :: ')' :: after)) =
      some ('\x7b' :: (body ++ ['\x7d']), after) := by
    simpa [Bracket.opening, Bracket.closing] using enclosed?_tokens .round hgroup after
  rw [validatorArguments?, hsearch]
  simp only [Option.bind_eq_bind, Option.bind_some, hnone, Bool.false_eq_true, if_false,
    dropWhile_call hbuilder, hsource, hclose]
  rfl

theorem validatorBody?_validator {before builder body : List Char} (hbefore : Lines before)
    (hmention : ¬ Mentions validatorName.toList before) (hbuilder : IsBuilder builder)
    (hbody : Tokens true (some '\x7b') body) (after : List Char) :
    validatorBody? (before ++ (validatorHead builder ++
        ('\x7b' :: (body ++ '\x7d' :: ')' :: after)))) = some body := by
  have hstrip : stripComments ('\x7b' :: (body ++ ['\x7d'])) = '\x7b' :: (body ++ ['\x7d']) :=
    stripComments_of_head (by decide) (by decide) _
  have hclose : enclosed? '\x7b' (body ++ ['\x7d']) = some (body, []) :=
    enclosed?_tokens .curly hbody []
  rw [validatorBody?, validatorArguments?_validator hbefore hmention hbuilder hbody]
  simp only [Option.bind_eq_bind, Option.bind_some, hstrip, hclose]
  rfl

/-- **A written validator declares what its members declare**: a facet exactly if a member has its
key, with the fields of the schema that the value of the last such member names. The lines in
front must not bind the name of the export; what stands behind does not matter. -/
theorem ofSource_validator {before builder after : List Char} {items : List Item}
    {trailing : Option (List Char)} (hbefore : Lines before)
    (hmention : ¬ Mentions validatorName.toList before) (hbuilder : IsBuilder builder)
    (hitems : ∀ i ∈ items, i.WellFormed) (htrailing : ∀ gap ∈ trailing, Gap gap) {source : String}
    (hsource : source.toList = before ++ (validator builder items trailing ++ after))
    (method : Method) (fileName : String) :
    Descriptor.ofSource method fileName source =
      descriptorOf method fileName source.toList (declared items) := by
  have hbody := validatorBody?_validator hbefore hmention hbuilder
    (Tokens.intercalate (literal_tokens hitems htrailing) _) after
  have hsplit : before ++ (validator builder items trailing ++ after) =
      before ++ (validatorHead builder ++
        ('\x7b' :: (literal items trailing ++ '\x7d' :: ')' :: after))) := by
    simp [validator]
  rw [← literal, ← hsplit, ← hsource] at hbody
  rw [Descriptor.ofSource, hbody, ← foldl_declare, ← entries_literal hitems htrailing]

/-- A comment does not mention the export, what a method holds is no member, and of two bodies the
last one counts. -/
theorem ofSource_body_headers_user :
    let source := "// requestValidator = f()\nexport const requestValidator = f(\x7bbody: P, " ++
      "...base, headers() \x7b return [params, user] \x7d, 'user': true, /* , */ body: Q,\x7d);\n"
    Descriptor.ofSource .post "route.post.config.ts" source =
      { method := .post, fileName := "route.post.config.ts",
        body := ⟨true, schemaFields source.toList ['Q']⟩, headers := ⟨true, []⟩,
        auth := true } := by
  intro source
  let function : List Char := "() \x7b return [params, user] \x7d".toList
  let items : List Item :=
    [⟨[], .property (.bare "body".toList) [' ', 'P'], []⟩, ⟨[' '], .spread "base".toList, []⟩,
      ⟨[' '], .method none "headers".toList [] [' '] " return [params, user] ".toList, []⟩,
      ⟨[' '], .property (.quoted '\x27' "user".toList) " true".toList, []⟩,
      ⟨" /* , */ ".toList, .property (.bare "body".toList) [' ', 'Q'], []⟩]
  have hspace : isBlank ' ' = true := by decide
  have hnil : Blank [] := List.forall_mem_nil _
  have hname : IsName "body".toList ∧ IsName "headers".toList := by decide +kernel
  have huser (before : Option Char) : Tokens true before " user".toList :=
    .of_word (by decide +kernel)
  have hfunction : Tokens true (some '\x7b') " return [params, user] ".toList :=
    .word " return ".toList (by decide +kernel) (.group .square
      (.word "params".toList (by decide +kernel) (.plain (by decide) (fun _ => rfl) (huser _)))
      (.of_word (List.forall_mem_singleton.mpr (by decide))))
  have hgap : Gap " /* , */ ".toList :=
    .blank hspace (.comment (.block " , ".toList (by decide +kernel)) (.blank hspace .nil))
  have hitems : ∀ i ∈ items, i.WellFormed := by
    have hquoted : (Key.quoted '\x27' "user".toList).WellFormed :=
      ⟨.inr rfl, by decide +kernel, by decide +kernel⟩
    simp only [items, List.forall_mem_cons]
    exact ⟨⟨.nil, .property hname.1 (.of_word (by decide)), hnil⟩,
      ⟨.blank hspace .nil, .spread (.of_word (by decide +kernel)), hnil⟩,
      ⟨.blank hspace .nil,
        .method nofun hname.2 .nil (List.forall_mem_singleton.mpr hspace) hfunction, hnil⟩,
      ⟨.blank hspace .nil, .property hquoted (.of_word (by decide +kernel)), hnil⟩,
      ⟨hgap, .property hname.1 (.of_word (by decide)), hnil⟩, List.forall_mem_nil _⟩
  have hbefore : Gap "// requestValidator = f()\n".toList :=
    .comment (.line " requestValidator = f()".toList (by decide +kernel)) .nil
  have hlines := hbefore.lines ((Option.all_eq_true _ _).mp (by decide +kernel))
  have h := @ofSource_validator _ ['f'] ";\n".toList items (some []) hlines
    (not_mentions_gap hbefore _)
    (List.forall_mem_singleton.mpr (by decide)) hitems (by simp [Gap.nil]) source
    (by decide +kernel) .post "route.post.config.ts"
  have hdeclared : declared items =
      [⟨"body".toList, ['P']⟩, ⟨"headers".toList, function⟩, ⟨"user".toList, "true".toList⟩,
        ⟨"body".toList, ['Q']⟩] := by decide +kernel
  have hbody : reference? ['Q'] = some ['Q'] := by decide +kernel
  have hheaders : reference? function = none := by decide +kernel
  rw [h, hdeclared]
  clear_value function
  simp only [descriptorOf, facetOf, hasKey, lastValue?, key_beq, List.any_cons, List.any_nil,
    List.filter_cons, List.filter_nil, String.ofList_toList, String.reduceEq, decide_true,
    decide_false, Bool.or_true, Bool.or_false, Bool.false_eq_true, if_true, if_false,
    List.getLast?_cons_cons, List.getLast?_singleton, List.getLast?_nil, Option.map_some,
    Option.map_none, Option.bind_some, Option.bind_none, Option.getD_some, Option.getD_none, hbody,
    hheaders]

end RouteScaffold.Source
