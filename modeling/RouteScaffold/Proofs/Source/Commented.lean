import RouteScaffold.Proofs.Source.BlankGaps
import RouteScaffold.Proofs.Source.Facets
import RouteScaffold.Proofs.Source.Trimmed

/-! Reading a source that has comments.

The readers of an object literal leave out comments in front of an entry and in front of
the dot of a chained call, and pass over brackets with all the comments in them. So where
no comment stands in a gap at which they leave out blanks alone (`Skippable`), and
comments decide about no slash, a source is read as if its comments were overwritten
(`read_withoutComments`). In such a gap a comment does change what is read
(`comments_change_fields`). -/
namespace RouteScaffold.Source
open Text Route

section
variable {x y : List Char}

/-! ### Entries -/

/-- What `read` reads of an entry is the same, where no comment stands in the gaps of its value. -/
structure ReadsOver {α : Type} (ofValue : List Char → List (List Char)) (read : Entry → α) :
    Prop where
  value : ∀ key {x y}, Cleared x y → (∀ gap ∈ ofValue x, Bare gap) →
    read ⟨key, y⟩ = read ⟨key, x⟩
  method : ∀ key rest rest', read ⟨key, '(' :: rest⟩ = read ⟨key, '(' :: rest'⟩

theorem readsOver_field : ReadsOver valueGaps Entry.field where
  value key _ _ h hgaps := field_cleared key h hgaps
  method key rest rest' := by rw [field_eq, field_eq]; rfl

theorem readsOver_head : ReadsOver (fun _ => []) Entry.head where
  value key x y h _ := by
    have hname := identifier?_cleared h
    rw [Entry.head, Entry.head]
    simp only
    generalize identifier? x = found at *
    generalize identifier? y = found' at *
    cases hname with
    | none => rfl
    | some hcut => simp [hcut.1]
  method key rest rest' := rfl

/-- Behind a key there is no value unless a colon, a bracket or nothing at all follows. -/
theorem value?_of_head (key : List Char) {cs : List Char} (hne : trimStart cs ≠ [])
    (hcolon : (trimStart cs).head? ≠ some ':') (hround : (trimStart cs).head? ≠ some '(') :
    value? key cs = none := by
  rw [value?]
  split
  next hnil => exact absurd hnil hne
  next heq => exact absurd heq (ne_cons_of_head hcolon _)
  next heq => exact absurd heq (ne_cons_of_head hround _)
  next => rfl

/-- Behind a key, both texts have a value that is read alike, or none. -/
theorem ReadsOver.value? {α : Type} {ofValue : List Char → List (List Char)} {read : Entry → α}
    (hread : ReadsOver ofValue read) (key : List Char) (h : Cleared x y) (hbare : Bare x)
    (hgaps : ∀ value, trimStart x = ':' :: value →
      Bare value ∧ ∀ gap ∈ ofValue (trim value), Bare gap) :
    (value? key y).map (fun value => read ⟨key, value⟩) =
      (value? key x).map fun value => read ⟨key, value⟩ := by
  have hled := h.led_trim hbare
  rcases hled.head (c := ':') (by decide) with ⟨a, b, u, v, hx, hy, hrest⟩ | ⟨hx, hy⟩
  · have hcleared : Cleared u v := ⟨_, _, hrest⟩
    obtain ⟨hvalue, hgaps⟩ := hgaps u hx
    simp only [Source.value?, hx, hy, Option.map_some]
    exact congrArg some (hread.value key (hcleared.trim hvalue).trimEnd hgaps)
  · rcases hled.head (c := '(') (by decide) with ⟨a, b, u, v, hx', hy', -⟩ | ⟨hx', hy'⟩
    · simp only [Source.value?, hx', hy', Option.map_some]
      exact congrArg some (hread.method key v u)
    · have hnil : trimStart y = [] ↔ trimStart x = [] := by
        rw [← List.head?_eq_none_iff, ← List.head?_eq_none_iff, hled.head_eq]
      by_cases hempty : trimStart x = []
      · rw [Source.value?, Source.value?, hempty, hnil.mpr hempty]
      · rw [value?_of_head key hempty hx hx', value?_of_head key (mt hnil.mp hempty) hy hy']

/-! ### Parts -/

/-- The text holds no comment: overwriting changes none of its pieces. -/
def Uncommented (cs : List Char) : Prop := quiet (pieces none cs) = pieces none cs

instance (cs : List Char) : Decidable (Uncommented cs) :=
  inferInstanceAs (Decidable (quiet (pieces none cs) = pieces none cs))

theorem lastSolid_cons {c : Char} (h : isBlank c = false) (a b : Option Char) (text : List Char) :
    lastSolid a (c :: text) = lastSolid b (c :: text) := by
  have hc : isAsciiBlank c = false := by
    cases hascii : isAsciiBlank c with
    | false => rfl
    | true => rw [isBlank_of_isAsciiBlank hascii] at h; cases h
  simp [lastSolid, hc]

/-- In front of a solid character that is no slash, it does not matter what the walk comes from. -/
theorem Walked.of_solid {a : Option Char} {p : Piece} {ps : List Piece} (h : Walked a (p :: ps))
    (hp : p.Solid) (hslash : p.text.head? ≠ some '/') (b : Option Char) : Walked b (p :: ps) := by
  obtain ⟨c, text, htext, hc⟩ := h.exists_head hp
  cases p with
  | code d =>
    obtain ⟨hskip, hrest⟩ := walked_code.mp h
    obtain ⟨rfl, rfl⟩ := List.cons.inj htext
    rw [lastSolid_cons hc a b] at hrest
    have hne : d ≠ '/' := fun heq => hslash (congrArg some heq)
    exact walked_code.mpr ⟨skip?_plain (isQuote_of_skip?_none hskip) hne b _, hrest⟩
  | skipped taken =>
    obtain ⟨hstretch, hrest⟩ := walked_skipped.mp h
    obtain rfl : taken = c :: text := htext
    rw [lastSolid_cons hc a b] at hrest
    exact walked_skipped.mpr
      ⟨hstretch.rest id (fun _ => .inl) fun _ heq => absurd heq hslash, hrest⟩

theorem key?_slash (rest : List Char) : key? ('/' :: rest) = none := by
  have hident : isIdentChar '/' = false := isIdentChar_of_mem_signs '/' (by decide)
  have hmodifier : stripModifier ('/' :: rest) = '/' :: rest := by
    simp [stripModifier, modifiers]
  simp [key?, hmodifier, identifier?, hident]

/-- Behind the gap in front of it, a part that starts with a slash holds no entry. -/
theorem ofPart?_slash {part rest : List Char} (h : stripComments part = '/' :: rest) :
    Entry.ofPart? part = none := by
  have hslash : isBlank '/' = false := isBlank_of_mem_signs '/' (by decide)
  have htrim : trimEnd ('/' :: rest) = '/' :: trimEnd rest := trimEnd_solid [] hslash rest
  simp [Entry.ofPart?, h, htrim, key?_slash]

/-- Where no comment stands, what is left of both texts is the same. -/
theorem trimEnd_uncommented (h : Cleared x y) (hblank : ∀ c ∈ x.head?, isBlank c = false)
    (hslash : x.head? ≠ some '/') (hx : Uncommented x) : trimEnd y = trimEnd x := by
  obtain ⟨a, b, ps, gap, hwalk, -, hgap, rfl, rfl⟩ := h
  have hself : Walked none (ps ++ gap) := by
    generalize ps ++ gap = qs at *
    cases qs with
    | nil => exact pieces_nil none
    | cons p qs =>
      refine hwalk.of_solid ?_ ?_ none
      · cases p with
        | code c => exact hblank c rfl
        | skipped text =>
          obtain ⟨c, body, rfl, -⟩ := (walked_skipped.mp hwalk).1.head
          exact isComment_of_ne (fun heq => hslash (congrArg some heq)) body
      · cases p with
        | code c => exact hslash
        | skipped text =>
          obtain ⟨c, body, rfl, -⟩ := (walked_skipped.mp hwalk).1.head
          exact hslash
  rw [Uncommented, hself, quiet_append] at hx
  rw [← hx, textOf_append, trimEnd_blank _ (blank_quiet hgap)]

theorem ofPart?_uncommented (h : Cleared x y) (hx : Uncommented (stripComments x)) :
    Entry.ofPart? y = Entry.ofPart? x := by
  by_cases hslash : (stripComments x).head? = some '/'
  · -- Where the gap ends in front of a slash, nothing is said on what the slash opens.
    obtain ⟨rest, hrest⟩ := List.head?_eq_some_iff.mp hslash
    obtain ⟨rest', hrest'⟩ := List.head?_eq_some_iff.mp (h.led_strip.head_eq.trans hslash)
    rw [ofPart?_slash hrest, ofPart?_slash hrest']
  · have htrim := trimEnd_uncommented h.strip (head_stripComments x) hslash hx
    rw [Entry.ofPart?, Entry.ofPart?, htrim]

/-- A part of a literal is read over its comments: none stands behind the gap in front of it, or
none in a gap where blanks alone are left out. In the second case a quoted key may hold no
backslash, since it ends at the first quote. -/
def Skippable (ofValue : List Char → List (List Char)) (part : List Char) : Prop :=
  Uncommented (stripComments part) ∨
    (∀ cut ∈ key? (trimEnd (stripComments part)), '\\' ∉ cut.1) ∧
      ∀ gap ∈ partGaps ofValue (trimEnd (stripComments part)), Bare gap

instance (ofValue : List Char → List (List Char)) (part : List Char) :
    Decidable (Skippable ofValue part) :=
  inferInstanceAs (Decidable (_ ∨ _ ∧ _))

/-- Trimmed behind the gap in front, both texts are cleared and start alike. -/
theorem Cleared.part (h : Cleared x y) :
    Cleared (Text.trimEnd (stripComments x)) (Text.trimEnd (stripComments y)) ∧
      Led (Text.trimEnd (stripComments x)) (Text.trimEnd (stripComments y)) := by
  have hcleared := h.strip.trimEnd
  obtain ⟨gone, hgone⟩ := prefix_trimEnd (stripComments x)
  have hblank : ∀ c ∈ (Text.trimEnd (stripComments x)).head?, isBlank c = false := fun c hc =>
    head_stripComments x c (by rw [← hgone, List.head?_append, Option.mem_def.mp hc]; rfl)
  refine ⟨hcleared, hcleared.led ?_ hblank⟩
  rw [Bare, trimStart_solid hblank]
  refine Bool.eq_false_iff.mpr fun hcomment => ?_
  have hbare := bare_stripComments x
  rw [Bare, trimStart_solid (head_stripComments x), ← hgone, isComment_append hcomment] at hbare
  cases hbare

/-- A part that is no spread holds the entry that its key and what stands behind it make. -/
theorem ofPart?_eq {part : List Char}
    (h : "...".toList.isPrefixOf (trimEnd (stripComments part)) = false) :
    Entry.ofPart? part = (key? (trimEnd (stripComments part))).bind fun cut =>
      (value? cut.1 cut.2).map (Entry.mk cut.1) := by
  simp only [Entry.ofPart?, h, Bool.false_eq_true, if_false]
  cases key? (trimEnd (stripComments part)) with
  | none => rfl
  | some cut =>
    cases hvalue : Source.value? cut.1 cut.2 <;> simp [hvalue]

theorem bare_modifier {ofValue : List Char → List (List Char)} {part : List Char}
    (h : ∀ gap ∈ partGaps ofValue part, Bare gap) {word : String} (hword : word ∈ modifiers)
    (hstarts : word.toList.isPrefixOf part = true) : Bare (part.drop word.length) :=
  h _ (List.mem_append_left _ (List.mem_filterMap.mpr ⟨word, hword, if_pos hstarts⟩))

/-- **An entry is read over its comments.** -/
theorem ReadsOver.ofPart? {α : Type} {ofValue : List Char → List (List Char)} {read : Entry → α}
    (hread : ReadsOver ofValue read) (h : Cleared x y) (hskip : Skippable ofValue x) :
    (Entry.ofPart? y).map read = (Entry.ofPart? x).map read := by
  rcases hskip with hx | ⟨hplain, hgaps⟩
  · rw [ofPart?_uncommented h hx]
  obtain ⟨hcleared, hled⟩ := h.part
  have hdots : ∀ c ∈ "...".toList, isBlank c = false ∧ c ∉ openers :=
    List.all_iff_forall_prop.mp (by decide)
  rcases hcleared.word _ hdots with ⟨hx, hy⟩ | ⟨u, v, hx, hy, -⟩
  · rw [ofPart?_eq hx, ofPart?_eq hy]
    have hkey := key?_cleared hled hcleared hplain fun word => bare_modifier hgaps
    have hgaps := fun gap hgap => hgaps gap (List.mem_append_right _ hgap)
    generalize key? (trimEnd (stripComments x)) = found at *
    generalize key? (trimEnd (stripComments y)) = found' at *
    cases hkey with
    | none => rfl
    | @some cut cut' hcut =>
      obtain ⟨hbare, hgaps⟩ := List.forall_mem_cons.mp hgaps
      have hvalue := hread.value? cut.1 hcut.2 hbare fun value hvalue => by
        rw [hvalue] at hgaps
        exact List.forall_mem_cons.mp hgaps
      simp only [Option.bind_some, Option.map_map, hcut.1]
      exact hvalue
  · simp only [Entry.ofPart?, hx, hy, isPrefixOf_append, if_true]

theorem ReadsOver.entries {α : Type} {ofValue : List Char → List (List Char)} {read : Entry → α}
    (hread : ReadsOver ofValue read) (h : Over x y)
    (hskip : ∀ part ∈ commaParts x, Skippable ofValue part) :
    (entries y).map read = (entries x).map read := by
  have hparts := commaParts_over h
  rw [Source.entries, Source.entries, List.map_filterMap, List.map_filterMap]
  generalize commaParts x = xs at *
  generalize commaParts y = ys at *
  induction hparts with
  | nil => rfl
  | cons hpart _ ih =>
    obtain ⟨hfirst, hskip⟩ := List.forall_mem_cons.mp hskip
    rw [List.filterMap_cons, List.filterMap_cons, hread.ofPart? hpart.cleared hfirst, ih hskip]

end

/-! ### Sources -/

/-- In the literal of a schema, comments stand where they are read over. -/
def SkippableFields (body : List Char) : Prop := ∀ part ∈ commaParts body, Skippable valueGaps part

instance (body : List Char) : Decidable (SkippableFields body) :=
  inferInstanceAs (Decidable (∀ part ∈ commaParts body, Skippable valueGaps part))

/-- So they do in the literal of a validator, of whose values only the first name is read, and in
the schemas that are named there. -/
structure SkippableFacets (source body : List Char) : Prop where
  literal : ∀ part ∈ commaParts body, Skippable (fun _ => []) part
  schemas : ∀ entry ∈ entries body, ∀ cut ∈ identifier? entry.value,
    ∀ schema ∈ objectBody? source cut.1 .schema, SkippableFields schema

theorem schemaFields_over {x y name : List Char} (h : Over x y)
    (hskip : ∀ body ∈ objectBody? x name .schema, SkippableFields body) :
    schemaFields y name = schemaFields x name := by
  have hbody := objectBody?_over h name .schema
  rw [schemaFields, schemaFields]
  generalize objectBody? x name .schema = found at *
  generalize objectBody? y name .schema = found' at *
  cases hbody with
  | none => rfl
  | some hbody => exact readsOver_field.entries hbody (hskip _ rfl)

theorem facetFields_over {x y value : List Char} (h : Over x y)
    (hskip : ∀ cut ∈ identifier? value, ∀ body ∈ objectBody? x cut.1 .schema,
      SkippableFields body) :
    facetFields y value = facetFields x value := by
  rw [facetFields, facetFields]
  generalize identifier? value = word at *
  cases word with
  | none => rfl
  | some cut =>
    show (if cut.1 == ['z'] then [] else schemaFields y cut.1) = if cut.1 == ['z'] then [] else _
    rw [schemaFields_over h (hskip cut rfl)]

theorem ofSource_over {source source' : String} (h : Over source.toList source'.toList)
    (hskip : ∀ body ∈ validatorBody? source.toList, SkippableFacets source.toList body)
    (method : Method) (fileName : String) :
    Descriptor.ofSource method fileName source' = Descriptor.ofSource method fileName source := by
  have hbody := validatorBody?_over h
  rw [Descriptor.ofSource, Descriptor.ofSource]
  generalize validatorBody? source.toList = found at *
  generalize validatorBody? source'.toList = found' at *
  cases hbody with
  | none => rfl
  | @some body body' hbody =>
    obtain ⟨hliteral, hschemas⟩ := hskip body rfl
    exact foldl_declare_congr (fun entry hentry => facetFields_over h (hschemas entry hentry))
      (readsOver_head.entries hbody hliteral) _

/-- **Where no comment stands in a gap for blanks alone, and none decides about a slash, comments
do not change what is read.** Only the literals that are read have such gaps: in front of their
entries, behind the values, between chained calls, within arguments and outside the literals
comments may stand anywhere. -/
theorem read_withoutComments {source : String}
    (hcalm : Calm none none (pieces none source.toList)) :
    ((∀ body ∈ validatorBody? source.toList, SkippableFacets source.toList body) →
      ∀ method fileName,
        Descriptor.ofSource method fileName (String.ofList (withoutComments source.toList)) =
          Descriptor.ofSource method fileName source) ∧
    ∀ name, (∀ body ∈ objectBody? source.toList name .schema, SkippableFields body) →
      schemaFields (withoutComments source.toList) name = schemaFields source.toList name := by
  have hover := over_withoutComments hcalm
  refine ⟨fun hskip => ofSource_over (by rwa [String.toList_ofList]) hskip, fun name hskip => ?_⟩
  exact schemaFields_over hover hskip

/-- Comments in the declarations and behind a brace are read over, and in an entry those in front
of it, within its arguments, between its calls and behind its value. -/
theorem read_withoutComments_body :
    let source := "const b /* , */ = z.object(\x7b // a\n a: z.string(/* ) */) // b\n" ++
      " .optional() /* c */ \x7d);\n" ++
      "export const requestValidator = f(\x7b /* body: */ body: b /* , */ \x7d);"
    Descriptor.ofSource .post "route.post.config.ts"
        (String.ofList (withoutComments source.toList)) =
      Descriptor.ofSource .post "route.post.config.ts" source ∧
      schemaFields (withoutComments source.toList) ['b'] = schemaFields source.toList ['b'] := by
  intro source
  have hcalm : Calm none none (pieces none source.toList) := by decide +kernel
  have hbody : validatorBody? source.toList = some " /* body: */ body: b /* , */ ".toList := by
    decide +kernel
  have hentries : entries " /* body: */ body: b /* , */ ".toList =
      [⟨"body".toList, "b /* , */".toList⟩] := by
    decide +kernel
  have hword : identifier? "b /* , */".toList = some (['b'], " /* , */".toList) := by
    decide +kernel
  have hschema : objectBody? source.toList ['b'] .schema =
      some " // a\n a: z.string(/* ) */) // b\n .optional() /* c */ ".toList := by
    decide +kernel
  have hliteral : ∀ part ∈ commaParts " /* body: */ body: b /* , */ ".toList,
      Skippable (fun _ => []) part := by
    decide +kernel
  have hfields : SkippableFields
      " // a\n a: z.string(/* ) */) // b\n .optional() /* c */ ".toList := by
    decide +kernel
  have hname : ∀ body ∈ objectBody? source.toList ['b'] .schema, SkippableFields body := by
    intro body hmem
    obtain rfl := Option.some.inj (hschema.symm.trans hmem)
    exact hfields
  have hfacets : ∀ body ∈ validatorBody? source.toList, SkippableFacets source.toList body := by
    intro body hmem
    obtain rfl := Option.some.inj (hbody.symm.trans hmem)
    refine ⟨hliteral, fun entry hentry cut hcut => ?_⟩
    rw [hentries, List.mem_singleton] at hentry
    subst hentry
    obtain rfl := Option.some.inj (hword.symm.trans hcut)
    exact hname
  obtain ⟨hparse, hfields⟩ := read_withoutComments hcalm
  exact ⟨hparse hfacets .post "route.post.config.ts", hfields ['b'] hname⟩

/-- Elsewhere a comment does change what is read: behind a key the field is lost, and in front of a
regular expression its brackets are taken for code. -/
theorem comments_change_fields :
    let keyed := "const s = z.object(\x7b a /* c */: z.string() \x7d);".toList
    let matched :=
      "const s = z.object(\x7b a: z.string().regex(/* c */ /\\)/).optional() \x7d);".toList
    schemaFields keyed ['s'] = [] ∧
      schemaFields (withoutComments keyed) ['s'] = [⟨"a", .string, false⟩] ∧
      schemaFields matched ['s'] = [⟨"a", .string, false⟩] ∧
      schemaFields (withoutComments matched) ['s'] = [⟨"a", .string, true⟩] := by
  decide +kernel

end RouteScaffold.Source
