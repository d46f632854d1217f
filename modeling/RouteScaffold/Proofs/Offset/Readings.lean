import RouteScaffold.Proofs.Offset.Calls
import RouteScaffold.Proofs.Source.Located

/-! Reading a descriptor file by offsets.

A declaration is found on the masked copy, and the offset where the match ends is then used on
the source itself: there it stands behind the same sign, since as much of the source stands in
front of it (`exists_found`). From it the readers slice the source, the copy, and slices of
them. None of these slices is out of place, whatever the source, and the levels of some
literals are all that the result of a reading depends on (`gives_descriptorIn`); those of a
short source fit (`length_descriptorLiterals_le`).

`reads_every_source` puts the development together. -/
namespace RouteScaffold.Offset
open Source Text Route

/-! ### Where a match ends -/

/-- The offset behind the first match of the pattern. -/
def matchEnd (take? : List Cell → Option (List Cell)) (masked : List Char) : Option Nat :=
  (search take? none (codeCells masked)).map fun rest => byteLength masked - byteLength (shown rest)

/-- The pattern sees no more of a text than the masked copy shows. -/
theorem matchEnd_codeOf {take? : List Cell → Option (List Cell)} (h : Blind take?)
    (source : List Char) :
    matchEnd take? (codeOf source) =
      (search take? none (mask source)).map fun rest =>
        byteLength (codeOf source) - byteLength (shown rest) := by
  obtain ⟨taken, hcode, hmask⟩ := blind_search h (codeCells (codeOf source)) (mask source)
    (shown_codeCells _)
  rw [matchEnd, hcode, hmask, Option.map_map, Option.map_map]
  congr 1
  funext n
  simp only [Function.comp_apply, shown_drop, shown_codeCells]
  rfl

/-- A match whose last sign is `c` ends in the source behind that sign too, which is code there. -/
theorem exists_found {take? : List Cell → Option (List Cell)} {c : Char} (hblind : Blind take?)
    (hlands : Lands c take?) (hsolid : isBlank c = false) {source : List Char} {rest : List Cell}
    (h : search take? none (mask source) = some rest) :
    ∃ qs rs, pieces none source = qs ++ .code c :: rs ∧ rest = rs.flatMap Piece.cells ∧
      matchEnd take? (codeOf source) = some (byteLength (textOf qs ++ [c])) := by
  obtain ⟨front, cell, hmask, rfl⟩ := lands_search hlands _ _ h
  obtain ⟨qs, rs, hpieces, rfl, rfl⟩ := exists_code hmask hsolid
  refine ⟨qs, rs, hpieces, rfl, ?_⟩
  rw [matchEnd_codeOf hblind, h, Option.map_some, codeOf, hmask, shown_append, shown_cons]
  simp [byteLength_shown]
  omega

/-! ### The literal that a name is given -/

/-- The offset of the byte in front of an offset; in front of the first there is none. -/
def stepBack (i : Nat) : Outcome Nat := if i = 0 then throw (.cut i) else pure (i - 1)

/-- The text between the braces of the object literal that the first declaration of `name` is
given. -/
def assignedBody (source name : List Char) (opening : Opening) : Outcome (Option (List Char)) := do
  match matchEnd (declared? name opening) (← maskedText source) with
  | none => return none
  | some stop =>
    let brace ← stepBack stop
    match ← findMatching (bytesOf source) 0 brace with
    | none => return none
    | some close => return some (← slice source (brace + 1) close)

theorem textOf_code {ps qs rs : List Piece} {c : Char} (h : ps = qs ++ .code c :: rs) :
    textOf ps = textOf qs ++ c :: textOf rs := by
  rw [h, textOf_append]
  rfl

theorem assignedBody_eq (source name : List Char) (opening : Opening) :
    assignedBody source name opening = pure (objectBody? source name opening) := by
  rw [assignedBody, maskedText_eq, pure_bind, objectBody?_eq]
  cases hfound : search (declared? name opening) none (mask source) with
  | none =>
    rw [matchEnd_codeOf (blind_declared name opening), hfound]
    rfl
  | some rest =>
    obtain ⟨qs, rs, hpieces, rfl, hend⟩ := exists_found (blind_declared name opening)
      (lands_declared name opening) (by decide) hfound
    have hsource := textOf_code hpieces
    rw [textOf_pieces] at hsource
    have hbrace :
        stepBack (byteLength (textOf qs ++ ['\x7b'])) = pure (byteLength (textOf qs)) := by
      rw [byteLength_concat_of_ascii (by decide)]
      rfl
    rw [hend]
    simp only [hbrace, pure_bind, findMatching_opening hsource rfl rfl, sourceOf_cells,
      Option.bind_some]
    cases hclose : enclosed? '\x7b' (textOf rs) with
    | none => rfl
    | some cut => simp only [Option.map_some, slice_enclosed hsource rfl hclose rfl, pure_bind]

/-! ### The call of the validator -/

/-- Takes all up to the equals sign of the validator off the front. -/
def bindsValidator (cells : List Cell) : Option (List Cell) :=
  (word? validatorName.toList cells).bind equals?

/-- The text between the brackets of the call in front of which no semicolon stands, given the
source behind the equals sign and its masked copy. -/
def callArguments (rest masked : List Char) : Outcome (Option (List Char)) := do
  match findOffset (· == '(') masked with
  | none => return none
  | some bracket =>
    if (← sliceTo masked bracket).any (· == ';') then return none
    match ← findMatching (bytesOf rest) 0 bracket with
    | none => return none
    | some close => return some (← slice rest (bracket + 1) close)

theorem callArguments_eq (rs : List Piece) :
    callArguments (textOf rs) (shown (rs.flatMap Piece.cells)) =
      pure ((toArguments? (rs.flatMap Piece.cells)).bind fun arguments =>
        (enclosed? '(' (sourceOf arguments)).map Prod.fst) := by
  have hpred : (fun c => !(c == '(')) = (· != '(') := rfl
  generalize hcells : rs.flatMap Piece.cells = cells
  have htake : (shown cells).takeWhile (· != '(') = shown (cells.takeWhile (·.shown != '(')) :=
    List.takeWhile_map
  have hdrop : (shown cells).dropWhile (· != '(') = shown (cells.dropWhile (·.shown != '(')) :=
    List.dropWhile_map
  rw [callArguments, findOffset_eq, hpred, htake, hdrop, toArguments?]
  cases hbehind : cells.dropWhile (·.shown != '(') with
  | nil => simp
  | cons cell arguments =>
    have hcell : cell.shown = '(' := by
      have hhead := List.head?_dropWhile_not (·.shown != '(') cells
      rw [hbehind] at hhead
      simpa using hhead
    have hsplit : cells = cells.takeWhile (·.shown != '(') ++ cell :: arguments := by
      rw [← hbehind, List.takeWhile_append_dropWhile]
    obtain ⟨us, vs, hpieces, hfront, harguments⟩ :=
      exists_code (hcells.trans hsplit) (by rw [hcell]; decide)
    have hbracket : byteLength (shown (cells.takeWhile (·.shown != '('))) =
        byteLength (textOf us) := by rw [← hfront, byteLength_shown]
    have hshown : shown cells = shown (cells.takeWhile (·.shown != '(')) ++
        shown (cell :: arguments) := by rw [← shown_append, ← hsplit]
    have hany : (shown (cells.takeWhile (·.shown != '('))).any (· == ';') =
        (cells.takeWhile (·.shown != '(')).any (·.shown == ';') := List.any_map
    have hrest := textOf_code (hcell ▸ hpieces)
    rw [shown_cons, if_neg (List.cons_ne_nil _ _)]
    simp only [sliceTo_eq hshown rfl, pure_bind, hany]
    split
    next => rfl
    next =>
      rw [hbracket, findMatching_opening hrest rfl rfl, ← harguments, pure_bind, Option.bind_some,
        sourceOf_cells]
      cases hclose : enclosed? '(' (textOf vs) with
      | none => rfl
      | some cut => simp only [Option.map_some, slice_enclosed hrest rfl hclose rfl, pure_bind]

/-- The text between the brackets of the validator's call, if there is one. -/
def validatorArguments (source : List Char) : Outcome (Option (List Char)) := do
  let masked ← maskedText source
  match matchEnd bindsValidator masked with
  | none => return none
  | some stop => callArguments (← sliceFrom source stop) (← sliceFrom masked stop)

theorem validatorArguments_eq (source : List Char) :
    validatorArguments source = pure (validatorArguments? source) := by
  have hblind : Blind bindsValidator := (blind_word validatorName.toList).bind blind_equals
  have hlands : Lands '=' bindsValidator := .bind (blind_word validatorName.toList) lands_equals
  have hmodel : validatorArguments? source = ((search bindsValidator none (mask source)).bind
      toArguments?).bind fun arguments => (enclosed? '(' (sourceOf arguments)).map Prod.fst :=
    validatorArguments?_eq source
  rw [validatorArguments, maskedText_eq, pure_bind, hmodel]
  cases hfound : search bindsValidator none (mask source) with
  | none =>
    rw [matchEnd_codeOf hblind, hfound]
    rfl
  | some rest =>
    obtain ⟨qs, rs, hpieces, rfl, hend⟩ := exists_found hblind hlands (by decide) hfound
    have hsource : source = textOf qs ++ ['='] ++ textOf rs := by
      rw [← List.append_cons, ← textOf_code hpieces, textOf_pieces]
    have hmasked : codeOf source = shown (qs.flatMap Piece.cells) ++ ['='] ++
        shown (rs.flatMap Piece.cells) := by
      rw [codeOf, mask, hpieces, List.flatMap_append, shown_append, List.append_assoc]
      rfl
    rw [hend]
    simp only [sliceFrom_eq hsource rfl, pure_bind, Option.bind_some]
    rw [sliceFrom_eq hmasked (by simp [byteLength_shown]), pure_bind, callArguments_eq]

/-- The text between the braces of the object literal that the validator's call is given. -/
def validatorBody (source : List Char) : Outcome (Option (List Char)) := do
  match ← validatorArguments source with
  | none => return none
  | some arguments =>
    let argument ← stripLeading arguments
    if argument.head? == some '\x7b' then
      match ← findMatching (bytesOf argument) 0 0 with
      | none => return none
      | some close => return some (← slice argument 1 close)
    else
      match ← leadingIdentifier argument with
      | some name => return some ((← assignedBody source name .literal).getD [])
      | none => return some []

theorem validatorBody_eq (source : List Char) :
    validatorBody source = pure (validatorBody? source) := by
  rw [validatorBody, validatorArguments_eq, pure_bind, validatorBody?]
  cases validatorArguments? source with
  | none => rfl
  | some arguments =>
    simp only [stripLeading_eq, pure_bind, Option.bind_eq_bind, Option.bind_some]
    generalize stripComments arguments = argument
    cases hbrace : argument.head? == some '\x7b' with
    | true =>
      obtain ⟨rest, rfl⟩ := List.head?_eq_some_iff.mp (beq_iff_eq.mp hbrace)
      rw [if_pos rfl, findMatching_head rfl, pure_bind]
      cases hclose : enclosed? '\x7b' rest with
      | none => simp only [hclose, Option.map_none, Option.bind_none]
      | some cut =>
        simp only [hclose, Option.map_some, slice_head rfl hclose, pure_bind, Option.bind_some]
        rfl
    | false =>
      rw [if_neg (by decide)]
      split
      next => cases hbrace
      next =>
        rw [leadingIdentifier_eq, pure_bind]
        cases identifier? argument with
        | none => rfl
        | some cut => simp only [Option.map_some, assignedBody_eq, pure_bind]; rfl

/-! ### Fields and descriptors -/

/-- The fields of the schema that the source declares as `name`. -/
def fieldsIn (overflow : Overflow) (source name : List Char) : Outcome (List Field) := do
  match ← assignedBody source name .schema with
  | some body => (← objectEntries overflow body).mapM fieldOf
  | none => return []

/-- The literal that the fields of a schema are in, if there is one. -/
def schemaLiterals (source name : List Char) : List (List Char) :=
  (objectBody? source name .schema).toList

theorem gives_fieldsIn (source name : List Char) :
    Gives (schemaLiterals source name) (fieldsIn · source name) (schemaFields source name) := by
  have hfield : fieldOf = fun entry => pure entry.field := funext fieldOf_eq
  simp only [fieldsIn, assignedBody_eq, pure_bind, schemaFields, schemaLiterals, hfield,
    List.mapM_pure]
  cases objectBody? source name .schema with
  | none => exact .of_pure []
  | some body => exact (gives_objectEntries body).map (·.map Entry.field)

/-- The fields behind the value of a facet. -/
def facetFieldsIn (overflow : Overflow) (source value : List Char) : Outcome (List Field) := do
  match ← leadingIdentifier value with
  | some name => if name == ['z'] then return [] else fieldsIn overflow source name
  | none => return []

/-- The literal that the value of a facet leads to, if there is one. -/
def facetLiterals (source value : List Char) : List (List Char) :=
  match identifier? value with
  | some (name, _) => if name == ['z'] then [] else schemaLiterals source name
  | none => []

theorem gives_facetFieldsIn (source value : List Char) :
    Gives (facetLiterals source value) (facetFieldsIn · source value)
      (facetFields source value) := by
  simp only [facetFieldsIn, leadingIdentifier_eq, pure_bind, facetFields, facetLiterals]
  cases identifier? value with
  | none => exact .of_pure []
  | some cut =>
    simp only [Option.map_some]
    split
    next => exact .of_pure []
    next => exact gives_fieldsIn source cut.1

/-- The descriptor with what one entry of the validator declares. -/
def declareIn (overflow : Overflow) (source : List Char) (d : Descriptor) (entry : Entry) :
    Outcome Descriptor := do
  if entry.key == "body".toList then
    return { d with body := ⟨true, ← facetFieldsIn overflow source entry.value⟩ }
  else if entry.key == "params".toList then
    return { d with params := ⟨true, ← facetFieldsIn overflow source entry.value⟩ }
  else if entry.key == "searchParams".toList then
    return { d with searchParams := ⟨true, ← facetFieldsIn overflow source entry.value⟩ }
  else if entry.key == "headers".toList then
    return { d with headers := ⟨true, ← facetFieldsIn overflow source entry.value⟩ }
  else if entry.key == "user".toList then return { d with auth := true }
  else return d

/-- The keys of the facets that have fields. -/
def fieldKeys : List (List Char) :=
  ["body".toList, "params".toList, "searchParams".toList, "headers".toList]

/-- The literal that an entry of the validator leads to, if there is one. -/
def entryLiterals (source : List Char) (entry : Entry) : List (List Char) :=
  if entry.key ∈ fieldKeys then facetLiterals source entry.value else []

theorem gives_declareIn (source : List Char) (d : Descriptor) (entry : Entry) :
    Gives (entryLiterals source entry) (declareIn · source d entry) (d.declare source entry) := by
  have hfacet := gives_facetFieldsIn source entry.value
  by_cases hkey : entry.key ∈ fieldKeys
  · simp only [declareIn, Descriptor.declare, entryLiterals, if_pos hkey]
    simp only [fieldKeys, List.mem_cons, List.not_mem_nil, or_false] at hkey
    rcases hkey with hkey | hkey | hkey | hkey <;> rw [hkey]
    · exact hfacet.map fun fields => { d with body := ⟨true, fields⟩ }
    · exact hfacet.map fun fields => { d with params := ⟨true, fields⟩ }
    · exact hfacet.map fun fields => { d with searchParams := ⟨true, fields⟩ }
    · exact hfacet.map fun fields => { d with headers := ⟨true, fields⟩ }
  · simp only [declareIn, Descriptor.declare, entryLiterals, if_neg hkey]
    simp only [fieldKeys, List.mem_cons, List.not_mem_nil, or_false, not_or] at hkey
    simp only [hkey, beq_iff_eq, if_false]
    split
    · exact .of_pure { d with auth := true }
    · exact .of_pure d

theorem gives_foldlM_declareIn (source : List Char) (d : Descriptor) (es : List Entry) :
    Gives (es.flatMap (entryLiterals source))
      (fun overflow => es.foldlM (declareIn overflow source) d)
      (es.foldl (Descriptor.declare source) d) := by
  induction es generalizing d with
  | nil => exact .of_pure d
  | cons entry es ih =>
    simp only [List.foldlM_cons]
    exact (gives_declareIn source d entry).bind (ih _) fun d => (ih d).wraps

/-- What the source of a descriptor file declares. -/
def descriptorIn (overflow : Overflow) (method : Method) (fileName source : String) :
    Outcome Descriptor := do
  let blank : Descriptor := { method, fileName }
  match ← validatorBody source.toList with
  | some body =>
    (← objectEntries overflow body).foldlM (declareIn overflow source.toList) blank
  | none => return blank

/-- The literals that a descriptor is read from: the validator's own and those that its entries
lead to. -/
def descriptorLiterals (source : List Char) : List (List Char) :=
  match validatorBody? source with
  | some body => body :: (entries body).flatMap (entryLiterals source)
  | none => []

/-- No slice is out of place, no loop goes on for ever, and what comes of it is the descriptor. -/
theorem gives_descriptorIn (method : Method) (fileName source : String) :
    Gives (descriptorLiterals source.toList) (descriptorIn · method fileName source)
      (Descriptor.ofSource method fileName source) := by
  simp only [descriptorIn, validatorBody_eq, pure_bind, Descriptor.ofSource, descriptorLiterals]
  cases validatorBody? source.toList with
  | none => exact .of_pure _
  | some body =>
    exact (gives_objectEntries body).bind (gives_foldlM_declareIn source.toList _ (entries body))
      fun es => (gives_foldlM_declareIn source.toList _ es).wraps

/-! ### Short sources -/

/-- What a bracket of the source encloses is not longer than the source. -/
theorem length_taken_le {take? : List Cell → Option (List Cell)} {c bracket : Char}
    (hlands : Lands c take?) {source inside : List Char}
    (h : (take? (mask source)).bind (fun rest => (enclosed? bracket (sourceOf rest)).map Prod.fst) =
      some inside) : inside.length ≤ source.length := by
  obtain ⟨rest, hrest, hinside⟩ := Option.bind_eq_some_iff.mp h
  obtain ⟨⟨inside, after⟩, hcut, rfl⟩ := Option.map_eq_some_iff.mp hinside
  obtain ⟨front, cell, hmask, -⟩ := hlands _ _ hrest
  obtain ⟨d, -, htext⟩ := eq_append_of_enclosed? hcut
  have hsource := sourceOf_mask source
  rw [hmask, List.append_cons, sourceOf_append, htext] at hsource
  rw [← hsource, List.length_append, List.length_append]
  exact (Nat.le_add_right ..).trans (Nat.le_add_left ..)

theorem length_objectBody?_le {source name body : List Char} {opening : Opening}
    (h : objectBody? source name opening = some body) : body.length ≤ source.length :=
  length_taken_le (lands_search (lands_declared name opening))
    ((objectBody?_eq source name opening).symm.trans h)

theorem length_validatorArguments?_le {source arguments : List Char}
    (h : validatorArguments? source = some arguments) : arguments.length ≤ source.length := by
  have hsearch := blind_search ((blind_word validatorName.toList).bind blind_equals)
  exact length_taken_le (.bind hsearch lands_toArguments)
    ((validatorArguments?_eq source).symm.trans h)

theorem length_validatorBody?_le {source body : List Char} (h : validatorBody? source = some body) :
    body.length ≤ source.length := by
  rw [validatorBody?] at h
  obtain ⟨arguments, harguments, h⟩ := Option.bind_eq_some_iff.mp h
  have hlength := length_validatorArguments?_le harguments
  have hstrip := length_stripComments_le arguments
  split at h
  next rest hrest =>
    obtain ⟨⟨inside, after⟩, hcut, hbody⟩ := Option.bind_eq_some_iff.mp h
    obtain rfl : inside = body := Option.some.inj hbody
    obtain ⟨d, -, htext⟩ := eq_append_of_enclosed? hcut
    rw [hrest, htext, List.length_cons, List.length_append] at hstrip
    omega
  next =>
    split at h
    next name _ _ =>
      obtain rfl := Option.some.inj h
      cases hobject : objectBody? source name .literal with
      | none => exact Nat.zero_le _
      | some body => exact length_objectBody?_le hobject
    next =>
      obtain rfl := Option.some.inj h
      exact Nat.zero_le _

theorem length_schemaLiterals_le {source name literal : List Char}
    (h : literal ∈ schemaLiterals source name) : literal.length ≤ source.length :=
  length_objectBody?_le (Option.mem_toList.mp h)

theorem length_descriptorLiterals_le {source literal : List Char}
    (h : literal ∈ descriptorLiterals source) : literal.length ≤ source.length := by
  rw [descriptorLiterals] at h
  split at h
  next body hbody =>
    rcases List.mem_cons.mp h with rfl | h
    · exact length_validatorBody?_le hbody
    · obtain ⟨entry, -, h⟩ := List.mem_flatMap.mp h
      rw [entryLiterals] at h
      split at h
      · rw [facetLiterals] at h
        split at h
        · split at h
          · cases h
          · exact length_schemaLiterals_le h
        · cases h
      · cases h
  next => cases h

/-! ### Any source -/

/-- **Passing over moves on, and reading never fails**, whatever the source. From each offset that
is passed over the next one is ahead and not behind the end, and it stands between two characters
if the first one does. Masking ends with a copy of the bytes that shows blanks where they are
passed over and is a text again. The walks over brackets, commas, comments and chained calls end,
and so do the readings of a schema and of a descriptor, each with the result that it has on
characters: no offset is ever used to cut a text that cannot be cut there. Where a literal leads
down more brackets than 32 bits can count, which takes a source of 2³¹ characters, levels wrap and
the reading still ends with a result; a program that is built to stop at an overflow stops there
and nowhere else. -/
theorem reads_every_source (source : String) :
    let text := source.toList
    let bytes := bytesOf text
    (∀ i (h : i < bytes.length), ∀ next ∈ skipAt bytes i h,
      i < next ∧ next ≤ bytes.length ∧ (Boundary text i → Boundary text next)) ∧
    (∃ masked, maskFrom bytes bytes 0 = pure masked ∧ Masks bytes masked ∧
      masked.toByteArray.IsValidUTF8 ∧ decode? masked = some (codeOf text)) ∧
    (∀ depth i, ∃ found, findMatching bytes depth i = pure found ∧
      ∀ k ∈ found, i ≤ k ∧ k < bytes.length) ∧
    stripLeading text = pure (stripComments text) ∧
    chainedCalls text = pure (chain text) ∧
    (∃ parts, splitTopLevel .wraps text = pure parts ∧ [','].intercalate parts = text) ∧
    Gives [text] (splitTopLevel · text) (commaParts text) ∧
    (∀ name, Gives (schemaLiterals text name) (fieldsIn · text name) (schemaFields text name)) ∧
    (∀ method fileName, Gives (descriptorLiterals text) (descriptorIn · method fileName source)
      (Descriptor.ofSource method fileName source)) ∧
    (text.length < 2 ^ 31 → Shallow text ∧
      (∀ name, ∀ literal ∈ schemaLiterals text name, Shallow literal) ∧
      ∀ literal ∈ descriptorLiterals text, Shallow literal) := by
  intro text bytes
  refine ⟨fun i h next hnext => ?_, ?_, findMatching_ends bytes, stripLeading_eq text,
    chainedCalls_eq text, exists_splitTopLevel text, gives_splitTopLevel text,
    gives_fieldsIn text, fun method fileName => gives_descriptorIn method fileName source,
    fun hshort => ⟨shallow_of_lt hshort, fun name literal hliteral => ?_,
      fun literal hliteral => ?_⟩⟩
  · obtain ⟨hahead, hend⟩ := skipAt_bounds h hnext
    exact ⟨hahead, hend, fun hi => boundary_skipAt hi h hnext⟩
  · obtain ⟨masked, hmasked, hmasks⟩ := exists_masks bytes
    have hcode : masked = bytesOf (codeOf text) := by
      have heq := hmasked.symm.trans (maskFrom_bytesOf [] text [] rfl)
      exact Except.ok.inj (Part.some_injective heq)
    rw [hcode] at hmasked hmasks
    exact ⟨_, hmasked, hmasks, ⟨_, rfl⟩, decode?_bytesOf _⟩
  · exact shallow_of_lt (Nat.lt_of_le_of_lt (length_schemaLiterals_le hliteral) hshort)
  · exact shallow_of_lt (Nat.lt_of_le_of_lt (length_descriptorLiterals_le hliteral) hshort)

/-- A backslash takes the first byte of the letter behind it, and the string still ends behind its
closing quote. -/
example : skipAt (bytesOf "'\\é' x".toList) 0 (by decide) = some 5 := by cbv

end RouteScaffold.Offset
