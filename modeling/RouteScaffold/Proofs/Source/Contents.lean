import RouteScaffold.Proofs.Source.Facets
import RouteScaffold.Proofs.Source.Literals
import RouteScaffold.Proofs.Source.Runs
import RouteScaffold.Proofs.Source.Unread

/-! The contents of strings.

What a string in a descriptor's source says does not change what is read from the source
(`contents_unread`), if the string stands behind the key of its entry wherever it is in an
object literal, and the key has no backslash. A quoted key with an escaped quote
ends too early for the reader, so that the strings behind it are read as code
(`contents_change_fields`). -/
namespace RouteScaffold.Source
open Text Route

/-- What stands behind a brace that is taken for the start of an object literal: the one that a
declaration is given, or the one in the validator's call. -/
inductive Brace (source : List Char) : List Char → Prop where
  | declared {name opening cells} : (∀ c ∈ name, isBlank c = false) →
      search (declared? name opening) none (mask source) = some cells →
      Brace source (sourceOf cells)
  | argument {cells rest} :
      (search (fun cells => (word? validatorName.toList cells).bind equals?) none
        (mask source)).bind toArguments? = some cells →
      stripComments (sourceOf cells) = '\x7b' :: rest → Brace source rest

/-- The string stands behind the key of its entry, in every literal that is still open there. -/
def BehindKeys (quote : Char) (front body back : List Char) : Prop :=
  ∀ inner, Brace (withString quote front body back) (withString quote inner body back) →
    enclosed? '\x7b' inner = none → BehindKey ((commaParts inner).getLastD [])

/-- What stands in an object literal in front of a string that it leads to, and whose key it
holds. -/
structure InLiteral (quote : Char) (front : List Char) : Prop where
  reaches : Reaches quote none front
  behind : BehindKey ((commaParts front).getLastD [])

/-- The string is in the literal that is read, behind its key, or what it says does not count. -/
def Held (quote : Char) (f : List Char → Option (List Char)) : Prop :=
  Unread quote f ∨ ∃ front back, InLiteral quote front ∧
    ∀ body, StringBody quote body → f body = some (withString quote front body back)

section
variable {quote : Char} {front : List Char}

/-! ### The masked copy -/

theorem blankRun_hide (c : Char) (text : List Char) : BlankRun ((c :: text).flatMap hide) := by
  have hblank : ∀ cell ∈ (Piece.skipped (c :: text)).cells, isBlank cell.shown = true :=
    fun _ => isBlank_of_mem_skipped
  refine ⟨?_, hblank⟩
  rw [List.flatMap_cons, hide]
  split <;> simp

theorem mask_withString {body : List Char} (h : Reaches quote none front)
    (hq : isQuote quote = true) (hbody : StringBody quote body) (back : List Char) :
    mask (withString quote front body back) =
      (pieces none front).flatMap Piece.cells ++ ((quote :: (body ++ [quote])).flatMap hide ++
        (pieces (some quote) back).flatMap Piece.cells) := by
  rw [mask, pieces_withString h hq hbody, List.flatMap_append, List.flatMap_cons]
  rfl

/-- A reader that stops behind an opening bracket stops behind one in front of the string, which
then leads to it, or leaves the same whatever the string says. -/
theorem taken_withString {take? : List Cell → Option (List Cell)} {c : Char}
    (hsteady : Steady take?) (hlands : Lands c take?) (hc : isBlank c = false)
    (hopens : opensRegex (some c) = true)
    (h : Reaches quote none front) (hq : isQuote quote = true) (back : List Char) :
    Unread quote (fun body => (take? (mask (withString quote front body back))).map sourceOf) ∨
    ∃ inner, Reaches quote (some c) inner ∧ ∀ body, StringBody quote body →
      (take? (mask (withString quote front body back))).map sourceOf =
        some (withString quote inner body back) := by
  have hmask {body : List Char} (hbody : StringBody quote body) :=
    congrArg take? (mask_withString h hq hbody back)
  obtain ⟨r, hr⟩ | ⟨left, ⟨gone, hleft⟩, hrun⟩ := hsteady ((pieces none front).flatMap Piece.cells)
    ((pieces (some quote) back).flatMap Piece.cells)
  · refine .inl ⟨r.map sourceOf, fun body hbody => congrArg (Option.map sourceOf) ?_⟩
    exact (hmask hbody).trans (hr _ (blankRun_hide quote _))
  · obtain ⟨before, cell, hcells, rfl⟩ := hlands _ _ (hrun _ (blankRun_hide quote [quote]))
    have hgone : gone = before ++ [cell] := by
      rw [← hleft, List.append_assoc] at hcells
      refine List.append_cancel_right (hcells.trans ?_)
      simp
    have hcells : (pieces none front).flatMap Piece.cells = before ++ cell :: left := by
      rw [← hleft, hgone]
      simp
    obtain ⟨qs, rs, hpieces, -, rfl⟩ := exists_code hcells hc
    have hsplit : pieces none front = (qs ++ [.code cell.shown]) ++ rs := by simp [hpieces]
    have hreaches := h.back hsplit
    rw [textOf_append] at hreaches
    refine .inr ⟨textOf rs, lastSolid_of_opens hopens none (textOf qs) ▸ hreaches,
      fun body hbody => ?_⟩
    rw [(hmask hbody).trans (hrun _ (blankRun_hide quote _)), Option.map_some, sourceOf_append,
      sourceOf_append, sourceOf_cells, sourceOf_cells, sourceOf_flatMap_hide, textOf_pieces]
    simp [withString]

/-! ### Literals -/

theorem objectBody?_map (source name : List Char) (opening : Opening) :
    objectBody? source name opening =
      ((search (declared? name opening) none (mask source)).map sourceOf).bind fun rest =>
        (enclosed? '\x7b' rest).map Prod.fst := by
  rw [objectBody?_eq, Option.bind_map]
  rfl

theorem validatorArguments?_map (source : List Char) :
    validatorArguments? source =
      (((search (fun cells => (word? validatorName.toList cells).bind equals?) none
        (mask source)).bind toArguments?).map sourceOf).bind fun rest =>
          (enclosed? '(' rest).map Prod.fst := by
  rw [validatorArguments?_eq, Option.bind_map]
  rfl

theorem Held.congr {f f' : List Char → Option (List Char)} (h : Held quote f)
    (heq : ∀ body, StringBody quote body → f' body = f body) : Held quote f' :=
  h.imp (·.congr heq) fun ⟨front, back, hfront, hf⟩ =>
    ⟨front, back, hfront, fun body hbody => (heq body hbody).trans (hf body hbody)⟩

/-- The literal behind a brace that leads to the string: it holds the string or ends in front of
it. -/
theorem enclosed?_held {inner : List Char} (h : Reaches quote (some '\x7b') inner)
    (hq : isQuote quote = true) (back : List Char)
    (hbehind : enclosed? '\x7b' inner = none → BehindKey ((commaParts inner).getLastD [])) :
    Held quote fun body =>
      (enclosed? '\x7b' (withString quote inner body back)).map Prod.fst := by
  obtain ⟨inside, hclose⟩ | ⟨hnone, found, hclose⟩ := h.enclosed? hq back
  · exact .inl (.of_eq (some inside) hclose)
  · have hheld : Held quote fun body =>
        found.map fun more => withString quote inner body more := by
      cases found with
      | none => exact .inl (.of_eq none fun _ _ => rfl)
      | some more => exact .inr ⟨inner, more, ⟨h.congr rfl, hbehind hnone⟩, fun _ _ => rfl⟩
    exact hheld.congr hclose

/-- The names that identifiers give hold no blanks. -/
theorem isBlank_of_identifier? (cs : List Char) :
    ∀ name ∈ (identifier? cs).map Prod.fst, ∀ c ∈ name, isBlank c = false := by
  intro name hname c hc
  rw [identifier?_eq] at hname
  split at hname
  next h =>
    obtain rfl := Option.some.inj hname
    exact isBlank_of_isIdentChar (h.chars c hc)
  next => cases hname

/-- The literal that a word names; empty if it names none. -/
def namedBy (source : List Char) (word : Option (List Char)) : List Char :=
  (word.bind fun name => objectBody? source name .literal).getD []

theorem named_eq (source argument : List Char) :
    named source argument = namedBy source ((identifier? argument).map Prod.fst) := by
  rw [named, namedBy]
  cases identifier? argument <;> rfl

section
variable (h : Reaches quote none front) (hq : isQuote quote = true) {a back : List Char}
  (ha : StringBody quote a) (hkeys : BehindKeys quote front a back)
include h hq ha hkeys

/-- The literal that a declaration is given. -/
theorem objectBody?_held {name : List Char} (hname : ∀ c ∈ name, isBlank c = false)
    (opening : Opening) :
    Held quote fun body => objectBody? (withString quote front body back) name opening := by
  have hsteady := steady_search (steady_declared hname opening) (solid_declared name opening) none
  have hlands := lands_search (lands_declared name opening)
  obtain hrest | ⟨inner, hinner, hrest⟩ :=
    taken_withString hsteady hlands (by decide) rfl h hq back
  · exact .inl ((hrest.map fun rest => rest.bind fun rest =>
      (enclosed? '\x7b' rest).map Prod.fst).congr fun body _ => objectBody?_map _ name opening)
  · have hheld := enclosed?_held hinner hq back fun hnone => by
      obtain ⟨cells, hcells, htext⟩ := Option.map_eq_some_iff.mp (hrest a ha)
      exact hkeys inner (htext ▸ .declared hname hcells) hnone
    exact hheld.congr fun body hbody => by rw [objectBody?_map, hrest body hbody]; rfl

theorem namedBy_held {word : Option (List Char)}
    (hword : ∀ name ∈ word, ∀ c ∈ name, isBlank c = false) :
    Held quote fun body => some (namedBy (withString quote front body back) word) := by
  cases word with
  | none => exact .inl (.of_eq (some []) fun _ _ => rfl)
  | some name =>
    obtain hbody | ⟨inner, back', hinner, hbody⟩ :=
      objectBody?_held h hq ha hkeys (hword name rfl) .literal
    · exact .inl ((hbody.map fun literal => some (literal.getD [])).congr fun _ _ => rfl)
    · exact .inr ⟨inner, back', hinner, fun body hclosed =>
        congrArg (fun literal => some (literal.getD [])) (hbody body hclosed)⟩

/-- The literal that a fixed argument is or names. -/
theorem literalOf?_held (argument : List Char) :
    Held quote fun body => literalOf? (withString quote front body back) argument := by
  by_cases hbrace : argument.head? = some '\x7b'
  · exact .inl (.of_eq _ fun body _ => if_pos hbrace)
  · refine (namedBy_held h hq ha hkeys (isBlank_of_identifier? argument)).congr
      fun body _ => ?_
    rw [literalOf?, if_neg hbrace, named_eq]

/-- The literal that an argument with the string in it is or names. -/
theorem literalOf?_withString {argument : List Char} {seen : Option Char} (back' : List Char)
    (hargument : Reaches quote seen argument)
    (hbehind : ∀ inner, argument = '\x7b' :: inner → enclosed? '\x7b' inner = none →
      BehindKey ((commaParts inner).getLastD [])) :
    Held quote fun body => literalOf? (withString quote front body back)
      (withString quote argument body back') := by
  by_cases hbrace : argument.head? = some '\x7b'
  · obtain ⟨inner, rfl⟩ := List.head?_eq_some_iff.mp hbrace
    have hinner : Reaches quote (some '\x7b') inner := .inside .curly hargument
    exact (enclosed?_held hinner hq back' (hbehind inner rfl)).congr fun body _ => if_pos rfl
  · have hword (body : List Char) :
        (identifier? (withString quote argument body back')).map Prod.fst =
          (identifier? argument).map Prod.fst := by
      rw [(stops_identifier (ends_of_isQuote hq)).withString, Option.map_map]
      rfl
    have hhead (body : List Char) :
        (withString quote argument body back').head? ≠ some '\x7b' := by
      cases argument with
      | nil => exact fun heq => ne_of_isQuote hq rfl (Option.some.inj heq)
      | cons c argument => exact hbrace
    refine (namedBy_held h hq ha hkeys (isBlank_of_identifier? argument)).congr
      fun body _ => ?_
    rw [literalOf?, if_neg (hhead body), named_eq, hword]

/-- The literal of the validator's call, if the arguments of the call are the same whatever the
string says. -/
theorem validatorBody?_held_of_fixed (arguments : Option (List Char))
    (harguments : ∀ body, StringBody quote body →
      validatorArguments? (withString quote front body back) = arguments) :
    Held quote fun body => validatorBody? (withString quote front body back) := by
  have hheld : Held quote fun body => arguments.bind fun arguments =>
      literalOf? (withString quote front body back) (stripComments arguments) := by
    cases arguments with
    | none => exact .inl (.of_eq none fun _ _ => rfl)
    | some arguments => exact literalOf?_held h hq ha hkeys (stripComments arguments)
  exact hheld.congr fun body hbody => by rw [validatorBody?_eq, harguments body hbody]

/-- The literal that the validator's call is given. -/
theorem validatorBody?_held :
    Held quote fun body => validatorBody? (withString quote front body back) := by
  have hsearch : Steady
      (search (fun cells => (word? validatorName.toList cells).bind equals?) none) :=
    steady_search ((steady_word isBlank_of_mem_validatorName).bind steady_equals)
      (solid_word isBlank_of_mem_validatorName (by decide)).bind none
  have hlands := Lands.bind (blind_search ((blind_word validatorName.toList).bind blind_equals))
    lands_toArguments
  have hfixed := validatorBody?_held_of_fixed h hq ha hkeys
  obtain ⟨rest, hrest⟩ | ⟨inner, hinner, hrest⟩ :=
    taken_withString (hsearch.bind steady_toArguments) hlands (by decide) rfl h hq back
  · beta_reduce at hrest
    exact hfixed (rest.bind fun rest => (enclosed? '(' rest).map Prod.fst) fun body hbody => by
      rw [validatorArguments?_map, hrest body hbody]
  · have harguments {body : List Char} (hbody : StringBody quote body) :
        validatorArguments? (withString quote front body back) =
          (enclosed? '(' (withString quote inner body back)).map Prod.fst := by
      rw [validatorArguments?_map, hrest body hbody]
      rfl
    obtain ⟨inside, hclose⟩ | ⟨-, found, hclose⟩ := hinner.enclosed? hq back
    · exact hfixed (some inside) fun body hbody => (harguments hbody).trans (hclose body hbody)
    · cases found with
      | none => exact hfixed none fun body hbody => (harguments hbody).trans (hclose body hbody)
      | some more =>
        obtain ⟨⟨seen, hargument⟩, hstrip⟩ := hinner.strip hq
        have hbehind (literal : List Char) (hliteral : stripComments inner = '\x7b' :: literal)
            (hnone : enclosed? '\x7b' literal = none) :
            BehindKey ((commaParts literal).getLastD []) := by
          obtain ⟨cells, hcells, htext⟩ := Option.map_eq_some_iff.mp (hrest a ha)
          refine hkeys literal (.argument hcells ?_) hnone
          rw [htext, hstrip a ha, hliteral]
          rfl
        have hheld := literalOf?_withString h hq ha hkeys more hargument hbehind
        refine hheld.congr fun body hbody => ?_
        rw [validatorBody?_eq, harguments hbody, hclose body hbody]
        exact congrArg (literalOf? _) (hstrip body hbody more)

/-! ### Fields and facets -/

omit h ha hkeys in
theorem Held.gists {f : List Char → Option (List Char)} (hf : Held quote f) :
    Unread quote fun body => (f body).map fun literal => (entries literal).map Entry.gist := by
  obtain hf | ⟨front, back, hfront, hf⟩ := hf
  · exact hf.map fun found => found.map fun literal => (entries literal).map Entry.gist
  · have hentries := entries_unread hfront.reaches hq hfront.behind back
    exact (hentries.map some).congr fun body hbody => by rw [hf body hbody]; rfl

theorem schemaFields_unread {name : List Char} (hname : ∀ c ∈ name, isBlank c = false) :
    Unread quote fun body => schemaFields (withString quote front body back) name := by
  have hgists := (objectBody?_held h hq ha hkeys hname .schema).gists hq
  refine (hgists.map fun gists => (gists.getD []).map fun gist => gist.2.1).congr fun body _ => ?_
  rw [schemaFields]
  cases objectBody? (withString quote front body back) name .schema with
  | none => rfl
  | some literal =>
    simp only [Option.map_some, Option.getD_some, List.map_map]
    rfl

theorem facetFields_unread (value : List Char) :
    Unread quote fun body => facetFields (withString quote front body back) value := by
  cases hword : (identifier? value).map Prod.fst with
  | none => exact .of_eq [] fun body _ => by rw [facetFields_identifier, hword]
  | some name =>
    have hfields := schemaFields_unread h hq ha hkeys (isBlank_of_identifier? value name hword)
    refine (hfields.map fun fields => if name == ['z'] then [] else fields).congr fun body _ => ?_
    rw [facetFields_identifier, hword]

end

end

/-! ### Sources -/

/-- Entries of which the same is read have the same heads. -/
theorem map_head_of_gist {xs ys : List Entry} (h : ys.map Entry.gist = xs.map Entry.gist) :
    ys.map Entry.head = xs.map Entry.head := by
  have hheads := congrArg (List.map fun gist => (gist.1, gist.2.2)) h
  rwa [List.map_map, List.map_map] at hheads

/-! ### Braces -/

/-- The pieces behind each brace of code. -/
def behindBraces : List Piece → List (List Piece)
  | [] => []
  | .skipped _ :: ps => behindBraces ps
  | .code c :: ps => if c = '\x7b' then ps :: behindBraces ps else behindBraces ps

theorem mem_behindBraces (qs rs : List Piece) :
    rs ∈ behindBraces (qs ++ .code '\x7b' :: rs) := by
  induction qs with
  | nil => exact List.mem_cons_self ..
  | cons q qs ih =>
    cases q with
    | skipped text => exact ih
    | code c =>
      rw [List.cons_append, behindBraces]
      split
      next => exact List.mem_cons_of_mem _ ih
      next => exact ih

theorem exists_of_lands {take? : List Cell → Option (List Cell)} {c : Char} (h : Lands c take?)
    (hc : isBlank c = false) {source : List Char} {cells : List Cell}
    (hcells : take? (mask source) = some cells) :
    ∃ qs rs, pieces none source = qs ++ .code c :: rs ∧ sourceOf cells = textOf rs := by
  obtain ⟨front, cell, hmask, rfl⟩ := h _ _ hcells
  obtain ⟨qs, rs, hpieces, -, rfl⟩ := exists_code hmask hc
  exact ⟨qs, rs, hpieces, sourceOf_cells rs⟩

/-- Every brace that a literal is read behind is one of code. -/
theorem Brace.exists_pieces {source rest : List Char} (h : Brace source rest) :
    ∃ qs rs, pieces none source = qs ++ .code '\x7b' :: rs ∧ textOf rs = rest := by
  cases h with
  | @declared name opening cells _ hcells =>
    obtain ⟨qs, rs, hpieces, htext⟩ :=
      exists_of_lands (lands_search (lands_declared name opening)) (by decide) hcells
    exact ⟨qs, rs, hpieces, htext.symm⟩
  | @argument cells rest hcells hstrip =>
    have hsearch := blind_search ((blind_word validatorName.toList).bind blind_equals)
    obtain ⟨qs, rs, hpieces, htext⟩ :=
      exists_of_lands (.bind hsearch lands_toArguments) (by decide) hcells
    have hwalk : Walked none (qs ++ .code '(' :: rs) := hpieces ▸ walked_pieces none source
    have hinner := (walked_code.mp hwalk.back).2
    obtain ⟨gone, core, rfl, hcore⟩ := exists_stripped hinner
    have htextcore := hcore [] (by rwa [List.append_nil]) (by simp)
    rw [List.append_nil, List.append_nil] at htextcore
    rw [htext, htextcore] at hstrip
    cases core with
    | nil => cases hstrip
    | cons p core =>
      cases p with
      | skipped text =>
        obtain ⟨c, hc, body, rfl⟩ := (walked_skipped.mp hinner.back).1.exists_head
        obtain rfl : c = '\x7b' := (List.cons.inj hstrip).1
        exact absurd hc (by decide)
      | code c =>
        obtain ⟨rfl, hrest⟩ := List.cons.inj hstrip
        exact ⟨qs ++ .code '(' :: gone, core, by simp [hpieces], hrest⟩

/-- The string stands behind the keys if it does so behind each brace of code in front of it that is
still open. -/
theorem behindKeys_of_braces {quote : Char} {body : List Char} {front back : List Piece}
    (hpieces : pieces none (withString quote (textOf front) body (textOf back)) =
      front ++ .skipped (quote :: (body ++ [quote])) :: back)
    (hopen : ∀ inner ∈ behindBraces front, enclosed? '\x7b' (textOf inner) = none →
      BehindKey ((commaParts (textOf inner)).getLastD [])) :
    BehindKeys quote (textOf front) body (textOf back) := by
  intro inner hbrace hnone
  obtain ⟨qs, rs, hsplit, hrest⟩ := hbrace.exists_pieces
  rcases List.append_eq_append_iff.mp (hpieces.symm.trans hsplit) with
    ⟨more, -, hback⟩ | ⟨more, hfront, hrs⟩
  · -- A brace behind the string has less text behind it than the string has.
    obtain ⟨-, hcode⟩ | ⟨more, -, rfl⟩ := List.cons_eq_append_iff.mp hback
    · cases hcode
    · have hlength := congrArg List.length hrest
      simp only [withString, textOf_append, textOf_cons, List.length_append, Piece.text,
        List.length_cons] at hlength
      omega
  · obtain ⟨-, hcode⟩ | ⟨more, rfl, rfl⟩ := List.append_eq_cons_iff.mp hrs.symm
    · cases hcode
    · obtain rfl : textOf more = inner := by
        refine List.append_cancel_right (Eq.trans ?_ hrest)
        simp [Piece.text]
      exact hopen more (hfront ▸ mem_behindBraces qs more) hnone

/-- **What a string says does not change what is read**, if no slash in front of it is open, and it
stands behind the key of its entry in every object literal that it is in. It may say anything that
leaves it closed. -/
theorem contents_unread {source : String} {quote : Char} {front back : List Piece}
    {a b : List Char} (hq : isQuote quote = true) (ha : StringBody quote a)
    (hb : StringBody quote b)
    (hpieces : pieces none source.toList = front ++ .skipped (quote :: (a ++ [quote])) :: back)
    (hslash : Terminated none front)
    (hkeys : BehindKeys quote (textOf front) a (textOf back)) :
    (∀ method fileName,
      Descriptor.ofSource method fileName
          (String.ofList (withString quote (textOf front) b (textOf back))) =
        Descriptor.ofSource method fileName source) ∧
    ∀ name, (∀ c ∈ name, isBlank c = false) →
      schemaFields (withString quote (textOf front) b (textOf back)) name =
        schemaFields source.toList name := by
  have hwalk : Walked none (front ++ .skipped (quote :: (a ++ [quote])) :: back) :=
    hpieces ▸ walked_pieces none source.toList
  have hreaches := hslash.reaches hwalk
  have hsource : source.toList = withString quote (textOf front) a (textOf back) := by
    rw [← textOf_pieces none source.toList, hpieces]
    simp [Piece.text, withString]
  have hfields (value : List Char) :=
    (facetFields_unread hreaches hq ha hkeys value).eq ha hb
  refine ⟨fun method fileName => ?_, fun name hname => ?_⟩
  · have hgists := ((validatorBody?_held hreaches hq ha hkeys).gists hq).eq ha hb
    rw [Descriptor.ofSource, Descriptor.ofSource, String.toList_ofList, hsource]
    cases hself : validatorBody? (withString quote (textOf front) a (textOf back)) with
    | none =>
      rw [hself] at hgists
      rw [Option.map_eq_none_iff.mp hgists]
    | some literal =>
      rw [hself] at hgists
      obtain ⟨literal', hother, hgists⟩ := Option.map_eq_some_iff.mp hgists
      rw [hother]
      exact foldl_declare_congr (fun entry _ => hfields entry.value)
        (map_head_of_gist hgists) _
  · rw [hsource]
    exact (schemaFields_unread hreaches hq ha hkeys hname).eq ha hb

/-- A default value that says how a schema is declared. -/
theorem contents_unread_default :
    let front := pieces none "const b = z.object(\x7b t: z.string().default(".toList
    let back := pieces (some '"') ("), n: z.number() \x7d);\n" ++
      "export const requestValidator = f(\x7b body: b \x7d);").toList
    let source := String.ofList (withString '"' (textOf front) ['x'] (textOf back))
    let said := "\x7d) // const b = z.object(\x7b u: z.string().optional(), ".toList
    Descriptor.ofSource .post "route.post.config.ts"
        (String.ofList (withString '"' (textOf front) said (textOf back))) =
      Descriptor.ofSource .post "route.post.config.ts" source ∧
      schemaFields (withString '"' (textOf front) said (textOf back)) ['b'] =
        schemaFields source.toList ['b'] ∧
      schemaFields source.toList ['b'] = [⟨"t", .string, false⟩, ⟨"n", .number, false⟩] := by
  intro front back source said
  have hpieces : pieces none (withString '"' (textOf front) ['x'] (textOf back)) =
      front ++ .skipped ('"' :: (['x'] ++ ['"'])) :: back := by decide +kernel
  have hsource : pieces none source.toList =
      front ++ .skipped ('"' :: (['x'] ++ ['"'])) :: back := by rwa [String.toList_ofList]
  have hslash : Terminated none front := by decide +kernel
  have hopen : ∀ inner ∈ behindBraces front, enclosed? '\x7b' (textOf inner) = none →
      BehindKey ((commaParts (textOf inner)).getLastD []) := by decide +kernel
  have hsaid : StringBody '"' said := StringBody.of_plain (by decide) (by decide)
  obtain ⟨hparse, hfields⟩ := contents_unread (a := ['x']) rfl
    (StringBody.of_plain (by decide) (by decide)) hsaid hsource hslash
    (behindKeys_of_braces hpieces hopen)
  have hname : ∀ c ∈ ['b'], isBlank c = false :=
    List.forall_mem_singleton.mpr (isBlank_of_isIdentChar (by decide +kernel))
  refine ⟨hparse .post "route.post.config.ts", hfields ['b'] hname, ?_⟩
  rw [String.toList_ofList]
  decide +kernel

/-- Behind a quoted key with an escaped quote the reader takes the strings for code. So what the
string says in which the entry ends decides about the field. -/
theorem contents_change_fields :
    let front := pieces none "const s = z.object(\x7b \"a\\\":z.string(\": ".toList
    let back := pieces (some '"') " \x7d);".toList
    let saying (body : String) := withString '"' (textOf front) body.toList (textOf back)
    ∀ body ∈ ["x", ").optional()"], '"' ∉ body.toList ∧ '\\' ∉ body.toList ∧
      pieces none (saying body) = front ++ .skipped ('"' :: (body.toList ++ ['"'])) :: back ∧
      Terminated none front ∧
      (∀ inner ∈ behindBraces front,
        stripComments ((commaParts (textOf inner)).getLastD []) ≠ []) ∧
      schemaFields (saying body) ['s'] = [⟨"a\\", .string, body == ").optional()"⟩] := by
  decide +kernel

end RouteScaffold.Source
