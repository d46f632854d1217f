import RouteScaffold.Proofs.Source.Finding
import RouteScaffold.Proofs.Source.Members

/-! The fields of a rendered schema.

A schema is written down field by field: a key, a call of `z` for the type,
perhaps coerced, and calls chained behind it, with arguments of any tokens
(`SchemaField`). `schemaFields_declaration` says that reading the declaration
back gives one field for each, in order, whatever the arguments hold and
whatever lines stand around it. -/
namespace RouteScaffold.Source
open Text Route

/-! ### What is written -/

/-- A call chained behind an expression. -/
structure Call where
  name : List Char
  args : List Char

namespace Call

def text (c : Call) : List Char := '.' :: (c.name ++ '(' :: (c.args ++ [')']))

structure WellFormed (c : Call) : Prop where
  name : IsName c.name
  args : Tokens true (some '(') c.args

end Call

/-- What a type token goes on with. -/
def isTokenChar (c : Char) : Bool := isWordChar c || c == '$'

/-- A letter of ASCII, `_` or `$`, and then word characters or `$`. -/
structure IsTypeToken (token : List Char) : Prop where
  nonempty : token ≠ []
  start : ∀ c ∈ token.head?, (c.isAlpha || c == '_' || c == '$') = true
  rest : ∀ c ∈ token.tail, isTokenChar c = true

instance (token : List Char) : Decidable (IsTypeToken token) :=
  decidable_of_iff
    (token ≠ [] ∧ token.head?.all (fun c => c.isAlpha || c == '_' || c == '$') = true ∧
      token.tail.all isTokenChar = true) <| by
    simp only [List.all_eq_true, Option.all_eq_true]
    exact ⟨fun ⟨hne, hstart, hrest⟩ => ⟨hne, hstart, hrest⟩, fun h => ⟨h.nonempty, h.start, h.rest⟩⟩

/-- A field of a schema as it is written down. -/
structure SchemaField where
  /-- Blanks and comments in front of the key. -/
  gap : List Char := []
  key : Key
  /-- Blanks behind the colon. -/
  lead : List Char := [' ']
  coerced : Bool := false
  token : List Char
  args : List Char := []
  calls : List Call := []
  /-- Blanks behind the value. -/
  space : List Char := []

/-- What stands in front of a coerced type. -/
def coercion (coerced : Bool) : List Char := if coerced then "coerce.".toList else []

namespace SchemaField

/-- All that is chained behind `z`. -/
def chained (f : SchemaField) : List Char :=
  f.token ++ '(' :: (f.args ++ ')' :: f.calls.flatMap Call.text)

def expression (f : SchemaField) : List Char :=
  'z' :: '.' :: (coercion f.coerced ++ f.chained)

def item (f : SchemaField) : Item := ⟨f.gap, .property f.key (f.lead ++ f.expression), f.space⟩

/-- The field that is meant. -/
def field (f : SchemaField) : Field :=
  ⟨String.ofList f.key.name, .ofToken (String.ofList f.token),
    f.calls.any fun c => makesOptional c.name⟩

structure WellFormed (f : SchemaField) : Prop where
  gap : Gap f.gap
  key : f.key.WellFormed
  lead : Blank f.lead
  token : IsTypeToken f.token
  args : Tokens true (some '(') f.args
  calls : ∀ c ∈ f.calls, c.WellFormed
  space : Blank f.space

end SchemaField

/-- What a declaration has behind its name, up to the brace of its schema. -/
def schemaOpening : List Char := " = z.object(\x7b".toList

/-- The declaration of a schema up to its brace. -/
def schemaHead (name : List Char) : List Char := "const ".toList ++ (name ++ schemaOpening)

/-- The declaration of a schema. -/
def declaration (name : List Char) (fields : List SchemaField) (trailing : Option (List Char)) :
    List Char :=
  schemaHead name ++ (literal (fields.map SchemaField.item) trailing ++ "\x7d)".toList)

/-! ### Reading the type -/

theorem isBlank_of_isTokenChar {c : Char} (h : isTokenChar c = true) : isBlank c = false := by
  cases hb : isBlank c with
  | false => rfl
  | true =>
    have hdollar : c ≠ '$' := by
      rintro rfl
      exact absurd hb (by decide)
    simp [isTokenChar, isWordChar_of_isBlank hb, hdollar] at h

theorem isTokenChar_of_mem_signs : ∀ c ∈ signs, isTokenChar c = false :=
  List.all_iff_forall_prop.mp (by decide)

theorem isTokenChar_start {c : Char} (h : (c.isAlpha || c == '_' || c == '$') = true) :
    isTokenChar c = true := by
  simp only [Bool.or_eq_true, beq_iff_eq] at h
  rcases h with (h | rfl) | rfl
  · simp [isTokenChar, isWordChar, toNat_lt_of_isAlpha h, Char.isAlphanum, h]
  · decide
  · decide

theorem IsTypeToken.chars {token : List Char} (h : IsTypeToken token) :
    ∀ c ∈ token, isTokenChar c = true := by
  obtain ⟨c, rest, rfl⟩ := List.exists_cons_of_ne_nil h.nonempty
  exact List.forall_mem_cons.mpr ⟨isTokenChar_start (h.start c rfl), h.rest⟩

/-- A type token ends in front of anything that does not go on with it. -/
theorem typeToken?_token {token rest : List Char} (h : IsTypeToken token)
    (hrest : ∀ c ∈ rest.head?, isTokenChar c = false) :
    typeToken? (token ++ rest) = some (token, rest) := by
  have hchars := h.chars
  obtain ⟨c, tail, rfl⟩ := List.exists_cons_of_ne_nil h.nonempty
  have hstart := h.start c rfl
  have htail : ∀ d ∈ tail, isTokenChar d = true := h.rest
  have htake : (tail ++ rest).takeWhile isTokenChar = tail := by
    rw [List.takeWhile_append_of_pos htail]
    cases rest with
    | nil => simp
    | cons d rest => simp [hrest d rfl]
  have hdrop : (tail ++ rest).dropWhile isTokenChar = rest := by
    rw [List.dropWhile_append_of_pos htail]
    cases rest with
    | nil => rfl
    | cons d rest => simp [hrest d rfl]
  rw [typeToken?, List.cons_append, trimStart_solid
    (by simpa using isBlank_of_isTokenChar (hchars c (List.mem_cons_self ..)))]
  show (if (c.isAlpha || c == '_' || c == '$') = true then
    some (c :: (tail ++ rest).takeWhile isTokenChar, (tail ++ rest).dropWhile isTokenChar)
      else none) = _
  rw [if_pos hstart, htake, hdrop]

theorem nextChar?_solid {c d : Char} {rest : List Char} (hd : isBlank d = false) :
    nextChar? c (d :: rest) = if d == c then some rest else none := by
  rw [nextChar?, trimStart_solid (by simp [hd])]

/-- Where a type token starts with `coerce`, no dot follows that word, unless it is the token. -/
theorem nextChar?_coerce {token rest behind : List Char} (h : IsTypeToken token)
    (hrest : ∀ c ∈ rest.head?, isTokenChar c = false)
    (hne : token = "coerce".toList → nextChar? '.' rest = none)
    (heq : "coerce".toList ++ behind = token ++ rest) : nextChar? '.' behind = none := by
  rcases List.append_eq_append_iff.mp heq with ⟨more, rfl, rfl⟩ | ⟨more, hcoerce, rfl⟩
  · cases more with
    | nil => exact hne (List.append_nil _)
    | cons d more =>
      have hd : isTokenChar d = true := h.chars d (by simp)
      have hdot : d ≠ '.' := by
        rintro rfl
        rw [isTokenChar_of_mem_signs '.' (by decide)] at hd
        cases hd
      rw [List.cons_append, nextChar?_solid (isBlank_of_isTokenChar hd)]
      simp [hdot]
  · cases more with
    | nil => exact hne (by rw [hcoerce, List.append_nil])
    | cons d more =>
      have hcoerce' : ∀ c ∈ "coerce".toList, isTokenChar c = true :=
        List.all_eq_true.mp (by decide)
      have hd := hcoerce' d (by simp [hcoerce])
      rw [hrest d rfl] at hd
      cases hd

/-- A type token that starts with `coerce` is no coercion. -/
theorem coerced?_token {token rest : List Char} (h : IsTypeToken token)
    (hrest : ∀ c ∈ rest.head?, isTokenChar c = false)
    (hne : token = "coerce".toList → nextChar? '.' rest = none) :
    coerced? (token ++ rest) = none := by
  have hsolid : ∀ c ∈ (token ++ rest).head?, isBlank c = false := by
    have hchars := h.chars
    obtain ⟨c, tail, rfl⟩ := List.exists_cons_of_ne_nil h.nonempty
    simpa using isBlank_of_isTokenChar (hchars c (List.mem_cons_self ..))
  rw [coerced?, trimStart_solid hsolid]
  show (if "coerce".toList.isPrefixOf (token ++ rest) then
    nextChar? '.' ((token ++ rest).drop 6) else none) = none
  split
  next hprefix =>
    obtain ⟨behind, hbehind⟩ := List.isPrefixOf_iff_prefix.mp hprefix
    have hdrop : (token ++ rest).drop 6 = behind := by
      rw [← hbehind]
      rfl
    rw [hdrop]
    exact nextChar?_coerce h hrest hne hbehind
  next => rfl

theorem nextChar?_dot {space : List Char} (h : Blank space) (rest : List Char) :
    nextChar? '.' (space ++ '.' :: rest) = some rest := by
  rw [nextChar?, trimStart_blank h,
    trimStart_solid (by simpa using isBlank_of_mem_signs '.' (by decide))]
  rfl

/-- Behind `z` and its dot comes a coercion and its type, or else a type. -/
theorem baseType?_dot {space : List Char} (h : Blank space) (rest : List Char) :
    baseType? ('z' :: (space ++ '.' :: rest)) =
      ((coerced? rest).bind typeToken?).or (typeToken? rest) := by
  show ((nextChar? '.' (space ++ '.' :: rest)).bind fun rest =>
    (coerced? rest).bind typeToken? <|> typeToken? rest) = _
  rw [nextChar?_dot h, Option.bind_some, Option.orElse_apply, Option.orElse_eq_or]

/-- What opens the arguments of a call ends a token and is no dot. -/
theorem not_token_round (rest : List Char) :
    (∀ c ∈ ('(' :: rest).head?, isTokenChar c = false) ∧ nextChar? '.' ('(' :: rest) = none :=
  ⟨by simp [isTokenChar_of_mem_signs '(' (by decide)], nextChar?_solid (by decide)⟩

theorem baseType?_expression {f : SchemaField} (h : f.WellFormed) :
    baseType? f.expression =
      some (f.token, '(' :: (f.args ++ ')' :: f.calls.flatMap Call.text)) := by
  obtain ⟨hend, hround⟩ := not_token_round (f.args ++ ')' :: f.calls.flatMap Call.text)
  have htoken := typeToken?_token h.token hend
  have hcoerced := coerced?_token h.token hend fun _ => hround
  have hdot := @baseType?_dot [] (List.forall_mem_nil _)
  rw [SchemaField.expression]
  refine (hdot _).trans ?_
  cases f.coerced with
  | false =>
    show ((coerced? f.chained).bind typeToken?).or (typeToken? f.chained) = _
    rw [SchemaField.chained, hcoerced, Option.bind_none, Option.none_or, htoken]
  | true =>
    show (typeToken? f.chained).or _ = _
    rw [SchemaField.chained, htoken, Option.some_or]

/-! ### Reading the calls behind it -/

theorem chain_call {c : Call} (h : c.WellFormed) (rest : List Char) :
    chain (c.text ++ rest) = c.name :: chain rest := by
  have hround := isBlank_of_mem_signs '(' (by decide)
  have hstrip : stripComments (c.text ++ rest) =
      '.' :: (c.name ++ '(' :: (c.args ++ ')' :: rest)) := by
    have hdot : isBlank '.' = false := by decide
    simpa [Call.text] using
      stripComments_of_head hdot (by decide) (c.name ++ '(' :: (c.args ++ ')' :: rest))
  have hname : identifier? (trimStart (c.name ++ '(' :: (c.args ++ ')' :: rest))) =
      some (c.name, '(' :: (c.args ++ ')' :: rest)) := by
    rw [trimStart_solid (h.name.isBlank_head _)]
    exact identifier?_name h.name (by simp [isIdentChar_of_mem_signs '(' (by decide)])
  have hpar : trimStart ('(' :: (c.args ++ ')' :: rest)) = '(' :: (c.args ++ ')' :: rest) :=
    trimStart_solid (by simp [hround])
  have hclose : enclosed? '(' (c.args ++ ')' :: rest) = some (c.args, rest) :=
    enclosed?_tokens .round h.args rest
  rw [chain]
  split
  next behind hdot =>
    obtain rfl := (List.cons.inj (hstrip.symm.trans hdot)).2
    split
    next hnone => rw [hname] at hnone; cases hnone
    next name behind hsome =>
      obtain ⟨rfl, rfl⟩ := Prod.mk.inj (Option.some.inj (hname.symm.trans hsome))
      split
      next args hargs =>
        obtain rfl := (List.cons.inj (hpar.symm.trans hargs)).2
        split
        next hnone => rw [hclose] at hnone; cases hnone
        next hsome =>
          obtain ⟨-, rfl⟩ := Prod.mk.inj (Option.some.inj (hclose.symm.trans hsome))
          rfl
      next hne => exact absurd hpar (hne _)
  next hne => exact absurd hstrip (hne _)

theorem chain_nil : chain [] = [] := by
  rw [chain]
  split
  next hdot => rw [stripComments_nil] at hdot; cases hdot
  next => rfl

theorem chain_calls {calls : List Call} (h : ∀ c ∈ calls, c.WellFormed) :
    chain (calls.flatMap Call.text) = calls.map Call.name := by
  induction calls with
  | nil => exact chain_nil
  | cons c calls ih =>
    rw [List.flatMap_cons, chain_call (h c (List.mem_cons_self ..)),
      ih fun d hd => h d (List.mem_cons_of_mem c hd), List.map_cons]

/-! ### Reading a field -/

theorem Call.tokens {calls : List Call} (h : ∀ c ∈ calls, c.WellFormed) (before : Option Char) :
    Tokens false before (calls.flatMap Call.text) := by
  induction calls generalizing before with
  | nil => exact .nil
  | cons c calls ih =>
    have hc := h c (List.mem_cons_self ..)
    have hrest (before : Option Char) := ih (fun d hd => h d (List.mem_cons_of_mem c hd)) before
    have htokens : Tokens false before ('.' :: (c.name ++ Bracket.round.opening ::
        (c.args ++ Bracket.round.closing :: calls.flatMap Call.text))) :=
      .plain (by decide) (by decide) (.name hc.name.chars (.group .round hc.args (hrest _)))
    simpa [Call.text, Bracket.opening, Bracket.closing] using htokens

theorem SchemaField.tokens {f : SchemaField} (h : f.WellFormed) (before : Option Char) :
    Tokens false before (f.lead ++ f.expression) := by
  have hchars : PlainWord f.token := fun c hc => isPlainWord_of_not_mem fun hm => by
    have := h.token.chars c hc
    rw [isTokenChar_of_mem_signs c hm] at this
    cases this
  have hchained (before : Option Char) : Tokens false before f.chained :=
    .word f.token hchars (.group .round h.args (Call.tokens h.calls _))
  refine .word f.lead (plainWord_of_blank h.lead) ?_
  refine .word ['z', '.'] (by decide) (.word _ ?_ (hchained _))
  cases f.coerced <;> decide

theorem SchemaField.item_wellFormed {f : SchemaField} (h : f.WellFormed) : f.item.WellFormed :=
  ⟨h.gap, .property h.key (SchemaField.tokens h _), h.space⟩

theorem SchemaField.exists_expression (f : SchemaField) :
    ∃ front, f.expression = front ++ [')'] := by
  suffices h : ∃ front, f.chained = front ++ [')'] by
    obtain ⟨front, hfront⟩ := h
    exact ⟨'z' :: '.' :: (coercion f.coerced ++ front), by simp [SchemaField.expression, hfront]⟩
  rw [SchemaField.chained]
  rcases List.eq_nil_or_concat f.calls with heq | ⟨calls, c, heq⟩
  · exact ⟨f.token ++ '(' :: f.args, by simp [heq]⟩
  · exact ⟨f.token ++ '(' :: (f.args ++ ')' :: (calls.flatMap Call.text ++ '.' :: (c.name ++ '(' ::
      c.args))), by simp [heq, Call.text]⟩

/-- An expression is blank at neither end. -/
theorem SchemaField.trim_expression {f : SchemaField} (h : f.WellFormed) :
    trim (f.lead ++ f.expression) = f.expression := by
  have hz : isBlank 'z' = false := by decide
  obtain ⟨front, hfront⟩ := f.exists_expression
  rw [trim, trimStart_blank h.lead, trimStart_solid (by simp [SchemaField.expression, hz]), hfront]
  exact trimEnd_solid front (isBlank_of_mem_signs ')' (by decide)) []

theorem SchemaField.field_of_entry {f : SchemaField} (h : f.WellFormed) :
    Entry.field ⟨f.key.name, f.expression⟩ = f.field := by
  have hclose : enclosed? '(' (f.args ++ ')' :: f.calls.flatMap Call.text) =
      some (f.args, f.calls.flatMap Call.text) := enclosed?_tokens .round h.args _
  have hround : trimStart ('(' :: (f.args ++ ')' :: f.calls.flatMap Call.text)) =
      '(' :: (f.args ++ ')' :: f.calls.flatMap Call.text) :=
    trimStart_solid (by simp [isBlank_of_mem_signs '(' (by decide)])
  rw [Entry.field]
  simp only [baseType?_expression h, hround, hclose, chain_calls h.calls, List.any_map]
  rfl

/-! ### Reading a declaration -/

theorem schemaHead_eq (name : List Char) :
    schemaHead name = "const ".toList ++ (name ++ schemaOpening) := rfl

theorem schemaHead_append (name rest : List Char) :
    schemaHead name ++ rest = "const ".toList ++ (name ++ (schemaOpening ++ rest)) := by
  simp only [schemaHead_eq, List.append_assoc]

theorem declared?_schema (name : List Char) (cells : List Cell) :
    declared? name .schema (codeCells (schemaHead name) ++ cells) = some cells := by
  have htake : (equals? (codeCells schemaOpening ++ cells)).bind Opening.schema.take? =
      some cells := rfl
  have hnamed : named? name .schema
      (codeCells [' '] ++ (codeCells name ++ (codeCells schemaOpening ++ cells))) = some cells := by
    show (((word? name (codeCells name ++ (codeCells schemaOpening ++ cells))).bind equals?).bind
      Opening.schema.take? <|> _) = some cells
    rw [word?_codeCells, Option.bind_some, htake]
    rfl
  have hconst : word? "const".toList (codeCells (schemaHead name) ++ cells) =
      some (codeCells [' '] ++ (codeCells name ++ (codeCells schemaOpening ++ cells))) := by
    simp only [schemaHead_eq, codeCells_append, List.append_assoc]
    rfl
  rw [declared?, keywords, List.findSome?_cons, hconst, Option.bind_some, hnamed]

theorem code_schemaHead {name : List Char} (h : IsName name) :
    IsCode (schemaHead name) := by
  have hconst : IsCode "const ".toList := by decide
  have hopening : IsCode schemaOpening := by decide
  have hname : IsCode name := fun c hc =>
    code_of_isPlainWord (isPlainWord_of_isIdentChar (h.chars c hc))
  exact List.forall_mem_append.mpr ⟨hconst, List.forall_mem_append.mpr ⟨hname, hopening⟩⟩

theorem lastSolid_schemaHead (before : Option Char) (name : List Char) :
    lastSolid before (schemaHead name) = some '\x7b' := by
  have hsplit : schemaHead name =
      "const ".toList ++ (name ++ " = z.object(".toList) ++ ['\x7b'] := by
    simp only [schemaHead_eq, List.append_assoc]
    rfl
  rw [hsplit]
  exact lastSolid_concat before _ (by decide)

theorem IsName.startsSolid {name : List Char} (h : IsName name) (rest : List Char) :
    StartsSolid (name ++ rest) := fun c hc =>
  ⟨h.isBlank_head rest c hc, h.head_ne (isIdentChar_of_mem_signs ':' (by decide)) rest c hc,
    h.head_ne (isIdentChar_of_mem_signs '=' (by decide)) rest c hc⟩

/-- The search finds a schema behind lines that do not declare its name. -/
theorem search_schemaHead {before name : List Char} (hbefore : Lines before)
    (hdecl : ¬ Declares name before) (hname : IsName name) (rest : List Char) :
    ∃ cells, search (declared? name .schema) none (mask (before ++ (schemaHead name ++ rest))) =
      some cells ∧ sourceOf cells = rest := by
  have hsolid : ∀ c ∈ name, isBlank c = false := fun c hc =>
    isBlank_of_isIdentChar (hname.chars c hc)
  refine ⟨(pieces (some '\x7b') rest).flatMap Piece.cells, ?_, ?_⟩
  · rw [mask_lines hbefore, cells_code (code_schemaHead hname), lastSolid_schemaHead]
    refine search_behind (P := BeginsDeclaration name) (fun _ _ => beginsDeclaration_of_declared?)
      (fun text hends h => ?_) (ended_codeOf hbefore.ended) hdecl rfl (declared?_schema name _)
    rw [shown_append, shown_codeCells, schemaHead_append] at h
    refine beginsDeclaration_of_append hsolid hends ?_ ?_ h
    · intro c hc
      obtain rfl : 'c' = c := Option.some.inj hc
      decide
    · exact not_binds_const hsolid (hname.startsSolid _)
  · rw [sourceOf_cells, textOf_pieces]

/-- Behind lines that do not declare its name, the body of a schema is found as it stands. -/
theorem objectBody?_schemaHead {before name body : List Char} (hbefore : Lines before)
    (hdecl : ¬ Declares name before) (hname : IsName name) (hbody : Tokens true (some '\x7b') body)
    (after : List Char) :
    objectBody? (before ++ (schemaHead name ++ (body ++ '\x7d' :: after))) name .schema =
      some body := by
  obtain ⟨cells, hsearch, hsource⟩ :=
    search_schemaHead hbefore hdecl hname (body ++ '\x7d' :: after)
  have hclose : enclosed? '\x7b' (body ++ '\x7d' :: after) = some (body, after) :=
    enclosed?_tokens .curly hbody after
  rw [objectBody?, hsearch]
  show (enclosed? '\x7b' (sourceOf cells)).bind _ = some body
  rw [hsource, hclose]
  rfl

/-- Behind lines that do not declare its name, a schema has the fields that its members declare. -/
theorem schemaFields_items {before name : List Char} {items : List Item}
    {trailing : Option (List Char)} (hbefore : Lines before) (hdecl : ¬ Declares name before)
    (hname : IsName name) (hitems : ∀ i ∈ items, i.WellFormed)
    (htrailing : ∀ gap ∈ trailing, Gap gap) (after : List Char) :
    schemaFields (before ++ (schemaHead name ++ (literal items trailing ++ '\x7d' :: after))) name =
      (declared items).map Entry.field := by
  have hbody := objectBody?_schemaHead hbefore hdecl hname
    (Tokens.intercalate (literal_tokens hitems htrailing) _) after
  rw [schemaFields, literal, hbody]
  show (entries (literal items trailing)).map Entry.field = _
  rw [entries_literal hitems htrailing]

/-- **Reading a schema back gives its fields**: one for each, in order, with its key, its type and
whether one of its own calls makes it optional. The lines in front must not declare the name
themselves; what stands behind does not matter. -/
theorem schemaFields_declaration {before name : List Char} {fields : List SchemaField}
    {trailing : Option (List Char)} (hbefore : Lines before) (hdecl : ¬ Declares name before)
    (hname : IsName name) (hfields : ∀ f ∈ fields, f.WellFormed)
    (htrailing : ∀ gap ∈ trailing, Gap gap) (after : List Char) :
    schemaFields (before ++ (declaration name fields trailing ++ after)) name =
      fields.map SchemaField.field := by
  have hitems : ∀ i ∈ fields.map SchemaField.item, i.WellFormed := by
    intro i hi
    obtain ⟨f, hf, rfl⟩ := List.mem_map.mp hi
    exact SchemaField.item_wellFormed (hfields f hf)
  have hsource : before ++ (declaration name fields trailing ++ after) =
      before ++ (schemaHead name ++
        (literal (fields.map SchemaField.item) trailing ++ '\x7d' :: ')' :: after)) := by
    rw [declaration, List.append_assoc, List.append_assoc]
    rfl
  have hentries : declared (fields.map SchemaField.item) =
      fields.map fun f => ⟨f.key.name, f.expression⟩ := by
    rw [declared, List.filterMap_map, ← List.filterMap_eq_map]
    refine List.filterMap_congr fun f hf => ?_
    show some (Entry.mk f.key.name (trim (f.lead ++ f.expression))) = some _
    rw [SchemaField.trim_expression (hfields f hf)]
  rw [hsource, schemaFields_items hbefore hdecl hname hitems htrailing, hentries, List.map_map]
  exact List.map_congr_left fun f hf => SchemaField.field_of_entry (hfields f hf)

/-- The comment in front declares nothing, a call inside another makes nothing optional, and no
comma or brace in a string counts. -/
theorem schemaFields_tags_age :
    schemaFields ("// const Q = z.object(\x7b\x7d)\nconst Q = z.object(\x7b" ++
        "'a,b': z.array(z.string('\x7d').optional()).min(1), age: z.coerce.number().nullish(),\x7d)"
        ).toList ['Q'] =
      [⟨"a,b", .other "array", false⟩, ⟨"age", .number, true⟩] := by
  let tags : SchemaField :=
    { key := .quoted '\x27' "a,b".toList, token := "array".toList,
      args := "z.string('\x7d').optional()".toList, calls := [⟨"min".toList, ['1']⟩] }
  let age : SchemaField :=
    { gap := [' '], key := .bare "age".toList, coerced := true, token := "number".toList,
      calls := [⟨"nullish".toList, []⟩] }
  have hspace : isBlank ' ' = true := by decide
  have hstring : Tokens true (some '(') "'\x7d'".toList :=
    @Tokens.string true (some '(') '\x27' ['\x7d'] [] rfl (.plain (by decide) (by decide) .nil) .nil
  have hargs : Tokens true (some '(') tags.args :=
    .word "z.string".toList (by decide +kernel) (.group .round hstring
      (.word ".optional".toList (by decide +kernel) (.group .round .nil .nil)))
  have hage : IsName "age".toList := by decide +kernel
  have hcalls : IsName "min".toList ∧ IsName "nullish".toList := by decide +kernel
  have htokens : IsTypeToken "array".toList ∧ IsTypeToken "number".toList := by decide +kernel
  have htags : tags.WellFormed :=
    ⟨.nil, ⟨.inr rfl, by decide +kernel, by decide +kernel⟩, List.forall_mem_singleton.mpr hspace,
      htokens.1, hargs,
      List.forall_mem_singleton.mpr ⟨hcalls.1, .plain (by decide) (by decide) .nil⟩,
      List.forall_mem_nil _⟩
  have hage : age.WellFormed :=
    ⟨.blank hspace .nil, hage, List.forall_mem_singleton.mpr hspace, htokens.2, .nil,
      List.forall_mem_singleton.mpr ⟨hcalls.2, .nil⟩, List.forall_mem_nil _⟩
  have hbefore : Gap "// const Q = z.object(\x7b\x7d)\n".toList :=
    .comment (.line " const Q = z.object(\x7b\x7d)".toList (by decide +kernel)) .nil
  have hlines := hbefore.lines ((Option.all_eq_true _ _).mp (by decide +kernel))
  have h := @schemaFields_declaration _ ['Q'] [tags, age] (some []) hlines
    (not_declares_gap hbefore _) (by decide) (by simp [htags, hage]) (by simp [Gap.nil]) []
  have hsource : ("// const Q = z.object(\x7b\x7d)\nconst Q = z.object(\x7b" ++
      "'a,b': z.array(z.string('\x7d').optional()).min(1), age: z.coerce.number().nullish(),\x7d)"
      ).toList = "// const Q = z.object(\x7b\x7d)\n".toList ++
        (declaration ['Q'] [tags, age] (some []) ++ []) := by decide +kernel
  rw [hsource]
  exact h

end RouteScaffold.Source
