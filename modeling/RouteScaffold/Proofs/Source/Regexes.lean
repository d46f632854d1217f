import RouteScaffold.Proofs.Source.Filled
import RouteScaffold.Proofs.Source.Located

/-! Regular expressions in a schema.

Behind a sign that opens an operand a slash opens a regular expression, and what is read from
a schema does not depend on what it says: it is read like the name `r` in its place
(`schemaFields_regex`). The signs are those of a fixed list, on which some operators are
missing: behind those a regular expression is taken for code (`operators_change_fields`). -/
namespace RouteScaffold.Source
open Text Route

/-- A regular expression between its slashes, and its flags. -/
def regexText (body flags : List Char) : List Char := '/' :: (body ++ '/' :: flags)

/-- The regular expression, or the name `r`. -/
inductive RegexOrName (body flags : List Char) : Piece → Prop where
  | regex : RegexOrName body flags (.skipped (regexText body flags))
  | name : RegexOrName body flags (.code 'r')

section
variable {body flags : List Char} {before : Option Char}

/-! ### A name in its place -/

theorem IsRegex.not_comment (h : IsRegex body flags) :
    isComment (regexText body flags) = false := by
  refine isComment_slash fun c hc => ?_
  obtain ⟨d, rest, rfl⟩ := List.exists_cons_of_ne_nil h.nonempty
  obtain rfl : d = c := Option.some.inj hc
  refine ⟨?_, fun heq => h.no_comment (by simp [heq])⟩
  rintro rfl
  cases h.inside with
  | plain hd _ => exact hd (by simp)

theorem takeRegex_flags {flags : List Char} (h : ∀ c ∈ flags, c.isAlpha = true) (inClass : Bool)
    (rest : List Char) :
    takeRegex inClass (flags ++ rest) = (takeRegex inClass rest).map (Cut.prepend flags) := by
  induction flags with
  | nil =>
    have hprepend : Cut.prepend [] = id := rfl
    rw [hprepend, Option.map_id]
    rfl
  | cons c flags ih =>
    obtain ⟨hc, hflags⟩ := List.forall_mem_cons.mp h
    have hsigns : ∀ d ∈ ['\\', '\n', '/', '[', ']'], d.isAlpha = false :=
      List.all_iff_forall_prop.mp (by decide)
    have hne {d : Char} (hd : d ∈ ['\\', '\n', '/', '[', ']']) : c ≠ d := fun heq => by
      rw [heq, hsigns d hd] at hc
      cases hc
    have hclass : classAfter inClass c = inClass := by
      simp [classAfter, hne (by simp : '[' ∈ _), hne (by simp : ']' ∈ _)]
    rw [List.cons_append, takeRegex_plain (hne (by simp)), hclass, ih hflags, Option.map_map]
    simp only [hne (by simp : '\n' ∈ _), hne (by simp : '/' ∈ _), beq_eq_false_iff_ne.mpr,
      if_false, ne_eq, not_false_iff, Bool.false_and, Bool.false_eq_true]
    rfl

variable {back : List Char}

/-- From within a character class the inside of a regular expression leads to its end, if it leads
out of the class it is closed. -/
theorem takeRegex_inClass {inClass : Bool} (h : RegexBody inClass body) (hin : inClass = false)
    (hflags : ∀ c ∈ flags, c.isAlpha = true) (hback : ∀ c ∈ back.head?, c.isAlpha = false)
    (hnone : takeRegex true (body ++ '/' :: (flags ++ back)) = none) :
    takeRegex true back = none := by
  induction h with
  | nil =>
    simpa [takeRegex, classAfter, takeRegex_flags hflags] using hnone
  | escaped _ ih =>
    rw [List.cons_append, List.cons_append, takeRegex, Option.map_eq_none_iff] at hnone
    exact ih hin hnone
  | opened hbody _ =>
    have hclosed := takeRegex_body hbody hflags hback
    simp [takeRegex, classAfter, hclosed] at hnone
  | closed hbody _ =>
    have hclosed := takeRegex_body hbody hflags hback
    simp [takeRegex, classAfter, hclosed] at hnone
  | slash _ _ => cases hin
  | @plain inClass c rest hc _ ih =>
    simp only [List.mem_cons, List.not_mem_nil, or_false, not_or] at hc
    obtain ⟨hb, ho, hcl, hs, hn⟩ := hc
    rw [List.cons_append, takeRegex_plain hb] at hnone
    exact ih hin (by simpa [hn, hs, classAfter, ho, hcl] using hnone)

/-- A slash in front that is no regular expression is none with the name either. -/
theorem takeRegex_name {inClass : Bool} (h : IsRegex body flags)
    (hback : ∀ c ∈ back.head?, c.isAlpha = false) {front : List Char}
    (hfront : front.getLast? ≠ some '\\')
    (hnone : takeRegex inClass (front ++ (regexText body flags ++ back)) = none) :
    takeRegex inClass (front ++ 'r' :: back) = none := by
  have htext : regexText body flags ++ back = '/' :: (body ++ '/' :: (flags ++ back)) :=
    (regex_append ..).symm
  rw [htext] at hnone
  fun_induction takeRegex inClass front with
  | case1 inClass =>
    cases inClass with
    | false => simp [takeRegex] at hnone
    | true =>
      have hinside : takeRegex true (body ++ '/' :: (flags ++ back)) = none := by
        simpa [takeRegex, classAfter] using hnone
      have hrest := takeRegex_inClass h.inside rfl h.letters hback hinside
      simp [takeRegex, classAfter, hrest]
  | case2 => exact absurd rfl hfront
  | case3 inClass c cs ih =>
    rw [List.cons_append, List.cons_append, takeRegex, Option.map_eq_none_iff] at hnone ⊢
    refine ih (fun hlast => hfront ?_) hnone
    simp [List.getLast?_cons, hlast]
  | case4 inClass c cs hnil hone hn =>
    have hb : c ≠ '\\' := ne_backslash hnil hone
    rw [List.cons_append, takeRegex_plain hb, if_pos hn]
  | case5 inClass c cs hnil hone hn hs =>
    have hb : c ≠ '\\' := ne_backslash hnil hone
    rw [List.cons_append, takeRegex_plain hb, if_neg hn, if_pos hs] at hnone
    cases hnone
  | case6 inClass c cs hnil hone hn hs ih =>
    have hb : c ≠ '\\' := ne_backslash hnil hone
    rw [List.cons_append, takeRegex_plain hb, if_neg hn, if_neg hs, Option.map_eq_none_iff]
      at hnone ⊢
    refine ih (fun hlast => hfront ?_) hnone
    simp [List.getLast?_cons, hlast]

/-- The text with the name starts as the one with the regular expression, unless the name leads. -/
theorem head?_textOf_name (front behind : List Piece) {c : Char}
    (hc : c ∈ (textOf (front ++ .code 'r' :: behind)).head?) :
    (textOf (front ++ .skipped (regexText body flags) :: behind)).head? = some c ∨
      textOf front = [] ∧ c = 'r' := by
  rw [textOf_append] at hc ⊢
  cases htext : textOf front with
  | nil => exact .inr ⟨rfl, by simpa [htext, Piece.text, eq_comm] using hc⟩
  | cons d text => exact .inl (by simpa [htext] using hc)

/-- A slash that is code in front of a regular expression is code in front of the name. -/
theorem skip?_slash_name (h : IsRegex body flags) {front behind : List Piece}
    (hback : ∀ c ∈ (textOf behind).head?, c.isAlpha = false) {solid : Option Char}
    (hopens : opensRegex (lastSolid solid (textOf front)) = true)
    (hnone : skip? before ('/' :: textOf (front ++ .skipped (regexText body flags) :: behind)) =
      none) :
    skip? before ('/' :: textOf (front ++ .code 'r' :: behind)) = none := by
  have hold := head_of_skip?_none hnone
  have hnew : ∀ d ∈ (textOf (front ++ .code 'r' :: behind)).head?, d ≠ '/' ∧ d ≠ '*' :=
    fun d hd => (head?_textOf_name front behind hd).elim (hold d) fun hlast => hlast.2 ▸ by decide
  have hfront : (textOf front).getLast? ≠ some '\\' := fun hlast => by
    obtain ⟨text, htext⟩ := List.getLast?_eq_some_iff.mp hlast
    rw [htext, lastSolid_concat _ _ (by decide)] at hopens
    cases hopens
  rw [skip?_slash, Option.map_eq_none_iff, takeAfterSlash_regex hold] at hnone
  rw [skip?_slash, Option.map_eq_none_iff, takeAfterSlash_regex hnew]
  split at hnone
  next hb =>
    rw [if_pos hb]
    rw [textOf_append, textOf_cons] at hnone ⊢
    exact takeRegex_name h hback hfront hnone
  next hb => rw [if_neg hb]

/-- Where the walk passes over a regular expression, it comes to a name in its place as well, and
goes on behind it alike. -/
theorem Walked.name (h : IsRegex body flags) {front behind : List Piece}
    (hback : ∀ c ∈ (textOf behind).head?, c.isAlpha = false)
    (hwalk : Walked before (front ++ .skipped (regexText body flags) :: behind)) :
    Walked before (front ++ .code 'r' :: behind) := by
  have hopens : opensRegex (lastSolid before (textOf front)) = true :=
    (walked_skipped.mp hwalk.back).1.opens h.not_comment rfl
  induction front generalizing before with
  | nil =>
    have hrest := (walked_skipped.mp hwalk).2
    rw [regexText, lastSolid_regex] at hrest
    exact walked_code.mpr ⟨skip?_plain (by decide) (by decide) before _,
      hrest.congr (opensRegex_flags h.letters)⟩
  | cons p front ih =>
    rw [textOf_cons, lastSolid_append] at hopens
    rw [List.cons_append] at hwalk ⊢
    cases p with
    | skipped text =>
      obtain ⟨hstretch, hrest⟩ := walked_skipped.mp hwalk
      refine walked_skipped.mpr ⟨?_, ih hrest hopens⟩
      refine hstretch.rest (fun hnil => by simp [Piece.text, regexText] at hnil)
        (fun c hc => (head?_textOf_name front behind hc).imp_right fun hlast => ?_) hstretch.opens
      have hnil := hlast.1
      have hslash : (textOf (front ++ .skipped (regexText body flags) :: behind)).head? =
          some '/' := by simp [hnil, Piece.text, regexText]
      rw [hnil] at hopens
      exact absurd (hopens.symm.trans (hstretch.not_opens hslash before)) (by decide)
    | code c =>
      obtain ⟨hskip, hrest⟩ := walked_code.mp hwalk
      refine walked_code.mpr ⟨?_, ih hrest hopens⟩
      by_cases hc : c = '/'
      · subst hc
        exact skip?_slash_name h hback hopens hskip
      · exact skip?_plain (isQuote_of_skip?_none hskip) hc before _

theorem RegexOrName.operand (h : IsRegex body flags) {p : Piece} (hp : RegexOrName body flags p) :
    Operand p := by
  have hslash : isBlank '/' = false := by decide
  cases hp with
  | regex =>
    refine ⟨h.not_comment, nofun, ⟨'/', body ++ '/' :: flags, rfl, hslash, by decide⟩, ?_⟩
    rcases List.eq_nil_or_concat flags with rfl | ⟨front, flag, rfl⟩
    · exact ⟨'/' :: body, '/', rfl, hslash⟩
    · have hflag : flag.isAlpha = true := h.letters flag (by simp)
      refine ⟨'/' :: (body ++ '/' :: front), flag, by simp [regexText, Piece.text], ?_⟩
      cases hb : isBlank flag with
      | false => rfl
      | true => rw [isAlpha_of_isBlank hb] at hflag; cases hflag
  | name =>
    have hident : isIdentChar 'r' = true := by decide
    have hblank : isBlank 'r' = false := isBlank_of_isIdentChar hident
    refine ⟨hblank, fun c hc => ?_, ⟨'r', [], rfl, hblank, by decide⟩, ⟨[], 'r', rfl, hblank⟩⟩
    rw [← Piece.code.inj hc]
    exact isPlainWord_of_isIdentChar hident

/-- Where the walk comes to a regular expression behind a sign that opens an operand, there is a
slot for it and for a name. -/
theorem slot_regex (h : IsRegex body flags) {front : List Char}
    (hback : ∀ c ∈ back.head?, c.isAlpha = false)
    (hopens : opensRegex (lastSolid before front) = true)
    (hwalk : pieces before (front ++ (regexText body flags ++ back)) =
      pieces before front ++ pieces (lastSolid before front) (regexText body flags ++ back)) :
    Slot (RegexOrName body flags) before front back := by
  have hpiece : pieces (lastSolid before front) (regexText body flags ++ back) =
      .skipped (regexText body flags) :: pieces operandEnd back := by
    have hskip := skip?_regex hopens h hback
    rw [regex_append] at hskip
    have hend : opensRegex (lastSolid (lastSolid before front) (regexText body flags)) =
        opensRegex operandEnd := by
      rw [regexText, lastSolid_regex]
      exact opensRegex_flags h.letters
    rw [regexText, pieces_skip hskip, ← regexText, pieces_congr hend]
  have hwalked := walked_pieces before (front ++ (regexText body flags ++ back))
  rw [hwalk, hpiece] at hwalked
  refine ⟨fun p hp => hp.operand h, fun p hp more hmore => ?_, .inr hopens⟩
  have hregex : Walked before
      (pieces before front ++ .skipped (regexText body flags) :: pieces operandEnd more) := by
    have hsplit (behind : List Piece) :
        pieces before front ++ .skipped (regexText body flags) :: behind =
          (pieces before front ++ [.skipped (regexText body flags)]) ++ behind := by simp
    have hend : opensRegex (lastSolid before (textOf (pieces before front ++
        [.skipped (regexText body flags)]))) = opensRegex operandEnd := by
      rw [textOf_append, textOf_cons, textOf_nil, List.append_nil, Piece.text, lastSolid_append,
        regexText, lastSolid_regex]
      exact opensRegex_flags h.letters
    rw [hsplit] at hwalked ⊢
    rw [← pieces_congr hend]
    exact hwalked.shorten (by rwa [textOf_pieces])
  have hmoreback : ∀ c ∈ (textOf (pieces operandEnd more)).head?, c.isAlpha = false := by
    rw [textOf_pieces]
    obtain ⟨gone, rfl⟩ := hmore
    exact fun c hc => hback c (by rw [List.head?_append, Option.mem_def.mp hc]; rfl)
  cases hp with
  | regex => simpa [Walked, textOf_pieces] using hregex
  | name => simpa [Walked, textOf_pieces, Piece.text] using Walked.name h hmoreback hregex

/-! ### In a schema -/

/-- In the schema that a source declares as `name`, between its brace and `rest` stands `inner`:
the walk comes to `rest` there, the brace is still open, and `rest` stands behind the key of an
entry. -/
structure InSchema (name : List Char) (outside inner : List Piece) (rest : List Char) : Prop where
  walk : pieces none (textOf (outside ++ .code '\x7b' :: inner) ++ rest) =
    outside ++ .code '\x7b' :: (inner ++ pieces (lastSolid (some '\x7b') (textOf inner)) rest)
  declared : search (declared? name .schema) none
      (mask (textOf (outside ++ .code '\x7b' :: inner) ++ rest)) =
    some ((inner ++ pieces (lastSolid (some '\x7b') (textOf inner)) rest).flatMap Piece.cells)
  within : enclosed? '\x7b' (textOf inner) = none
  behind : BehindKey ((commaParts (textOf inner)).getLastD [])

/-- The walk behind the brace of a schema goes on as if it started there. -/
theorem lastSolid_brace (outside inner : List Piece) :
    lastSolid none (textOf (outside ++ .code '\x7b' :: inner)) =
      lastSolid (some '\x7b') (textOf inner) := by
  rw [textOf_append, lastSolid_append]
  rfl

theorem InSchema.pieces_front {name : List Char} {outside inner : List Piece} {rest : List Char}
    (h : InSchema name outside inner rest) :
    pieces none (textOf (outside ++ .code '\x7b' :: inner)) = outside ++ .code '\x7b' :: inner := by
  have hwalked := walked_pieces none (textOf (outside ++ .code '\x7b' :: inner) ++ rest)
  rw [h.walk, ← List.cons_append, ← List.append_assoc] at hwalked
  exact hwalked.front

/-- A slot behind the brace of a schema is found there whatever stands in it, and so is the
brace. -/
theorem InSchema.slot {operands : Piece → Prop} {name : List Char} (hname : Bindable name)
    {outside inner : List Piece} {p : Piece} (h : InSchema name outside inner (p.text ++ back))
    (hp : operands p)
    (hslot : Slot operands none (textOf (outside ++ .code '\x7b' :: inner)) back) :
    Slot operands none (textOf inner) back ∧ ∀ q, operands q →
      objectBody? (textOf (outside ++ .code '\x7b' :: inner) ++ (q.text ++ back)) name .schema =
        (enclosed? '\x7b' (textOf inner ++ (q.text ++ back))).map Prod.fst := by
  have hfront := h.pieces_front
  have hsplit : pieces none (textOf (outside ++ .code '\x7b' :: inner)) =
      (outside ++ [.code '\x7b']) ++ inner := by simpa using hfront
  have hbrace : lastSolid none (textOf (outside ++ [.code '\x7b'])) = some '\x7b' := by
    rw [textOf_append]
    exact lastSolid_of_opens rfl none (textOf outside)
  refine ⟨(hbrace ▸ hslot.left hsplit).congr rfl, fun q hq => ?_⟩
  have hpieces {q : Piece} (hq : operands q) := hslot.pieces hq
  simp only [hfront, List.append_assoc, List.cons_append] at hpieces
  have hcells {q : Piece} (hq : operands q) :
      mask (textOf (outside ++ .code '\x7b' :: inner) ++ (q.text ++ back)) =
        outside.flatMap Piece.cells ++ ⟨'\x7b', ['\x7b']⟩ ::
          (inner ++ q :: pieces operandEnd back).flatMap Piece.cells := by
    rw [mask, hpieces hq, List.flatMap_append, List.flatMap_cons]
    rfl
  have hrest : inner ++ pieces (lastSolid (some '\x7b') (textOf inner)) (p.text ++ back) =
      inner ++ p :: pieces operandEnd back :=
    (List.cons.inj (List.append_cancel_left (h.walk.symm.trans (hpieces hp)))).2
  have hdeclared := h.declared
  rw [hcells hp, hrest] at hdeclared
  rw [objectBody?_eq, hcells hq, search_declared rfl hname .schema hdeclared, Option.bind_some,
    sourceOf_cells, textOf_append, textOf_cons, textOf_pieces]

/-- The fields of a schema do not depend on what stands in a slot behind the key of an entry. -/
theorem schemaFields_uniform {operands : Piece → Prop} {name : List Char} (hname : Bindable name)
    {outside inner : List Piece} {p : Piece} (h : InSchema name outside inner (p.text ++ back))
    (hp : operands p)
    (hslot : Slot operands none (textOf (outside ++ .code '\x7b' :: inner)) back) :
    Uniform operands fun text =>
      schemaFields (textOf (outside ++ .code '\x7b' :: inner) ++ (text ++ back)) name := by
  obtain ⟨hinner, hbody⟩ := h.slot hname hp hslot
  have hopen : Slot operands (some '\x7b') (textOf inner) back := hinner.congr rfl
  obtain ⟨inside, after, -, -, hclosed, -⟩ | ⟨-, found, hstart, hclose⟩ := hopen.enclosed?
  · rw [h.within] at hclosed
    cases hclosed
  · have hfields (q : Piece) (hq : operands q) :
        schemaFields (textOf (outside ++ .code '\x7b' :: inner) ++ (q.text ++ back)) name =
          ((found.map fun cut => textOf inner ++ (q.text ++ cut.1)).map fun body =>
            (entries body).map Entry.field).getD [] := by
      rw [schemaFields, hbody q hq, hclose q hq, Option.map_map]
      cases found <;> rfl
    cases found with
    | none => exact .of_eq [] hfields
    | some cut =>
      exact (entries_uniform (fun key _ _ _ => field_uniform key) (hinner.cut (hstart cut rfl))
        h.behind).congr hfields

/-- **A regular expression behind a sign that opens an operand is read like a name**: with any
inside, between its slashes and in front of its flags, it leaves the fields of the schema as they
are with `r` in its place. -/
theorem schemaFields_regex {name : List Char} {outside inner : List Piece} {sign : Char}
    (hname : Bindable name) (h : IsRegex body flags) (hback : ∀ c ∈ back.head?, c.isAlpha = false)
    (hsign : sign ∈ beforeRegex) (hlast : lastSolid (some '\x7b') (textOf inner) = some sign)
    (hin : InSchema name outside inner (regexText body flags ++ back)) :
    schemaFields (textOf (outside ++ .code '\x7b' :: inner) ++ 'r' :: back) name =
      schemaFields (textOf (outside ++ .code '\x7b' :: inner) ++ (regexText body flags ++ back))
        name := by
  have hseen := lastSolid_brace outside inner
  have hopens : opensRegex (lastSolid (some '\x7b') (textOf inner)) = true := by
    rw [hlast]
    exact List.contains_iff_mem.mpr hsign
  have hslot : Slot (RegexOrName body flags) none
      (textOf (outside ++ .code '\x7b' :: inner)) back := by
    refine slot_regex h hback (hseen ▸ hopens) ?_
    rw [hseen, hin.pieces_front, hin.walk]
    simp
  obtain ⟨fields, hfields⟩ :=
    schemaFields_uniform (p := .skipped (regexText body flags)) hname hin .regex hslot
  exact (hfields _ .name).trans (hfields _ .regex).symm

end

/-- An argument that holds a quote, a bracket, a comma and an escaped slash. -/
theorem schemaFields_regex_argument :
    let outside := pieces none "const v = z.object(".toList
    let inner := pieces (some '\x7b') " a: z.string().regex(".toList
    let body := "[(,\"]\\/".toList
    let back := ").optional(), b: z.number() \x7d);".toList
    let front := textOf (outside ++ .code '\x7b' :: inner)
    schemaFields (front ++ 'r' :: back) ['v'] =
        schemaFields (front ++ (regexText body ['g'] ++ back)) ['v'] ∧
      schemaFields (front ++ (regexText body ['g'] ++ back)) ['v'] =
        [⟨"a", .string, true⟩, ⟨"b", .number, false⟩] := by
  intro outside inner body back front
  have hregex : IsRegex body ['g'] :=
    ⟨.opened (.plain (by decide) (.plain (by decide) (.plain (by decide)
        (.closed (.escaped .nil))))),
      by decide, by decide, List.forall_mem_singleton.mpr (by decide)⟩
  have hwalk : pieces none (front ++ (regexText body ['g'] ++ back)) =
      outside ++ .code '\x7b' :: (inner ++
        pieces (lastSolid (some '\x7b') (textOf inner)) (regexText body ['g'] ++ back)) := by
    decide +kernel
  have hdeclared : search (declared? ['v'] .schema) none
      (mask (front ++ (regexText body ['g'] ++ back))) =
        some ((inner ++ pieces (lastSolid (some '\x7b') (textOf inner))
          (regexText body ['g'] ++ back)).flatMap Piece.cells) := by
    decide +kernel
  have hin : InSchema ['v'] outside inner (regexText body ['g'] ++ back) :=
    ⟨hwalk, hdeclared, by decide +kernel, by decide +kernel⟩
  have hhead : back.head? = some ')' := by decide +kernel
  have hback : ∀ c ∈ back.head?, c.isAlpha = false := by simp [hhead]
  refine ⟨schemaFields_regex ⟨by decide, by decide⟩ hregex hback
    (by decide : '(' ∈ beforeRegex) ?_ hin, ?_⟩
  · decide +kernel
  · decide +kernel

/-- Behind an operator that is not on the list a regular expression is taken for code, and its quote
for the start of a string. -/
theorem operators_change_fields :
    let source (operator operand : String) :=
      "const v = z.object(\x7b a: z.string().refine((s) " ++ operator ++ " " ++ operand ++
        ".test(s)), b: z.number() \x7d);"
    ∀ operator ∈ ["=>", "+", "<", ">"],
      schemaFields (source operator "/[\"]/").toList ['v'] = [] ∧
        schemaFields (source operator "r").toList ['v'] =
          [⟨"a", .string, false⟩, ⟨"b", .number, false⟩] := by
  -- As lists of characters the sources are read quickly.
  simp only [List.forall_mem_cons, String.toList_append]
  repeat rw [String.toList_ofList]
  decide +kernel

end RouteScaffold.Source
