import RouteScaffold.Proofs.Source.SchemaFields

/-! Readers in front of a sign.

Most signs take no part in a name, a run of blanks or a dot (`Ends`), so a reader of those
stops in front of such a sign as it stops at the end of a text (`Stops`), and what it has taken
by then is code. -/
namespace RouteScaffold.Source
open Text

/-- `rest` is `cs` without some code in front. -/
def Behind (cs rest : List Char) : Prop := ∃ code, IsCode code ∧ cs = code ++ rest

theorem Behind.refl (cs : List Char) : Behind cs cs := ⟨[], by simp [IsCode], rfl⟩

theorem Behind.trans {a b c : List Char} (h : Behind a b) (h' : Behind b c) : Behind a c := by
  obtain ⟨code, hcode, rfl⟩ := h
  obtain ⟨code', hcode', rfl⟩ := h'
  exact ⟨code ++ code', List.forall_mem_append.mpr ⟨hcode, hcode'⟩, (List.append_assoc ..).symm⟩

theorem Behind.cons {c : Char} (hq : isQuote c = false) (hs : c ≠ '/') {cs rest : List Char}
    (h : Behind cs rest) : Behind (c :: cs) rest := by
  obtain ⟨code, hcode, rfl⟩ := h
  exact ⟨c :: code, List.forall_mem_cons.mpr ⟨⟨hq, hs⟩, hcode⟩, rfl⟩

/-- The reader comes to the same in front of the sign, whatever stands behind it, and what it takes
is code. -/
structure Stops (sign : Char) (read : List Char → Option Cut) : Prop where
  stop : ∀ front rest, read (front ++ sign :: rest) =
    (read front).map fun cut => (cut.1, cut.2 ++ sign :: rest)
  code : ∀ front cut, read front = some cut → Behind front cut.2

/-- A character that ends every name and every run of blanks, and is no dot. -/
structure Ends (c : Char) : Prop where
  blank : isBlank c = false
  ident : isIdentChar c = false
  token : isTokenChar c = false
  dot : c ≠ '.'

instance (c : Char) : Decidable (Ends c) :=
  decidable_of_iff
    (isBlank c = false ∧ isIdentChar c = false ∧ isTokenChar c = false ∧ c ≠ '.')
    ⟨fun ⟨hblank, hident, htoken, hdot⟩ => ⟨hblank, hident, htoken, hdot⟩,
      fun h => ⟨h.blank, h.ident, h.token, h.dot⟩⟩

section
variable {sign : Char}

/-! ### Signs -/

theorem ne_of_isQuote {quote c : Char} (hq : isQuote quote = true) (hc : isQuote c = false) :
    quote ≠ c := fun heq => by
  rw [heq, hc] at hq
  cases hq

theorem ends_of_isQuote {c : Char} (h : isQuote c = true) : Ends c where
  blank := isBlank_of_isQuote h
  ident := isIdentChar_of_mem_signs c (mem_signs_of_isQuote h)
  token := isTokenChar_of_mem_signs c (mem_signs_of_isQuote h)
  dot := ne_of_isQuote h rfl

/-- So does every character that a regular expression can follow. -/
theorem ends_of_mem_beforeRegex : ∀ c ∈ beforeRegex, Ends c :=
  List.all_iff_forall_prop.mp (by decide)

/-- A character that is no sign is code. -/
theorem isCode_of_not_mem {c : Char} (h : c ∉ signs) : isQuote c = false ∧ c ≠ '/' :=
  code_of_isPlainWord (isPlainWord_of_not_mem h)

/-! ### Taking and dropping -/

theorem dropWhile_stop {p : Char → Bool} (hp : p sign = false) (front rest : List Char) :
    (front ++ sign :: rest).dropWhile p = front.dropWhile p ++ sign :: rest := by
  rw [List.dropWhile_append]
  split
  next hnil => rw [List.isEmpty_iff.mp hnil, List.dropWhile_cons_of_neg (by simp [hp])]; rfl
  next => rfl

theorem takeWhile_stop {p : Char → Bool} (hp : p sign = false) (front rest : List Char) :
    (front ++ sign :: rest).takeWhile p = front.takeWhile p := by
  induction front with
  | nil => simp [hp]
  | cons c front ih => simp only [List.cons_append, List.takeWhile_cons, ih]

/-- Characters that are no signs are code. -/
theorem behind_dropWhile {p : Char → Bool} (hp : ∀ c ∈ signs, p c = false) (cs : List Char) :
    Behind cs (cs.dropWhile p) := by
  refine ⟨cs.takeWhile p, fun c hc => isCode_of_not_mem fun hsign => ?_,
    List.takeWhile_append_dropWhile.symm⟩
  have htrue : p c = true := List.all_eq_true.mp List.all_takeWhile c hc
  rw [hp c hsign] at htrue
  cases htrue

theorem trimStart_stop (hends : Ends sign) (front rest : List Char) :
    trimStart (front ++ sign :: rest) = trimStart front ++ sign :: rest :=
  dropWhile_stop hends.blank front rest

theorem behind_trimStart (cs : List Char) : Behind cs (trimStart cs) :=
  behind_dropWhile isBlank_of_mem_signs cs

theorem isPrefixOf_stop {word : List Char} (h : sign ∉ word) (front rest : List Char) :
    word.isPrefixOf (front ++ sign :: rest) = word.isPrefixOf front := by
  induction word generalizing front with
  | nil => simp
  | cons c word ih =>
    obtain ⟨hc, hword⟩ := not_or.mp (mt List.mem_cons.mpr h)
    cases front with
    | nil => simp [List.isPrefixOf, Ne.symm hc]
    | cons d front => simp [List.isPrefixOf, ih hword]

/-! ### Readers -/

theorem Stops.congr {read read' : List Char → Option Cut} (h : Stops sign read)
    (heq : ∀ cs, read' cs = read cs) : Stops sign read' := (funext heq : read' = read) ▸ h

theorem Stops.bind {first second : List Char → Option Cut} (h : Stops sign first)
    (h' : Stops sign second) :
    Stops sign fun cs => (first cs).bind fun cut => second cut.2 where
  stop front rest := by
    rw [h.stop]
    cases first front with
    | none => rfl
    | some cut => exact h'.stop cut.2 rest
  code front cut hcut := by
    obtain ⟨middle, hfirst, hsecond⟩ := Option.bind_eq_some_iff.mp hcut
    exact (h.code _ _ hfirst).trans (h'.code _ _ hsecond)

theorem Stops.orElse {first second : List Char → Option Cut} (h : Stops sign first)
    (h' : Stops sign second) : Stops sign fun cs => first cs <|> second cs where
  stop front rest := by
    rw [h.stop, h'.stop]
    cases first front <;> rfl
  code front cut hcut := by
    rw [Option.orElse_apply, Option.orElse_eq_or] at hcut
    rcases Option.or_eq_some_iff.mp hcut with hcut | ⟨-, hcut⟩
    · exact h.code _ _ hcut
    · exact h'.code _ _ hcut

theorem Stops.trim {read : List Char → Option Cut} (h : Stops sign read) (hends : Ends sign) :
    Stops sign fun cs => read (trimStart cs) where
  stop front rest := by rw [trimStart_stop hends, h.stop]
  code front cut hcut := (behind_trimStart front).trans (h.code _ _ hcut)

/-- A reader behind a fixed word. -/
theorem Stops.word {read : List Char → Option Cut} (h : Stops sign read) {word : List Char}
    (hword : ∀ c ∈ word, isIdentChar c = true) (hends : Ends sign) :
    Stops sign fun cs => if word.isPrefixOf cs then read (cs.drop word.length) else none where
  stop front rest := by
    have hmem : sign ∉ word := fun hmem => by
      have hident := hword sign hmem
      rw [hends.ident] at hident
      cases hident
    rw [isPrefixOf_stop hmem]
    split
    next hstarts =>
      obtain ⟨more, rfl⟩ := List.isPrefixOf_iff_prefix.mp hstarts
      rw [List.append_assoc, List.drop_left, List.drop_left, h.stop]
    next => rfl
  code front cut hcut := by
    split at hcut
    next hstarts =>
      obtain ⟨more, rfl⟩ := List.isPrefixOf_iff_prefix.mp hstarts
      have hcode : IsCode word := fun c hc =>
        code_of_isPlainWord (isPlainWord_of_isIdentChar (hword c hc))
      rw [List.drop_left] at hcut
      exact .trans ⟨word, hcode, rfl⟩ (h.code _ _ hcut)
    next => cases hcut

theorem Stops.findSome {read : String → List Char → Option Cut} {words : List String}
    (h : ∀ word ∈ words, Stops sign (read word)) :
    Stops sign fun cs => words.findSome? (read · cs) := by
  induction words with
  | nil => exact ⟨fun _ _ => rfl, fun _ _ hcut => by cases hcut⟩
  | cons word words ih =>
    have hwords := ih fun other hother => h other (List.mem_cons_of_mem word hother)
    refine ((h word (List.mem_cons_self ..)).orElse hwords).congr fun cs => ?_
    rw [List.findSome?_cons]
    cases read word cs <;> rfl

/-- A reader that looks at the first character, which must be code, and then at the rest. -/
theorem Stops.first {start : Char → Bool} {next : Char → List Char → Option Cut}
    (hstart : ∀ c, start c = true → isQuote c = false ∧ c ≠ '/')
    (h : ∀ c, Stops sign (next c)) (hends : start sign = false) :
    Stops sign fun cs => match cs with
      | [] => none
      | c :: rest => if start c then next c rest else none where
  stop front rest := by
    cases front with
    | nil => exact if_neg (by simp [hends])
    | cons c front =>
      simp only [List.cons_append, (h c).stop]
      split <;> rfl
  code front cut hcut := by
    split at hcut
    next => cases hcut
    next c rest =>
      split at hcut
      next hc =>
        obtain ⟨hquote, hslash⟩ := hstart c hc
        exact .cons hquote hslash ((h c).code _ _ hcut)
      next => cases hcut

theorem stops_some (token : List Char) : Stops sign fun cs => some (token, cs) where
  stop _ _ := rfl
  code front _ hcut := Option.some.inj hcut ▸ .refl front

/-! ### Each reader -/

theorem stops_identifier (hends : Ends sign) : Stops sign identifier? where
  stop front rest := by
    rw [identifier?_eq, identifier?_eq, takeWhile_stop hends.ident, dropWhile_stop hends.ident]
    split <;> rfl
  code front cut hcut := by
    rw [identifier?_eq] at hcut
    split at hcut
    next => exact Option.some.inj hcut ▸ behind_dropWhile isIdentChar_of_mem_signs front
    next => cases hcut

theorem stops_dot (hends : Ends sign) :
    Stops sign fun cs => (nextChar? '.' cs).map (Prod.mk []) := by
  have hread := (Stops.first
    (fun c (hc : (c == '.') = true) => beq_iff_eq.mp hc ▸ (by decide : _ ∧ '.' ≠ '/'))
    (fun _ => stops_some []) (beq_eq_false_iff_ne.mpr hends.dot)).trim hends
  refine hread.congr fun cs => ?_
  rw [nextChar?]
  cases trimStart cs with
  | nil => rfl
  | cons d rest =>
    simp only
    split <;> rfl

theorem stops_typeToken (hends : Ends sign) : Stops sign typeToken? := by
  have htoken := hends.token
  have hstart : ∀ c : Char, (c.isAlpha || c == '_' || c == '$') = true →
      isQuote c = false ∧ c ≠ '/' := fun c hc => isCode_of_not_mem fun hsign => by
    have := isTokenChar_of_mem_signs c hsign
    rw [isTokenChar_start hc] at this
    cases this
  have hnext (c : Char) : Stops sign fun cs =>
      some (c :: cs.takeWhile isTokenChar, cs.dropWhile isTokenChar) :=
    ⟨fun front rest => by rw [takeWhile_stop htoken, dropWhile_stop htoken]; rfl,
      fun front cut hcut => Option.some.inj hcut ▸
        behind_dropWhile isTokenChar_of_mem_signs front⟩
  have hquote : (sign.isAlpha || sign == '_' || sign == '$') = false := by
    cases hc : (sign.isAlpha || sign == '_' || sign == '$') with
    | false => rfl
    | true =>
      rw [isTokenChar_start hc] at htoken
      cases htoken
  exact (Stops.first hstart hnext hquote).trim hends

theorem stops_coerced (hends : Ends sign) :
    Stops sign fun cs => (coerced? cs).map (Prod.mk []) := by
  have hword : ∀ c ∈ "coerce".toList, isIdentChar c = true :=
    List.all_eq_true.mp (by decide)
  have hread := ((stops_dot hends).word hword hends).trim hends
  refine hread.congr fun cs => ?_
  rw [coerced?]
  split <;> rfl

theorem stops_baseType (hends : Ends sign) : Stops sign baseType? := by
  have hcall := (stops_dot hends).bind
    (((stops_coerced hends).bind (stops_typeToken hends)).orElse (stops_typeToken hends))
  have hz : sign ≠ 'z' := fun heq => by
    have hident := hends.ident
    rw [heq] at hident
    exact absurd hident (by decide)
  have hread := Stops.first
    (fun c (hc : (c == 'z') = true) => beq_iff_eq.mp hc ▸ (by decide : _ ∧ 'z' ≠ '/'))
    (fun _ => hcall) (beq_eq_false_iff_ne.mpr hz)
  refine hread.congr fun cs => ?_
  cases cs with
  | nil => rfl
  | cons c cs =>
    by_cases hc : c = 'z'
    · subst hc
      simp only [baseType?, beq_self_eq_true, if_true, Option.bind_map]
      rfl
    · rw [baseType?]
      · exact (if_neg (by simpa using hc)).symm
      · exact fun _ h => absurd (List.cons.inj h).1 hc

/-! ### Keys -/

theorem stops_methodName (hends : Ends sign) :
    Stops sign fun cs => (methodName? cs).map (Prod.mk []) where
  stop front rest := by
    rw [methodName?, methodName?, trimStart_stop hends]
    cases trimStart front with
    | nil => simp [hends.ident]
    | cons c name =>
      simp only [List.cons_append, List.length_cons, List.length_append]
      have hlength : name.length + (rest.length + 1) + 1 < front.length + (rest.length + 1) ↔
          name.length + 1 < front.length := by omega
      simp only [hlength]
      split <;> rfl
  code front cut hcut := by
    obtain ⟨name, hname, rfl⟩ := Option.map_eq_some_iff.mp hcut
    unfold methodName? at hname
    split at hname
    next => cases hname
    next c more htrim =>
      split at hname
      next => exact Option.some.inj hname ▸ htrim ▸ behind_trimStart front
      next => cases hname

/-- The name that an entry starts with, behind a modifier if there is one. -/
theorem stops_modified (hends : Ends sign) :
    Stops sign fun cs => identifier? (stripModifier cs) := by
  have hword : Stops sign fun cs => (modifiers.findSome? fun word =>
      if word.toList.isPrefixOf cs then methodName? (cs.drop word.length) else none).map
        (Prod.mk []) := by
    refine (Stops.findSome fun word hmem =>
      (stops_methodName hends).word (isIdentChar_of_mem_modifier word hmem) hends).congr
        fun cs => ?_
    rw [List.map_findSome?]
    refine congrArg (modifiers.findSome? ·) (funext fun word => ?_)
    rw [Function.comp_apply, String.length_toList]
    split <;> rfl
  have hread := (hword.orElse (stops_some [])).bind (stops_identifier hends)
  refine hread.congr fun cs => ?_
  rw [stripModifier]
  generalize (modifiers.findSome? fun word =>
    if word.toList.isPrefixOf cs then methodName? (cs.drop word.length) else none) = found
  cases found <;> rfl

end

end RouteScaffold.Source
