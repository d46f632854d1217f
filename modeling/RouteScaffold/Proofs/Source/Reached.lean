import RouteScaffold.Proofs.Source.Slots

/-! Texts with a string in them.

A text in front of a quote leads to it (`Reaches`) if the walk comes to the quote
whatever stands behind it, so that the quote opens a string. Then the walk is the same up to
the string and behind it, so there is a slot for the string (`Reaches.slot`): the bracket
that closes another one (`Reaches.enclosed?`) is the same, whatever it says. -/
namespace RouteScaffold.Source
open Text

/-- A text with a string in it. -/
def withString (quote : Char) (front body back : List Char) : List Char :=
  front ++ quote :: (body ++ quote :: back)

/-- Behind the solid character `before`, the walk over `front` comes to a quote that follows it. -/
def Reaches (quote : Char) (before : Option Char) (front : List Char) : Prop :=
  ∀ rest, pieces before (front ++ quote :: rest) =
    pieces before front ++ pieces (lastSolid before front) (quote :: rest)

/-- No slash is code where a regular expression could stand. -/
def Terminated (before : Option Char) : List Piece → Prop
  | [] => True
  | .skipped text :: ps => Terminated (lastSolid before text) ps
  | .code c :: ps => (c = '/' → opensRegex before = false) ∧ Terminated (lastSolid before [c]) ps

instance decidableTerminated (before : Option Char) : (ps : List Piece) →
    Decidable (Terminated before ps)
  | [] => inferInstanceAs (Decidable True)
  | .skipped text :: ps => decidableTerminated (lastSolid before text) ps
  | .code c :: ps =>
    have := decidableTerminated (lastSolid before [c]) ps
    inferInstanceAs (Decidable (_ ∧ _))

section
variable {quote : Char} {before : Option Char}

/-! ### Leading to a quote -/

theorem reaches_nil (quote : Char) (before : Option Char) : Reaches quote before [] := by
  intro rest
  rw [pieces_nil]
  rfl

/-- What is left of a text behind any of its pieces leads to the quote, too. -/
theorem Reaches.back {front : List Char} (h : Reaches quote before front) {ps qs : List Piece}
    (hp : pieces before front = ps ++ qs) :
    Reaches quote (lastSolid before (textOf ps)) (textOf qs) := by
  intro rest
  have hfront : Walked before (ps ++ qs) := hp ▸ walked_pieces before front
  have htext : front = textOf ps ++ textOf qs := by rw [← textOf_append, ← hp, textOf_pieces]
  have hwalk : Walked before (ps ++ (qs ++ pieces (lastSolid before front) (quote :: rest))) := by
    rw [← List.append_assoc, ← hp, ← h rest]
    exact walked_pieces before _
  have hback := hwalk.back
  rw [Walked, textOf_append, textOf_pieces] at hback
  rw [hback, hfront.back, ← lastSolid_append, ← htext]

/-- Behind the first piece of a text, what is left of it leads to the quote. -/
theorem Reaches.tail {front rest : List Char} {seen : Option Char} {p : Piece}
    (h : Reaches quote before front) (hp : pieces before front = p :: pieces seen rest) :
    Reaches quote (lastSolid before p.text) rest := by
  have hback := @Reaches.back _ _ _ h [p] _ hp
  rwa [textOf_pieces, textOf_cons, textOf_nil, List.append_nil] at hback

theorem Reaches.congr {front : List Char} (h : Reaches quote before front) {seen : Option Char}
    (hseen : opensRegex before = opensRegex seen) : Reaches quote seen front := by
  intro rest
  rw [← pieces_congr hseen, ← pieces_congr hseen, h rest,
    pieces_congr (opensRegex_lastSolid hseen front)]

/-- Behind a piece that is found in front of the end and of the quote alike, what leads to the
quote leads to it still. -/
theorem Reaches.cons {p : Piece} {ps : List Piece}
    (hpieces : ∀ rest, (∀ c ∈ rest.head?, c = quote) → pieces before (textOf (p :: ps) ++ rest) =
      p :: pieces (lastSolid before p.text) (textOf ps ++ rest))
    (h : Reaches quote (lastSolid before p.text) (textOf ps)) :
    Reaches quote before (textOf (p :: ps)) := by
  intro rest
  have hself := hpieces [] (by simp)
  rw [List.append_nil, List.append_nil] at hself
  rw [hpieces _ (by simp), h rest, hself, textOf_cons, lastSolid_append]
  rfl

/-- In front of a string that the walk comes to, and without a slash that is open, a text leads to
every string that opens with the same quote. -/
theorem Terminated.reaches {body : List Char} {front back : List Piece}
    (hslash : Terminated before front)
    (h : Walked before (front ++ .skipped (quote :: body) :: back)) :
    Reaches quote before (textOf front) := by
  induction front generalizing before with
  | nil => exact reaches_nil quote before
  | cons p front ih =>
    -- What follows the piece starts alike, whether more follows the quote or not.
    have hhead (rest : List Char) (hrest : ∀ c ∈ rest.head?, c = quote) :
        ∀ c ∈ (textOf front ++ rest).head?,
          (textOf (front ++ .skipped (quote :: body) :: back)).head? = some c := by
      intro c hc
      rw [textOf_append]
      cases htext : textOf front with
      | nil =>
        rw [htext] at hc
        exact congrArg some (hrest c hc).symm
      | cons d text =>
        rw [htext] at hc
        exact hc
    cases p with
    | skipped text =>
      obtain ⟨hstretch, hwalk⟩ := walked_skipped.mp h
      refine .cons (fun rest hrest => ?_) (ih hslash hwalk)
      rw [textOf_cons, List.append_assoc]
      refine pieces_skip (hstretch.rest (fun hnil => ?_) (fun c hc => .inl ?_) hstretch.opens).skip?
      · simp [Piece.text] at hnil
      · exact hhead rest hrest c hc
    | code c =>
      obtain ⟨hskip, hwalk⟩ := walked_code.mp h
      obtain ⟨hopen, hslash⟩ : _ ∧ Terminated _ front := hslash
      refine .cons (fun rest hrest => pieces_none ?_) (ih hslash hwalk)
      by_cases hc : c = '/'
      · subst hc
        have hnext : ∀ d ∈ (textOf front ++ rest).head?, d ≠ '/' ∧ d ≠ '*' :=
          fun d hd => head_of_skip?_none hskip d (hhead rest hrest d hd)
        show skip? before ('/' :: (textOf front ++ rest)) = none
        rw [skip?_slash, takeAfterSlash_regex hnext, hopen rfl]
        rfl
      · exact skip?_plain (isQuote_of_skip?_none hskip) hc before _

/-- The walk passes over the string, and behind it goes on as if it started there. -/
theorem pieces_withString {front body : List Char} (h : Reaches quote before front)
    (hq : isQuote quote = true) (hbody : StringBody quote body) (back : List Char) :
    pieces before (withString quote front body back) =
      pieces before front ++ .skipped (quote :: (body ++ [quote])) :: pieces (some quote) back := by
  rw [withString, h, pieces_skip (skip?_string _ hq hbody back), lastSolid_quoted _ hq]

/-! ### Strings in a slot -/

/-- A string between the given quotes. -/
def IsString (quote : Char) (p : Piece) : Prop :=
  ∃ body, StringBody quote body ∧ p = .skipped (quote :: (body ++ [quote]))

theorem IsString.operand {p : Piece} (h : IsString quote p) (hq : isQuote quote = true) :
    Operand p := by
  obtain ⟨body, -, rfl⟩ := h
  refine ⟨isComment_of_ne (ne_slash_of_isQuote hq) _, nofun,
    ⟨quote, body ++ [quote], rfl, isBlank_of_isQuote hq, fun hmem => ?_⟩,
    ⟨quote :: body, quote, rfl, isBlank_of_isQuote hq⟩⟩
  simp only [List.mem_cons, List.not_mem_nil, or_false] at hmem
  rcases hmem with rfl | rfl | rfl | rfl <;> cases hq

theorem withString_eq (quote : Char) (front body back : List Char) :
    withString quote front body back =
      front ++ ((Piece.skipped (quote :: (body ++ [quote]))).text ++ back) := by
  simp [withString, Piece.text]

/-- What leads to a quote leads to a slot for strings. -/
theorem Reaches.slot {front : List Char} (h : Reaches quote before front)
    (hq : isQuote quote = true) (back : List Char) : Slot (IsString quote) before front back where
  operand _ hp := hp.operand hq
  walk := by
    rintro _ ⟨body, hbody, rfl⟩ more -
    have hend : opensRegex (some quote) = opensRegex operandEnd := by
      simp only [isQuote, Bool.or_eq_true, beq_iff_eq, or_assoc] at hq
      rcases hq with rfl | rfl | rfl <;> rfl
    rw [← withString_eq, pieces_withString h hq hbody, pieces_congr hend]
  stop := .inl ⟨quote, hq, by rintro _ ⟨body, -, rfl⟩; rfl⟩

/-- Behind a bracket that leads to the quote what it encloses does, too. -/
theorem Reaches.inside (b : Bracket) {rest : List Char}
    (h : Reaches quote before (b.opening :: rest)) : Reaches quote (some b.opening) rest := by
  have hlast : lastSolid before [b.opening] = some b.opening := by cases b <;> rfl
  exact hlast ▸ h.tail (b.pieces_opening before rest)

/-- What a bracket encloses ends in front of the string, or holds it and ends at a place that does
not depend on what the string says, or has no end. -/
theorem Reaches.enclosed? {bracket : Char} {front : List Char}
    (h : Reaches quote (some bracket) front) (hq : isQuote quote = true) (back : List Char) :
    (∃ inside, ∀ body, StringBody quote body →
      (enclosed? bracket (withString quote front body back)).map Prod.fst = some inside) ∨
    enclosed? bracket front = none ∧ ∃ found : Option (List Char), ∀ body, StringBody quote body →
      (enclosed? bracket (withString quote front body back)).map Prod.fst =
        found.map fun more => withString quote front body more := by
  obtain ⟨inside, after, -, -, -, hclose⟩ | ⟨hnone, found, -, hclose⟩ := (h.slot hq back).enclosed?
  · exact .inl ⟨inside, fun body hbody => by rw [withString_eq, hclose _ ⟨body, hbody, rfl⟩]; rfl⟩
  · refine .inr ⟨hnone, found.map Prod.fst, fun body hbody => ?_⟩
    rw [withString_eq, hclose _ ⟨body, hbody, rfl⟩, Option.map_map, Option.map_map]
    simp only [Function.comp_def, withString_eq]

/-- What is left out in front of a text is left out in front of the string. -/
theorem Reaches.strip {front : List Char} (h : Reaches quote before front)
    (hq : isQuote quote = true) :
    (∃ seen, Reaches quote seen (stripComments front)) ∧ ∀ body, StringBody quote body → ∀ back,
      stripComments (withString quote front body back) =
        withString quote (stripComments front) body back := by
  obtain ⟨gone, core, hpieces, hstrip⟩ := exists_stripped (walked_pieces before front)
  have hself : stripComments front = textOf core := by
    have := hstrip [] (by rw [List.append_nil]; exact walked_pieces before front) (by simp)
    rwa [List.append_nil, List.append_nil, textOf_pieces] at this
  refine ⟨⟨_, hself ▸ h.back hpieces⟩, fun body hbody back => ?_⟩
  rw [withString_eq, withString_eq]
  exact (h.slot hq back).strip.2 _ ⟨body, hbody, rfl⟩

end

end RouteScaffold.Source
