import RouteScaffold.Proofs.Source.Members
import RouteScaffold.Proofs.Source.Overwritten

/-! Texts without their comments.

In front of an entry, of an argument and of the dot of a chained call, a reader leaves
out comments and blanks alike. So if `y` is `x` with its comments overwritten
(`Cleared`), both start with the same piece behind what is left out (`Cleared.strip`,
`Led`). At other places a reader leaves out blanks alone: there it comes to the same if
no comment follows them (`Bare`, `Cleared.trim`). Words, and what stands behind the
bracket that closes another one, are the same wherever the comments are. -/
namespace RouteScaffold.Source
open Text

/-! ### Behind the gap in front -/

/-- A piece that is neither a blank nor a comment. -/
def Piece.Solid : Piece → Prop
  | .skipped text => isComment text = false
  | .code c => isBlank c = false

theorem stripComments_self {cs : List Char} (hcomment : isComment cs = false)
    (hhead : ∀ c ∈ cs.head?, isBlank c = false) : stripComments cs = cs := by
  have htrim : trimStart cs = cs := trimStart_solid hhead
  rw [stripComments]
  split
  next heq => rw [← htrim, heq] at hcomment; simp [isComment] at hcomment
  next heq => rw [← htrim, heq] at hcomment; simp [isComment] at hcomment
  next => exact htrim

/-- What a stretch starts with is no blank, and no part of a name. -/
theorem Stretch.head {before : Option Char} {cs taken rest : List Char}
    (h : Stretch before cs taken rest) :
    ∃ c body, taken = c :: body ∧ isBlank c = false ∧ isIdentChar c = false := by
  obtain ⟨c, hc, body, rfl⟩ := h.exists_head
  have hsign := mem_signs_of_mem_openers c hc
  exact ⟨c, body, rfl, isBlank_of_mem_signs c hsign, isIdentChar_of_mem_signs c hsign⟩

/-- In front of a solid piece nothing is left out. -/
theorem stripComments_walked {before : Option Char} {p : Piece} {ps : List Piece}
    (h : Walked before (p :: ps)) (hp : p.Solid) :
    stripComments (textOf (p :: ps)) = textOf (p :: ps) := by
  cases p with
  | skipped text =>
    have hstretch := (walked_skipped.mp h).1
    have hcomment : isComment (text ++ textOf ps) = false := hstretch.isComment_append hp _
    obtain ⟨c, body, rfl, hc, -⟩ := hstretch.head
    exact stripComments_self hcomment fun d hd => Option.some.inj hd ▸ hc
  | code c =>
    have hhead : ∀ d ∈ (textOf (.code c :: ps)).head?, isBlank d = false :=
      fun d hd => Option.some.inj hd ▸ hp
    refine stripComments_self ?_ hhead
    by_cases hc : c = '/'
    · subst hc
      exact isComment_slash (head_of_skip?_none (walked_code.mp h).1)
    · exact isComment_of_ne hc _

theorem stripComments_stretch {before : Option Char} {cs taken rest : List Char}
    (h : Stretch before cs taken rest) (hcomment : isComment taken = true) :
    stripComments cs = stripComments rest := by
  have hslash (cs : List Char) : trimStart ('/' :: cs) = '/' :: cs :=
    trimStart_solid fun c hc => Option.some.inj hc ▸ isBlank_of_mem_signs '/' (by decide)
  cases h with
  | string hq _ =>
    rw [isComment_of_ne (ne_slash_of_isQuote hq)] at hcomment
    cases hcomment
  | line h => rw [stripComments_line (hslash _), h]
  | block h => rw [stripComments_block (hslash _), h]
  | regex _ hfirst h =>
    have hregex := isComment_slash (head_regex hfirst h [])
    rw [List.append_nil, hcomment] at hregex
    cases hregex

/-- What is no solid piece is left out, and so is what overwrites it. -/
theorem stripComments_unsolid {before : Option Char} {p : Piece} {ps : List Piece}
    (h : Walked before (p :: ps)) (hp : ¬ p.Solid) (more : List Char) :
    stripComments (textOf (p :: ps)) = stripComments (textOf ps) ∧
      stripComments (textOf p.quiet ++ more) = stripComments more := by
  cases p with
  | skipped text =>
    have hcomment : isComment text = true := by simpa [Piece.Solid] using hp
    have hblank : Blank (textOf (Piece.skipped text).quiet) := by
      rw [Piece.quiet, if_pos hcomment, textOf_map_code]
      intro c hc
      rcases mem_blanked hc with rfl | rfl <;> decide
    exact ⟨stripComments_stretch (walked_skipped.mp h).1 hcomment,
      stripComments_congr (trimStart_blank hblank more)⟩
  | code c =>
    have hblank : Blank [c] := by simpa [Piece.Solid, Blank] using hp
    exact ⟨stripComments_congr (trimStart_blank hblank (textOf ps)),
      stripComments_congr (trimStart_blank hblank more)⟩

theorem Piece.Solid.quiet {p : Piece} (h : p.Solid) : p.quiet = [p] := by
  cases p with
  | skipped text =>
    have hcomment : isComment text = false := h
    rw [Piece.quiet, if_neg (by simp [hcomment])]
  | code c => rfl

theorem Walked.exists_head {before : Option Char} {p : Piece} {ps : List Piece}
    (h : Walked before (p :: ps)) (hp : p.Solid) :
    ∃ c text, p.text = c :: text ∧ isBlank c = false := by
  cases p with
  | code c => exact ⟨c, [], rfl, hp⟩
  | skipped text =>
    obtain ⟨c, text, rfl, hc, -⟩ := (walked_skipped.mp h).1.head
    exact ⟨c, text, rfl, hc⟩

/-! ### Texts without their comments -/

/-- Behind the solid characters `a` and `b`, `y` is `x` with its comments overwritten, and cut into
the same pieces. Blanks and comments at the end of `x` may be missing. -/
def ClearedFrom (a b : Option Char) (x y : List Char) : Prop :=
  ∃ ps gap, Walked a (ps ++ gap) ∧ Walked b (quiet ps) ∧ (∀ p ∈ gap, ¬ p.Solid) ∧
    x = textOf (ps ++ gap) ∧ y = textOf (quiet ps)

def Cleared (x y : List Char) : Prop := ∃ a b, ClearedFrom a b x y

theorem over_nil : Over [] [] := ⟨[], pieces_nil none, pieces_nil none, rfl, rfl⟩

theorem Over.cleared {x y : List Char} (h : Over x y) : Cleared x y := by
  obtain ⟨ps, hp, hq, rfl, rfl⟩ := h
  rw [← List.append_nil ps] at hp
  exact ⟨none, none, ps, [], hp, hq, by simp, by simp, rfl⟩

/-- No comment follows the blanks in front. -/
def Bare (cs : List Char) : Prop := isComment (trimStart cs) = false

instance (cs : List Char) : Decidable (Bare cs) :=
  inferInstanceAs (Decidable (isComment (trimStart cs) = false))

/-- Both texts start with the same solid piece, and `y` is cleared behind it, or both are empty. -/
inductive Led : List Char → List Char → Prop where
  | nil : Led [] []
  | code {a b c x y} : isBlank c = false → isQuote c = false →
      ClearedFrom (lastSolid a [c]) (lastSolid b [c]) x y → Led (c :: x) (c :: y)
  | skipped {a text x y} : Stretch a (text ++ x) text x → isComment text = false →
      Cleared x y → Led (text ++ x) (text ++ y)

theorem led_of_solid {a b : Option Char} {p : Piece} {ps gap : List Piece} (hp : p.Solid)
    (h : Walked a (p :: (ps ++ gap))) (h' : Walked b (quiet (p :: ps)))
    (hgap : ∀ q ∈ gap, ¬ q.Solid) :
    Led (textOf (p :: (ps ++ gap))) (textOf (quiet (p :: ps))) := by
  cases p with
  | code c =>
    obtain ⟨hskip, hrest⟩ := walked_code.mp h
    exact .code hp (isQuote_of_skip?_none hskip)
      ⟨ps, gap, hrest, (walked_code.mp h').2, hgap, rfl, rfl⟩
  | skipped text =>
    obtain ⟨hstretch, hrest⟩ := walked_skipped.mp h
    rw [quiet_skipped hp] at h' ⊢
    exact .skipped hstretch hp ⟨_, _, ps, gap, hrest, (walked_skipped.mp h').2, hgap, rfl, rfl⟩

section
variable {x y : List Char}

/-- A text that starts with neither a blank nor a comment starts with a solid piece. -/
theorem Cleared.led (h : Cleared x y) (hbare : Bare x) (hblank : ∀ c ∈ x.head?, isBlank c = false) :
    Led x y := by
  obtain ⟨a, b, ps, gap, hwalk, hquiet, hgap, rfl, rfl⟩ := h
  rw [Bare, trimStart_solid hblank] at hbare
  have hsolid {p : Piece} {qs : List Piece} (htext : textOf (ps ++ gap) = textOf (p :: qs)) :
      p.Solid := by
    rw [htext] at hbare hblank
    cases p with
    | code c => exact hblank c rfl
    | skipped text =>
      refine Bool.eq_false_iff.mpr fun hcomment => ?_
      rw [textOf_cons, Piece.text, isComment_append hcomment] at hbare
      cases hbare
  cases ps with
  | nil =>
    cases gap with
    | nil => exact .nil
    | cons g gap => exact absurd (hsolid rfl) (hgap g (List.mem_cons_self ..))
  | cons p ps => exact led_of_solid (hsolid rfl) hwalk hquiet hgap

/-- A character that opens no stretch starts both texts, or neither. -/
theorem Led.head (h : Led x y) {c : Char} (hc : c ∉ openers) :
    (∃ a b u v, x = c :: u ∧ y = c :: v ∧
      ClearedFrom (lastSolid a [c]) (lastSolid b [c]) u v) ∨
    (x.head? ≠ some c ∧ y.head? ≠ some c) := by
  cases h with
  | nil => exact .inr ⟨by simp, by simp⟩
  | @code a b d u v _ _ hrest =>
    by_cases hd : d = c
    · subst hd
      exact .inl ⟨a, b, u, v, rfl, rfl, hrest⟩
    · exact .inr ⟨by simpa using hd, by simpa using hd⟩
  | skipped hstretch _ _ =>
    obtain ⟨d, hd, body, rfl⟩ := hstretch.exists_head
    have hne : d ≠ c := fun heq => hc (heq ▸ hd)
    exact .inr ⟨by simpa using hne, by simpa using hne⟩

theorem Led.head_eq (h : Led x y) : y.head? = x.head? := by
  cases h with
  | nil => rfl
  | code _ _ _ => rfl
  | skipped hstretch _ _ =>
    obtain ⟨c, body, rfl, -⟩ := hstretch.head
    rfl

theorem ne_cons_of_head {c : Char} (h : x.head? ≠ some c) (rest : List Char) : x ≠ c :: rest :=
  fun heq => h (by rw [heq]; rfl)

/-! ### What is left out in front -/

/-- Of blanks and comments alone nothing is left. -/
theorem stripComments_unsolids {before : Option Char} {gap : List Piece} (h : Walked before gap)
    (hgap : ∀ p ∈ gap, ¬ p.Solid) : stripComments (textOf gap) = [] := by
  induction gap generalizing before with
  | nil => exact stripComments_nil
  | cons p gap ih =>
    obtain ⟨hp, hgap⟩ := List.forall_mem_cons.mp hgap
    exact (stripComments_unsolid h hp []).1.trans (ih (@Walked.back before [p] gap h) hgap)

/-- Leaving out what stands in front leaves out the same of both texts. -/
theorem Cleared.strip (h : Cleared x y) : Cleared (stripComments x) (stripComments y) := by
  obtain ⟨a, b, ps, gap, hwalk, hquiet, hgap, rfl, rfl⟩ := h
  induction ps generalizing a b with
  | nil =>
    rw [List.nil_append] at hwalk ⊢
    rw [stripComments_unsolids hwalk hgap, quiet_nil, textOf_nil, stripComments_nil]
    exact over_nil.cleared
  | cons p ps ih =>
    rw [List.cons_append] at hwalk ⊢
    by_cases hp : p.Solid
    · have hself : Cleared (textOf (p :: (ps ++ gap))) (textOf (quiet (p :: ps))) :=
        ⟨a, b, p :: ps, gap, hwalk, hquiet, hgap, rfl, rfl⟩
      have hcons : quiet (p :: ps) = p :: quiet ps := by rw [quiet_cons, hp.quiet]; rfl
      rw [hcons] at hquiet hself ⊢
      rwa [stripComments_walked hwalk hp, stripComments_walked hquiet hp]
    · obtain ⟨hself, hover⟩ := stripComments_unsolid hwalk hp (textOf (quiet ps))
      rw [quiet_cons] at hquiet ⊢
      rw [hself, textOf_append p.quiet, hover]
      exact ih _ _ (@Walked.back a [p] _ hwalk) hquiet.back

theorem bare_stripComments (cs : List Char) : Bare (stripComments cs) := by
  rw [Bare, trimStart_solid (head_stripComments cs)]
  fun_induction stripComments cs with
  | case1 _ _ _ _ ih => exact ih
  | case2 _ _ _ _ ih => exact ih
  | case3 cs hline hblock =>
    refine Bool.eq_false_iff.mpr fun hcomment => ?_
    simp only [isComment, Bool.or_eq_true, List.isPrefixOf_iff_prefix] at hcomment
    rcases hcomment with ⟨rest, hrest⟩ | ⟨rest, hrest⟩
    · exact hline rest hrest.symm
    · exact hblock rest hrest.symm

theorem Cleared.led_strip (h : Cleared x y) : Led (stripComments x) (stripComments y) :=
  h.strip.led (bare_stripComments x) (head_stripComments x)

theorem Bare.strip (h : Bare x) : stripComments x = trimStart x := by
  rw [Bare] at h
  rw [stripComments]
  split
  next heq => rw [heq] at h; simp [isComment] at h
  next heq => rw [heq] at h; simp [isComment] at h
  next => rfl

/-- Where the comments are overwritten, leaving out blanks leaves out all there is. -/
theorem stripComments_quiet {before : Option Char} {ps : List Piece}
    (h : Walked before (quiet ps)) :
    stripComments (textOf (quiet ps)) = trimStart (textOf (quiet ps)) := by
  have hnone : ∀ text, .skipped text ∈ quiet ps → isComment text = false := by
    intro text hmem
    obtain ⟨p, -, hp⟩ := List.mem_flatMap.mp hmem
    cases p with
    | code c => simp [Piece.quiet] at hp
    | skipped body =>
      rw [Piece.quiet] at hp
      split at hp
      next => simp at hp
      next hcomment =>
        obtain rfl : text = body := by simpa using hp
        simpa using hcomment
  generalize quiet ps = qs at *
  induction qs generalizing before with
  | nil => exact stripComments_nil
  | cons p qs ih =>
    by_cases hp : p.Solid
    · obtain ⟨c, text, htext, hc⟩ := h.exists_head hp
      have hhead : ∀ d ∈ (textOf (p :: qs)).head?, isBlank d = false := by
        simpa [htext] using hc
      rw [stripComments_walked h hp, trimStart_solid hhead]
    · cases p with
      | skipped text => exact absurd (hnone text (by simp)) hp
      | code c =>
        have hblank : Blank [c] := by simpa [Piece.Solid, Blank] using hp
        have htrim : trimStart (textOf (.code c :: qs)) = trimStart (textOf qs) :=
          trimStart_blank hblank (textOf qs)
        rw [stripComments_congr htrim, htrim]
        exact ih (walked_code.mp h).2 fun text hmem => hnone text (List.mem_cons_of_mem _ hmem)

/-- Where no comment follows the blanks, leaving out blanks leaves out the same of both texts. -/
theorem Cleared.trim (h : Cleared x y) (hbare : Bare x) : Cleared (trimStart x) (trimStart y) := by
  have hstrip := h.strip
  obtain ⟨a, b, ps, gap, -, hquiet, -, -, rfl⟩ := h
  rwa [hbare.strip, stripComments_quiet hquiet] at hstrip

theorem Cleared.led_trim (h : Cleared x y) (hbare : Bare x) : Led (trimStart x) (trimStart y) := by
  have hled := h.led_strip
  obtain ⟨a, b, ps, gap, -, hquiet, -, -, rfl⟩ := h
  rwa [hbare.strip, stripComments_quiet hquiet] at hled

/-! ### Words -/

theorem Cleared.eq_nil (h : Cleared [] y) : y = [] := by
  obtain ⟨a, b, ps, gap, hwalk, -, -, htext, rfl⟩ := h
  obtain ⟨rfl, -⟩ := List.append_eq_nil_iff.mp (hwalk.eq_nil htext.symm)
  rfl

/-- The first character of `y` is that of `x`, or a blank. -/
theorem Cleared.head (h : Cleared x y) :
    ∀ c ∈ y.head?, x.head? = some c ∨ isBlank c = true := by
  obtain ⟨a, b, ps, gap, hwalk, -, -, rfl, rfl⟩ := h
  intro c hc
  rcases hwalk.front.head_quiet c hc with hself | rfl | rfl
  · exact .inl (by rw [textOf_append, List.head?_append, hself]; rfl)
  · exact .inr (by decide)
  · exact .inr (by decide)

/-- Where no comment stands in front, both texts start alike, unless nothing of `x` is left. -/
theorem Cleared.head_eq (h : Cleared x y) (hbare : Bare x) (hy : y ≠ []) : y.head? = x.head? := by
  by_cases hblank : ∃ c ∈ x.head?, isBlank c = true
  · obtain ⟨c, hc, hblank⟩ := hblank
    obtain ⟨a, b, ps, gap, hwalk, -, -, rfl, rfl⟩ := h
    cases ps with
    | nil => exact absurd rfl hy
    | cons p ps =>
      cases p with
      | code c => rfl
      | skipped text =>
        obtain ⟨d, body, rfl, hd, -⟩ := (walked_skipped.mp hwalk).1.head
        obtain rfl : d = c := Option.some.inj hc
        rw [hblank] at hd
        cases hd
  · exact (h.led hbare fun c hc => by simpa using fun hb => hblank ⟨c, hc, hb⟩).head_eq

/-- A character that is no blank and opens no stretch comes first in both texts. -/
theorem Cleared.next {c : Char} (h : Cleared (c :: x) y) (hblank : isBlank c = false)
    (hc : c ∉ openers) : ∃ y', y = c :: y' ∧ Cleared x y' := by
  have hbare : Bare (c :: x) := by
    have hslash : c ≠ '/' := by
      rintro rfl
      exact hc (by decide)
    rw [Bare, trimStart_solid (by simpa using hblank)]
    exact isComment_of_ne hslash x
  rcases (h.led hbare (by simpa using hblank)).head hc with ⟨a, b, u, v, hx, rfl, hrest⟩ | ⟨hx, -⟩
  · exact ⟨v, rfl, _, _, (List.cons.inj hx).2 ▸ hrest⟩
  · exact absurd rfl hx

theorem run_stop {p : Char → Bool} {cs : List Char} (h : ∀ c ∈ cs.head?, p c = false) :
    cs.takeWhile p = [] ∧ cs.dropWhile p = cs := by
  cases cs with
  | nil => exact ⟨rfl, rfl⟩
  | cons c cs => simp [h c rfl]

/-- A run of characters that are neither blanks nor signs is the same in both texts. -/
theorem Cleared.run {p : Char → Bool} (hblank : ∀ c, p c = true → isBlank c = false)
    (hsign : ∀ c ∈ signs, p c = false) (h : Cleared x y) :
    y.takeWhile p = x.takeWhile p ∧ Cleared (x.dropWhile p) (y.dropWhile p) := by
  have hstop {x y : List Char} (h : Cleared x y) (hx : ∀ c ∈ x.head?, p c = false) :
      y.takeWhile p = x.takeWhile p ∧ Cleared (x.dropWhile p) (y.dropWhile p) := by
    have hy : ∀ c ∈ y.head?, p c = false := by
      intro c hc
      rcases h.head c hc with hself | hc
      · exact hx c hself
      · exact Bool.eq_false_iff.mpr fun hp => by rw [hblank c hp] at hc; cases hc
    rw [(run_stop hx).1, (run_stop hx).2, (run_stop hy).1, (run_stop hy).2]
    exact ⟨rfl, h⟩
  induction x generalizing y with
  | nil => exact hstop h (by simp)
  | cons c x ih =>
    cases hc : p c with
    | false => exact hstop h fun d hd => Option.some.inj hd ▸ hc
    | true =>
      have hopener : c ∉ openers := fun hmem => by
        rw [hsign c (mem_signs_of_mem_openers c hmem)] at hc
        cases hc
      obtain ⟨y, rfl, hrest⟩ := h.next (hblank c hc) hopener
      simpa [hc] using ih hrest

theorem solid_of_isIdentChar {c : Char} (h : isIdentChar c = true) :
    isBlank c = false ∧ c ∉ openers := by
  refine ⟨isBlank_of_isIdentChar h, fun hmem => ?_⟩
  rw [isIdentChar_of_mem_signs c (mem_signs_of_mem_openers c hmem)] at h
  cases h

theorem isPrefixOf_append (word rest : List Char) : word.isPrefixOf (word ++ rest) = true :=
  List.isPrefixOf_iff_prefix.mpr (List.prefix_append ..)

/-- A word of such characters starts both texts, or neither. -/
theorem Cleared.word (word : List Char) (hword : ∀ c ∈ word, isBlank c = false ∧ c ∉ openers)
    (h : Cleared x y) :
    (word.isPrefixOf x = false ∧ word.isPrefixOf y = false) ∨
      ∃ x' y', x = word ++ x' ∧ y = word ++ y' ∧ Cleared x' y' := by
  induction word generalizing x y with
  | nil => exact .inr ⟨x, y, rfl, rfl, h⟩
  | cons c word ih =>
    obtain ⟨⟨hblank, hc⟩, hword⟩ := List.forall_mem_cons.mp hword
    have hother {cs : List Char} (hcs : cs.head? ≠ some c) : (c :: word).isPrefixOf cs = false := by
      cases cs with
      | nil => rfl
      | cons d cs =>
        have hd : c ≠ d := fun heq => hcs (congrArg some heq.symm)
        simp [List.isPrefixOf, hd]
    by_cases hx : x.head? = some c
    · obtain ⟨x, rfl⟩ := List.head?_eq_some_iff.mp hx
      obtain ⟨y, rfl, hrest⟩ := h.next hblank hc
      rcases ih hword hrest with ⟨hself, hover⟩ | ⟨x', y', rfl, rfl, hmore⟩
      · exact .inl ⟨by simpa using hself, by simpa using hover⟩
      · exact .inr ⟨x', y', rfl, rfl, hmore⟩
    · refine .inl ⟨hother hx, hother fun hy => ?_⟩
      rcases h.head c hy with hself | hb
      · exact hx hself
      · rw [hblank] at hb
        cases hb

end

/-! ### Brackets -/

/-- No bracket is closed among blanks and comments. -/
theorem untilClosing_unsolid {gap : List Piece} (h : ∀ p ∈ gap, ¬ p.Solid) (depth : Nat) :
    untilClosing depth gap = none := by
  induction gap with
  | nil => rfl
  | cons g gap ih =>
    obtain ⟨hg, hrest⟩ := List.forall_mem_cons.mp h
    cases g with
    | skipped text =>
      rw [untilClosing, ih hrest]
      rfl
    | code c =>
      have hc : isBlank c = true := by simpa [Piece.Solid] using hg
      have hword := isPlainWord_of_isBlank hc
      simp only [isPlainWord, isPlain, Bool.and_eq_true, Bool.not_eq_true'] at hword
      rw [untilClosing_plain hword.1.1.2 hword.1.2, ih hrest]
      rfl

/-- What a bracket encloses is over, and behind it the texts are cleared. -/
theorem ClearedFrom.enclosed? (bracket : Bracket) {x y : List Char}
    (h : ClearedFrom (some bracket.opening) (some bracket.opening) x y) :
    Option.Rel (fun c d => Over c.1 d.1 ∧ Cleared c.2 d.2) (enclosed? bracket.opening x)
      (enclosed? bracket.opening y) := by
  obtain ⟨ps, gap, hwalk, hquiet, hgap, rfl, rfl⟩ := h
  have hmore : untilClosing 0 (ps ++ gap) =
      (untilClosing 0 ps).map fun cut => (cut.1, cut.2 ++ textOf gap) := by
    obtain ⟨inside, c, after, rfl, hclose⟩ | ⟨d, hclose⟩ := untilClosing_append 0 ps
    · have hself := hclose []
      rw [List.append_nil, List.append_nil] at hself
      rw [hclose, hself, textOf_append]
      rfl
    · have hself := hclose []
      rw [List.append_nil] at hself
      rw [hclose, hself, untilClosing_unsolid hgap]
      rfl
  have hb : opensRegex none = opensRegex (some bracket.opening) := by cases bracket <;> rfl
  rw [Source.enclosed?, Source.enclosed?, hwalk, hquiet, hmore]
  obtain ⟨hnone, hnone'⟩ | ⟨inside, c, after, rfl, hsome, hsome'⟩ := untilClosing_quiet 0 ps
  · rw [hnone, hnone']
    exact .none
  · rw [hsome, hsome']
    rw [quiet_append, quiet_code] at hquiet
    rw [List.append_assoc] at hwalk
    refine .some ⟨⟨inside, hwalk.front.congr hb.symm, hquiet.front.congr hb.symm, rfl, rfl⟩, ?_⟩
    have hback := (walked_code.mp hwalk.back).2
    have hback' := (walked_code.mp hquiet.back).2
    exact ⟨_, _, after, gap, hback, hback', hgap, (textOf_append after gap).symm, rfl⟩

end RouteScaffold.Source
