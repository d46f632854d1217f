import Mathlib.Data.List.Forall2
import RouteScaffold.Proofs.Source.Comments

/-! Walks over overwritten texts.

To the walks a comment and the blanks it is overwritten with are the same: what a
bracket encloses (`enclosed?_over`), the parts between commas (`commaParts_over`) and
the object literal of a declaration (`objectBody?_over`) are those of the text,
overwritten. -/
namespace RouteScaffold.Source
open Text

/-- `b` is `a` with its comments overwritten, and cut into the same pieces. -/
def Over (a b : List Char) : Prop :=
  ∃ ps, Walked none ps ∧ Walked none (quiet ps) ∧ a = textOf ps ∧ b = textOf (quiet ps)

theorem over_withoutComments {cs : List Char} (h : Calm none none (pieces none cs)) :
    Over cs (withoutComments cs) :=
  ⟨pieces none cs, walked_pieces none cs, walked_quiet (walked_pieces none cs) h,
    (textOf_pieces none cs).symm, rfl⟩

theorem lastSolid_of_opens {c : Char} (h : opensRegex (some c) = true) (before : Option Char)
    (text : List Char) : lastSolid before (text ++ [c]) = some c := by
  have hsolid : ∀ d ∈ beforeRegex, isAsciiBlank d = false := List.all_iff_forall_prop.mp (by decide)
  exact lastSolid_concat before text (hsolid c (List.contains_iff_mem.mp h))

/-- Behind a character that a regular expression can follow, a walk starts anew. -/
theorem over_behind {front rest : List Piece} {c : Char} (hc : opensRegex (some c) = true)
    (h : Walked none (front ++ .code c :: rest))
    (h' : Walked none (quiet (front ++ .code c :: rest))) :
    Over (textOf rest) (textOf (quiet rest)) := by
  have hback {front rest : List Piece} (h : Walked none (front ++ .code c :: rest)) :
      Walked none rest := by
    have hsplit : front ++ .code c :: rest = (front ++ [.code c]) ++ rest := by simp
    rw [hsplit] at h
    have hlast : lastSolid none (textOf (front ++ [.code c])) = some c := by
      rw [textOf_append]
      exact lastSolid_of_opens hc none (textOf front)
    exact (hlast ▸ h.back).congr hc
  rw [quiet_append, quiet_code] at h'
  exact ⟨rest, hback h, hback h', rfl, rfl⟩

/-! ### Brackets -/

theorem nested_blanks {blank : List Char} (h : ∀ c ∈ blank, c = ' ' ∨ c = '\n') (commas : Bool) :
    Nested commas (blank.map .code) := by
  induction blank with
  | nil => exact .nil
  | cons c blank ih =>
    have hrest := ih fun d hd => h d (List.mem_cons_of_mem c hd)
    rcases h c (List.mem_cons_self ..) with rfl | rfl <;>
      exact .code rfl rfl (fun hcomma => absurd hcomma (by decide)) hrest

/-- A piece of code closes the bracket that is looked for, or the search goes on behind it. -/
theorem untilClosing_code (depth : Nat) (c : Char) :
    (∀ ps, untilClosing depth (.code c :: ps) = some ([], textOf ps)) ∨
    ∃ d, ∀ ps, untilClosing depth (.code c :: ps) = (untilClosing d ps).map (.cons c) := by
  by_cases ho : isOpening c = true
  · exact .inr ⟨depth + 1, fun ps => by cases depth <;> simp [untilClosing, ho]⟩
  · by_cases hc : isClosing c = true
    · cases depth with
      | zero => exact .inl fun ps => by simp [untilClosing, ho, hc]
      | succ d => exact .inr ⟨d, fun ps => by simp [untilClosing, ho, hc]⟩
    · exact .inr ⟨depth, fun ps => by cases depth <;> simp [untilClosing, ho, hc]⟩

/-- The closing bracket stands among the first pieces, or is looked for behind them. -/
theorem untilClosing_append (depth : Nat) (ps : List Piece) :
    (∃ inside c after, ps = inside ++ .code c :: after ∧
      ∀ more, untilClosing depth (ps ++ more) = some (textOf inside, textOf (after ++ more))) ∨
    ∃ d, ∀ more, untilClosing depth (ps ++ more) =
      (untilClosing d more).map (Cut.prepend (textOf ps)) := by
  induction ps generalizing depth with
  | nil =>
    refine .inr ⟨depth, fun more => ?_⟩
    have hprepend : Cut.prepend (textOf []) = id := rfl
    rw [hprepend, Option.map_id, List.nil_append]
    rfl
  | cons p ps ih =>
    cases p with
    | skipped text =>
      obtain ⟨inside, c, after, rfl, hclose⟩ | ⟨d, hclose⟩ := ih depth
      · refine .inl ⟨.skipped text :: inside, c, after, rfl, fun more => ?_⟩
        rw [List.cons_append, untilClosing, hclose]
        rfl
      · refine .inr ⟨d, fun more => ?_⟩
        rw [List.cons_append, untilClosing, hclose, Option.map_map]
        congr 1
        funext cut
        simp [Cut.prepend, Piece.text]
    | code c =>
      rcases untilClosing_code depth c with hcode | ⟨d, hcode⟩
      · exact .inl ⟨[], c, ps, rfl, fun more => hcode (ps ++ more)⟩
      · obtain ⟨inside, e, after, rfl, hclose⟩ | ⟨d', hclose⟩ := ih d
        · refine .inl ⟨.code c :: inside, e, after, rfl, fun more => ?_⟩
          rw [List.cons_append, hcode, hclose]
          rfl
        · refine .inr ⟨d', fun more => ?_⟩
          rw [List.cons_append, hcode, hclose, Option.map_map]
          rfl

/-- Both texts end at the same closing bracket, or neither is closed. -/
theorem untilClosing_quiet (depth : Nat) (ps : List Piece) :
    (untilClosing depth ps = none ∧ untilClosing depth (quiet ps) = none) ∨
    ∃ inside c after, ps = inside ++ .code c :: after ∧
      untilClosing depth ps = some (textOf inside, textOf after) ∧
      untilClosing depth (quiet ps) = some (textOf (quiet inside), textOf (quiet after)) := by
  induction ps generalizing depth with
  | nil => exact .inl ⟨rfl, rfl⟩
  | cons p ps ih =>
    cases p with
    | skipped text =>
      have hquiet : Nested true (Piece.skipped text).quiet := by
        rw [Piece.quiet]
        split
        next => exact nested_blanks (fun c => mem_blanked) true
        next => exact .skipped .nil
      have hclose := untilClosing_nested hquiet depth (quiet ps)
      obtain ⟨hnone, hnone'⟩ | ⟨inside, e, after, rfl, hsome, hsome'⟩ := ih depth
      · refine .inl ⟨?_, ?_⟩
        · rw [untilClosing, hnone]
          rfl
        · rw [quiet_cons, hclose, hnone']
          rfl
      · refine .inr ⟨.skipped text :: inside, e, after, rfl, ?_, ?_⟩
        · rw [untilClosing, hsome]
          rfl
        · rw [quiet_cons, hclose, hsome', quiet_cons, textOf_append]
          rfl
    | code c =>
      rcases untilClosing_code depth c with hcode | ⟨d, hcode⟩
      · exact .inr ⟨[], c, ps, rfl, hcode ps, hcode (quiet ps)⟩
      · obtain ⟨hnone, hnone'⟩ | ⟨inside, e, after, rfl, hsome, hsome'⟩ := ih d
        · exact .inl ⟨by rw [hcode, hnone]; rfl, by rw [quiet_code, hcode, hnone']; rfl⟩
        · exact .inr ⟨.code c :: inside, e, after, rfl, by rw [hcode, hsome]; rfl,
            by rw [quiet_code, hcode, hsome']; rfl⟩

theorem enclosed?_over (b : Bracket) {x y : List Char} (h : Over x y) :
    Option.Rel Over ((enclosed? b.opening x).map Prod.fst)
      ((enclosed? b.opening y).map Prod.fst) := by
  obtain ⟨ps, hp, hq, rfl, rfl⟩ := h
  have hb : opensRegex none = opensRegex (some b.opening) := by cases b <;> rfl
  have hclose := hp.congr hb
  have hclose' := hq.congr hb
  rw [Walked] at hclose hclose'
  rw [enclosed?, enclosed?, hclose, hclose']
  obtain ⟨hnone, hnone'⟩ | ⟨inside, c, after, rfl, hsome, hsome'⟩ := untilClosing_quiet 0 ps
  · rw [hnone, hnone']
    exact .none
  · rw [hsome, hsome']
    rw [quiet_append] at hq
    exact .some ⟨inside, hp.front, hq.front, rfl, rfl⟩

/-! ### Commas -/

theorem splitAtCommas_blanks {blank : List Char} (h : ∀ c ∈ blank, c = ' ' ∨ c = '\n') (level : Int)
    (ps : List Piece) :
    splitAtCommas level (blank.map .code ++ ps) = prepend blank (splitAtCommas level ps) := by
  induction blank with
  | nil => exact (prepend_nil (splitAtCommas_ne_nil level ps)).symm
  | cons c blank ih =>
    have hrest := ih fun d hd => h d (List.mem_cons_of_mem c hd)
    have hc : c ≠ ',' ∧ levelChange c = 0 := by
      rcases h c (List.mem_cons_self ..) with rfl | rfl <;> decide
    rw [List.map_cons, List.cons_append, splitAtCommas, hc.2, Int.add_zero, hrest, prepend_prepend]
    simp [hc.1]

/-- Both texts are split at the same commas. -/
theorem splitAtCommas_quiet {a b : Option Char} {ps : List Piece} (level : Int) (h : Walked a ps)
    (h' : Walked b (quiet ps)) :
    ∃ part back xs ys, ps = part ++ back ∧ splitAtCommas level ps = textOf part :: xs ∧
      splitAtCommas level (quiet ps) = textOf (quiet part) :: ys ∧ List.Forall₂ Over xs ys := by
  induction ps generalizing a b level with
  | nil => exact ⟨[], [], [], [], rfl, rfl, rfl, .nil⟩
  | cons p ps ih =>
    cases p with
    | skipped text =>
      have hrest' : Walked (lastSolid b (textOf (Piece.skipped text).quiet)) (quiet ps) := h'.back
      obtain ⟨part, back, xs, ys, rfl, hxs, hys, hover⟩ := ih level (walked_skipped.mp h).2 hrest'
      refine ⟨.skipped text :: part, back, xs, ys, rfl, ?_, ?_, hover⟩
      · rw [splitAtCommas, hxs]
        rfl
      · cases hcomment : isComment text with
        | true =>
          rw [quiet_comment hcomment, splitAtCommas_blanks fun c => mem_blanked, hys,
            quiet_comment hcomment, textOf_append, textOf_map_code]
          rfl
        | false =>
          rw [quiet_skipped hcomment, splitAtCommas, hys, quiet_skipped hcomment]
          rfl
    | code c =>
      have hrest := (walked_code.mp h).2
      have hrest' : Walked (lastSolid b [c]) (quiet ps) := (walked_code.mp h').2
      by_cases hcomma : (c == ',' && level == 0) = true
      · obtain ⟨rfl, -⟩ : c = ',' ∧ level = 0 := by simpa using hcomma
        obtain ⟨part, back, xs, ys, rfl, hxs, hys, hover⟩ := ih level hrest hrest'
        rw [quiet_append] at hrest'
        have hpart : Over (textOf part) (textOf (quiet part)) :=
          ⟨part, hrest.front.congr rfl, hrest'.front.congr rfl, rfl, rfl⟩
        refine ⟨[], .code ',' :: (part ++ back), textOf part :: xs, textOf (quiet part) :: ys, rfl,
          ?_, ?_, .cons hpart hover⟩
        · rw [splitAtCommas, if_pos hcomma, hxs]
          rfl
        · rw [quiet_code, splitAtCommas, if_pos hcomma, hys]
          rfl
      · obtain ⟨part, back, xs, ys, rfl, hxs, hys, hover⟩ := ih (level + levelChange c) hrest hrest'
        refine ⟨.code c :: part, back, xs, ys, rfl, ?_, ?_, hover⟩
        · rw [splitAtCommas, if_neg hcomma, hxs]
          rfl
        · rw [quiet_code, splitAtCommas, if_neg hcomma, hys]
          rfl

theorem commaParts_over {x y : List Char} (h : Over x y) :
    List.Forall₂ Over (commaParts x) (commaParts y) := by
  obtain ⟨ps, hp, hq, rfl, rfl⟩ := h
  obtain ⟨part, back, xs, ys, rfl, hxs, hys, hrest⟩ := splitAtCommas_quiet 0 hp hq
  rw [quiet_append] at hq
  have hfirst : Over (textOf part) (textOf (quiet part)) := ⟨part, hp.front, hq.front, rfl, rfl⟩
  rw [← quiet_append] at hq
  rw [commaParts, commaParts, hp, hq, hxs, hys]
  exact .cons hfirst hrest

/-! ### Declarations -/

/-- What a reader that stops behind an opening bracket leaves is enclosed alike. -/
theorem taken_over {take? : List Cell → Option (List Cell)} (b : Bracket) (hblind : Blind take?)
    (hlands : Lands b.opening take?) {x y : List Char} (h : Over x y) :
    Option.Rel Over
      ((take? (mask x)).bind fun rest => (enclosed? b.opening (sourceOf rest)).map Prod.fst)
      ((take? (mask y)).bind fun rest => (enclosed? b.opening (sourceOf rest)).map Prod.fst) := by
  obtain ⟨ps, hp, hq, rfl, rfl⟩ := h
  have hsolid : isBlank b.opening = false := by cases b <;> decide
  have hopens : opensRegex (some b.opening) = true := by cases b <;> rfl
  rw [mask, mask, hp, hq]
  obtain ⟨hnone, hnone'⟩ | ⟨front, rest, rfl, hsome, hsome'⟩ := exists_taken hblind hlands hsolid ps
  · rw [hnone, hnone']
    exact .none
  · rw [hsome, hsome']
    simp only [Option.bind_some, sourceOf_cells]
    exact enclosed?_over b (over_behind hopens hp hq)

theorem objectBody?_over {x y : List Char} (h : Over x y) (name : List Char) (opening : Opening) :
    Option.Rel Over (objectBody? x name opening) (objectBody? y name opening) := by
  rw [objectBody?_eq, objectBody?_eq]
  exact taken_over .curly (blind_search (blind_declared name opening))
    (lands_search (lands_declared name opening)) h

theorem validatorArguments?_over {x y : List Char} (h : Over x y) :
    Option.Rel Over (validatorArguments? x) (validatorArguments? y) := by
  have hsearch := blind_search ((blind_word validatorName.toList).bind blind_equals)
  rw [validatorArguments?_eq, validatorArguments?_eq]
  exact taken_over .round (hsearch.bind blind_toArguments) (.bind hsearch lands_toArguments) h

end RouteScaffold.Source
