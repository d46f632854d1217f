import Mathlib.Data.List.Induction
import RouteScaffold.Proofs.Source.Cleared

/-! The end of a text without its comments.

When the end of a text is trimmed, a comment there stays, while its blanks go where it
is overwritten. What is left is cleared still (`Cleared.trimEnd`): the last solid piece
is the same in both texts, and a string that is left open is trimmed alike. -/
namespace RouteScaffold.Source
open Text

/-- Pieces end in blanks and comments behind a last solid one, or have no solid one. -/
theorem exists_last (ps : List Piece) : ∃ front gap, ps = front ++ gap ∧
    (∀ p ∈ gap, ¬ p.Solid) ∧ ∀ p ∈ front.getLast?, p.Solid := by
  induction ps using List.reverseRecOn with
  | nil => exact ⟨[], [], rfl, by simp, by simp⟩
  | append_singleton ps p ih =>
    by_cases hp : p.Solid
    · exact ⟨ps ++ [p], [], by simp, by simp, by simpa using hp⟩
    · obtain ⟨front, gap, rfl, hgap, hfront⟩ := ih
      have hgap' : ∀ q ∈ gap ++ [p], ¬ q.Solid :=
        List.forall_mem_append.mpr ⟨hgap, List.forall_mem_singleton.mpr hp⟩
      exact ⟨front, gap ++ [p], by simp, hgap', hfront⟩

/-- A stretch that is no comment ends with a solid character, or is a string that is open. -/
theorem Stretch.last {before : Option Char} {cs taken rest : List Char}
    (h : Stretch before cs taken rest) (hcomment : isComment taken = false) :
    (∃ start c, taken = start ++ [c] ∧ isBlank c = false) ∨
      ∃ quote body, isQuote quote = true ∧ taken = quote :: body ∧
        (takeString quote body).2 = [] ∧ rest = [] := by
  cases h with
  | @string quote cs body rest hq h =>
    cases rest with
    | cons d rest =>
      obtain ⟨inner, rfl⟩ := takeString_closed h (by simp)
      exact .inl ⟨quote :: inner, quote, rfl, isBlank_of_isQuote hq⟩
    | nil =>
      have hself := takeString_rest (ne_backslash_of_isQuote hq) h (@id ([] = []))
      rw [List.append_nil] at hself
      exact .inr ⟨quote, body, hq, rfl, congrArg Prod.snd hself, rfl⟩
  | line _ => simp [isComment] at hcomment
  | block _ => simp [isComment] at hcomment
  | regex _ _ h =>
    obtain ⟨inner, flags, rfl, hflags⟩ := takeRegex_closed h
    rcases List.eq_nil_or_concat flags with rfl | ⟨front, flag, rfl⟩
    · exact .inl ⟨'/' :: inner, '/', rfl, isBlank_of_mem_signs '/' (by decide)⟩
    · refine .inl ⟨'/' :: (inner ++ '/' :: front), flag, by simp, ?_⟩
      cases hflag : isBlank flag with
      | false => rfl
      | true =>
        have halpha := hflags flag (by simp)
        rw [isAlpha_of_isBlank hflag] at halpha
        cases halpha

/-- What is open to the end of a text is the only piece of it. -/
theorem pieces_stretch {before : Option Char} {cs taken : List Char}
    (h : Stretch before cs taken []) : pieces before cs = [.skipped taken] := by
  rw [pieces_skip h.skip?, pieces_nil]

theorem Cut.eq_of_nil {cut : Cut} {cs : List Char} (h : cut.text = cs) (hnil : cut.2 = []) :
    cut = (cs, []) := by
  rw [Cut.text, hnil, List.append_nil] at h
  exact Prod.ext h hnil

/-- A string that is open stays open without the blanks at its end. -/
theorem pieces_open {quote : Char} (hq : isQuote quote = true) {body : List Char}
    (h : (takeString quote body).2 = []) (before : Option Char) :
    pieces before (quote :: trimEnd body) = [.skipped (quote :: trimEnd body)] := by
  obtain ⟨gone, hgone⟩ := prefix_trimEnd body
  rw [← hgone] at h
  have hshort := takeString_front (ne_backslash_of_isQuote hq) h
  exact pieces_stretch (.string hq (Cut.eq_of_nil (text_takeString ..) hshort))

/-- A comment stays one without the blanks at its end. -/
theorem Stretch.trimEnd {before : Option Char} {cs taken rest : List Char}
    (h : Stretch before cs taken rest) (hcomment : isComment taken = true) (seen : Option Char) :
    ∃ text, pieces seen (trimEnd taken) = [.skipped text] ∧ isComment text = true := by
  have hslash : isBlank '/' = false := isBlank_of_mem_signs '/' (by decide)
  cases h with
  | string hq _ =>
    rw [isComment_of_ne (ne_slash_of_isQuote hq)] at hcomment
    cases hcomment
  | @line cs body rest h =>
    obtain ⟨gone, hgone⟩ := prefix_trimEnd body
    have hself : takeLine (body ++ []) = (body, []) := takeLine_rest h (by simp)
    rw [List.append_nil, ← hgone] at hself
    have hshort := takeLine_front (congrArg Prod.snd hself)
    have hcut : Text.trimEnd ('/' :: '/' :: body) = _ := trimEnd_solid ['/'] hslash body
    rw [hcut]
    exact ⟨_, pieces_stretch (.line (Cut.eq_of_nil (text_takeLine _) hshort)), rfl⟩
  | @block cs body rest h =>
    obtain ⟨gone, hgone⟩ := prefix_trimEnd body
    have hself : takeBlock (body ++ []) = (body, []) := takeBlock_rest h fun _ => rfl
    rw [List.append_nil, ← hgone] at hself
    have hshort := takeBlock_front (congrArg Prod.snd hself)
    have hcut : Text.trimEnd ('/' :: '*' :: body) = _ := trimEnd_solid ['/'] (by decide) body
    rw [hcut]
    exact ⟨_, pieces_stretch (.block (Cut.eq_of_nil (text_takeBlock _) hshort)), rfl⟩
  | regex _ hfirst h =>
    have hregex := isComment_slash (head_regex hfirst h [])
    rw [List.append_nil, hcomment] at hregex
    cases hregex

/-- Blanks and comments alone stay such without the blanks at their end. -/
theorem unsolid_trimEnd {before : Option Char} {gap : List Piece} (h : Walked before gap)
    (hgap : ∀ p ∈ gap, ¬ p.Solid) : ∀ p ∈ pieces before (trimEnd (textOf gap)), ¬ p.Solid := by
  induction gap generalizing before with
  | nil =>
    intro p hp
    rw [show trimEnd (textOf []) = [] from rfl, pieces_nil] at hp
    cases hp
  | cons g gap ih =>
    obtain ⟨hg, hrest⟩ := List.forall_mem_cons.mp hgap
    have hwalk : Walked (lastSolid before g.text) gap := by
      have hback := @Walked.back before [g] gap h
      rwa [textOf_cons, textOf_nil, List.append_nil] at hback
    rw [textOf_cons]
    rcases blank_or_solid (textOf gap) with hblank | ⟨front, c, rest, htext, -, hc⟩
    · rw [trimEnd_blank _ hblank]
      cases g with
      | code c =>
        have hc : Blank [c] := by simpa [Piece.Solid, Blank] using hg
        rw [Piece.text, hc.trimEnd, pieces_nil]
        simp
      | skipped text =>
        have hcomment : isComment text = true := by simpa [Piece.Solid] using hg
        obtain ⟨short, hpieces, hshort⟩ := (walked_skipped.mp h).1.trimEnd hcomment before
        rw [Piece.text, hpieces]
        simpa [Piece.Solid] using hshort
    · have hcut : trimEnd (g.text ++ textOf gap) = g.text ++ trimEnd (textOf gap) := by
        rw [htext, ← List.append_assoc, trimEnd_solid _ hc, trimEnd_solid _ hc, List.append_assoc]
      have hshort := @Walked.shorten before [g] gap h _ (prefix_trimEnd (textOf gap))
      rw [Walked, textOf_append, textOf_pieces, textOf_cons, textOf_nil, List.append_nil] at hshort
      rw [hcut, hshort, List.singleton_append, List.forall_mem_cons]
      exact ⟨hg, ih hwalk hrest⟩

theorem blank_quiet {gap : List Piece} (h : ∀ p ∈ gap, ¬ p.Solid) : Blank (textOf (quiet gap)) := by
  induction gap with
  | nil => simp [Blank]
  | cons g gap ih =>
    obtain ⟨hg, hrest⟩ := List.forall_mem_cons.mp h
    rw [quiet_cons, textOf_append]
    refine List.forall_mem_append.mpr ⟨?_, ih hrest⟩
    cases g with
    | code c => simpa [Piece.Solid, Piece.quiet, Piece.text] using hg
    | skipped text =>
      have hcomment : isComment text = true := by simpa [Piece.Solid] using hg
      rw [Piece.quiet, if_pos hcomment, textOf_map_code]
      intro c hc
      rcases mem_blanked hc with rfl | rfl <;> decide

section
variable {a b : Option Char} {front gap : List Piece}

/-- Behind a piece with a solid end, only what is left out anyway is trimmed. -/
theorem clearedFrom_trimEnd {p : Piece} (hp : p.Solid)
    (hend : ∃ start c, p.text = start ++ [c] ∧ isBlank c = false)
    (h : Walked a (front ++ [p] ++ gap)) (h' : Walked b (quiet front ++ [p]))
    (hgap : ∀ q ∈ gap, ¬ q.Solid) :
    ClearedFrom a b (trimEnd (textOf (front ++ [p] ++ gap)))
      (trimEnd (textOf (quiet front ++ [p]))) := by
  obtain ⟨start, c, htext, hc⟩ := hend
  have hcut (qs : List Piece) (rest : List Char) :
      trimEnd (textOf (qs ++ [p]) ++ rest) = textOf (qs ++ [p]) ++ trimEnd rest := by
    have hsolid := trimEnd_solid (textOf qs ++ start) hc rest
    simpa [htext] using hsolid
  have hself := hcut (quiet front) []
  have hquiet : quiet (front ++ [p]) = quiet front ++ [p] := by
    rw [quiet_append, quiet_cons, hp.quiet]
    rfl
  rw [List.append_nil, show trimEnd [] = [] from rfl, List.append_nil] at hself
  rw [textOf_append (front ++ [p]), hcut, hself]
  refine ⟨front ++ [p], pieces _ (trimEnd (textOf gap)), h.shorten (prefix_trimEnd _),
    hquiet ▸ h', unsolid_trimEnd h.back hgap, ?_, by rw [hquiet]⟩
  rw [textOf_append (front ++ [p]), textOf_pieces]

/-- A string that is open is trimmed alike in both texts. -/
theorem clearedFrom_open {quote : Char} (hq : isQuote quote = true) {body : List Char}
    (hopen : (takeString quote body).2 = [])
    (h : Walked a (front ++ [.skipped (quote :: body)]))
    (h' : Walked b (quiet front ++ [.skipped (quote :: body)])) :
    ClearedFrom a b (trimEnd (textOf (front ++ [.skipped (quote :: body)])))
      (trimEnd (textOf (quiet front ++ [.skipped (quote :: body)]))) := by
  have hcut (qs : List Piece) : trimEnd (textOf (qs ++ [.skipped (quote :: body)])) =
      textOf (qs ++ [.skipped (quote :: trimEnd body)]) := by
    have hsolid := trimEnd_solid (textOf qs) (isBlank_of_isQuote hq) body
    simpa [Piece.text] using hsolid
  have hshort {a : Option Char} {qs : List Piece}
      (h : Walked a (qs ++ [.skipped (quote :: body)])) :
      Walked a (qs ++ [.skipped (quote :: trimEnd body)]) := by
    have hstarts : quote :: trimEnd body <+: textOf [.skipped (quote :: body)] := by
      simpa [Piece.text] using prefix_trimEnd body
    have hwalk := h.shorten hstarts
    rwa [pieces_open hq hopen] at hwalk
  have hcomment : isComment (quote :: trimEnd body) = false :=
    isComment_of_ne (ne_slash_of_isQuote hq) _
  have hquiet : quiet (front ++ [.skipped (quote :: trimEnd body)]) =
      quiet front ++ [.skipped (quote :: trimEnd body)] := by
    rw [quiet_append, quiet_skipped hcomment]
    rfl
  rw [hcut, hcut]
  refine ⟨front ++ [.skipped (quote :: trimEnd body)], [], ?_, hquiet ▸ hshort h', by simp, ?_,
    by rw [hquiet]⟩
  · rw [List.append_nil]
    exact hshort h
  · rw [List.append_nil]

end

/-- Leaving out the blanks at the end leaves cleared texts. -/
theorem Cleared.trimEnd {x y : List Char} (h : Cleared x y) :
    Cleared (trimEnd x) (trimEnd y) := by
  obtain ⟨a, b, ps, gap, hwalk, hquiet, hgap, rfl, rfl⟩ := h
  obtain ⟨front, inner, rfl, hinner, hlast⟩ := exists_last ps
  have hgap : ∀ p ∈ inner ++ gap, ¬ p.Solid := List.forall_mem_append.mpr ⟨hinner, hgap⟩
  rw [List.append_assoc] at hwalk ⊢
  rw [quiet_append] at hquiet ⊢
  rw [textOf_append (quiet front), trimEnd_blank _ (blank_quiet hinner)]
  generalize inner ++ gap = gap at *
  have hquiet := hquiet.front
  rcases List.eq_nil_or_concat front with rfl | ⟨front, p, rfl⟩
  · exact ⟨a, b, [], pieces a (Text.trimEnd (textOf gap)), walked_pieces a _, hquiet,
      unsolid_trimEnd hwalk hgap, by rw [List.nil_append, List.nil_append, textOf_pieces], rfl⟩
  · rw [List.concat_eq_append] at hlast hwalk hquiet ⊢
    have hp : p.Solid := hlast p (by simp)
    rw [quiet_append, quiet_cons, hp.quiet] at hquiet ⊢
    cases p with
    | code c => exact ⟨a, b, clearedFrom_trimEnd hp ⟨[], c, rfl, hp⟩ hwalk hquiet hgap⟩
    | skipped text =>
      rw [List.append_assoc] at hwalk
      have hmiddle := hwalk.back
      rw [← List.append_assoc] at hwalk
      obtain ⟨hstretch, hback⟩ := walked_skipped.mp hmiddle
      rcases hstretch.last hp with hend | ⟨quote, body, hq, rfl, hopen, hnil⟩
      · exact ⟨a, b, clearedFrom_trimEnd hp hend hwalk hquiet hgap⟩
      · obtain rfl : gap = [] := hback.eq_nil hnil
        rw [List.append_nil] at hwalk ⊢
        exact ⟨a, b, clearedFrom_open hq hopen hwalk hquiet⟩

end RouteScaffold.Source
