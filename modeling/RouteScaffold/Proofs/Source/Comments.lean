import RouteScaffold.Proofs.Source.Finding
import RouteScaffold.Proofs.Source.Pieces
import RouteScaffold.Proofs.Source.Readers
import RouteScaffold.Proofs.Source.Walks

/-! Comments, overwritten.

Every comment that the walk over a text meets is overwritten with blanks, its line
breaks kept (`withoutComments`). A comment is also what the walk looks back at when
it meets a slash, so overwriting it may turn a division into a regular expression
or back; `Calm` says that it does not. Then overwriting changes no other piece
(`walked_quiet`). The masked copy looks the same in any case, and a reader of it that
stops behind a solid column stops behind the same piece (`exists_taken`). -/
namespace RouteScaffold.Source
open Text

/-! ### Overwriting -/

/-- What a stretch shows on the masked copy: a blank for each of its bytes, and its line breaks. -/
def blanked (text : List Char) : List Char := shown (text.flatMap hide)

/-- A comment becomes blanks of code; any other piece stays. -/
def Piece.quiet : Piece → List Piece
  | .skipped text => if isComment text then (blanked text).map .code else [.skipped text]
  | .code c => [.code c]

def quiet (ps : List Piece) : List Piece := ps.flatMap Piece.quiet

/-- The text with each of its comments overwritten. -/
def withoutComments (cs : List Char) : List Char := textOf (quiet (pieces none cs))

/-- No comment among the pieces decides what a slash behind it opens. `before` is the last solid
character of all, `seen` the last one outside comments: a regular expression could stand behind
either, and behind neither a slash of code. -/
def Calm (before seen : Option Char) : List Piece → Prop
  | [] => True
  | .skipped text :: ps =>
    if isComment text then Calm (lastSolid before text) seen ps
    else (text.head? = some '/' → opensRegex seen = true) ∧
      Calm (lastSolid before text) (lastSolid seen text) ps
  | .code c :: ps =>
    (c = '/' → opensRegex before = false ∧ opensRegex seen = false) ∧
      Calm (lastSolid before [c]) (lastSolid seen [c]) ps

instance decidableCalm (before seen : Option Char) : (ps : List Piece) →
    Decidable (Calm before seen ps)
  | [] => inferInstanceAs (Decidable True)
  | .skipped text :: ps =>
    have := decidableCalm (lastSolid before text) seen ps
    have := decidableCalm (lastSolid before text) (lastSolid seen text) ps
    inferInstanceAs (Decidable (if isComment text then _ else _ ∧ _))
  | .code c :: ps =>
    have := decidableCalm (lastSolid before [c]) (lastSolid seen [c]) ps
    inferInstanceAs (Decidable (_ ∧ _))

@[simp] theorem quiet_nil : quiet [] = [] := rfl

@[simp] theorem quiet_code (c : Char) (ps : List Piece) :
    quiet (.code c :: ps) = .code c :: quiet ps := rfl

theorem quiet_cons (p : Piece) (ps : List Piece) : quiet (p :: ps) = p.quiet ++ quiet ps := rfl

theorem quiet_comment {text : List Char} (h : isComment text = true) (ps : List Piece) :
    quiet (.skipped text :: ps) = (blanked text).map .code ++ quiet ps := by
  rw [quiet_cons, Piece.quiet, if_pos h]

theorem quiet_skipped {text : List Char} (h : isComment text = false) (ps : List Piece) :
    quiet (.skipped text :: ps) = .skipped text :: quiet ps := by
  rw [quiet_cons, Piece.quiet, if_neg (by simp [h])]
  rfl

@[simp] theorem quiet_append (ps qs : List Piece) : quiet (ps ++ qs) = quiet ps ++ quiet qs :=
  List.flatMap_append

@[simp] theorem textOf_map_code (text : List Char) : textOf (text.map .code) = text := by
  induction text with
  | nil => rfl
  | cons c text ih => rw [List.map_cons, textOf_cons, ih]; rfl

/-- All that a hidden stretch shows is spaces and line breaks. -/
theorem mem_blanked {text : List Char} {c : Char} (h : c ∈ blanked text) : c = ' ' ∨ c = '\n' := by
  obtain ⟨cell, hcell, rfl⟩ := List.mem_map.mp h
  obtain ⟨d, -, hd⟩ := List.mem_flatMap.mp hcell
  unfold hide at hd
  split at hd
  next hbreak => exact .inr (by rw [List.mem_singleton.mp hd]; exact beq_iff_eq.mp hbreak)
  next =>
    refine .inl ?_
    rcases List.mem_cons.mp hd with rfl | hd
    · rfl
    · rw [List.eq_of_mem_replicate hd]

theorem blanked_ne_nil {text : List Char} (h : text ≠ []) : blanked text ≠ [] := by
  obtain ⟨c, text, rfl⟩ := List.exists_cons_of_ne_nil h
  rw [blanked, List.flatMap_cons, hide]
  split <;> simp

/-! ### The pieces of what is left -/

/-- Spaces and line breaks are code, and are not seen by a look back. -/
theorem Walked.blanks {before : Option Char} {blank : List Char} {ps : List Piece}
    (hblank : ∀ c ∈ blank, c = ' ' ∨ c = '\n') (h : Walked before ps) :
    Walked before (blank.map .code ++ ps) := by
  induction blank with
  | nil => exact h
  | cons c blank ih =>
    have hrest := ih fun d hd => hblank d (List.mem_cons_of_mem c hd)
    rcases hblank c (List.mem_cons_self ..) with rfl | rfl
    · exact walked_code.mpr ⟨skip?_plain rfl (by decide) before _, hrest⟩
    · exact walked_code.mpr ⟨skip?_plain rfl (by decide) before _, hrest⟩

theorem ne_nil_of_isComment {text : List Char} (h : isComment text = true) : text ≠ [] := by
  rintro rfl
  cases h

/-- What is left starts as the text does, or with a blank. -/
theorem Walked.head_quiet {before : Option Char} {ps : List Piece} (h : Walked before ps) :
    ∀ c ∈ (textOf (quiet ps)).head?, (textOf ps).head? = some c ∨ c = ' ' ∨ c = '\n' := by
  intro c hc
  cases ps with
  | nil => cases hc
  | cons p ps =>
    cases p with
    | code d => exact .inl hc
    | skipped text =>
      cases hcomment : isComment text with
      | false =>
        obtain ⟨d, -, text, rfl⟩ := (walked_skipped.mp h).1.exists_head
        rw [quiet_skipped hcomment] at hc
        exact .inl hc
      | true =>
        obtain ⟨d, rest, hblank⟩ :=
          List.exists_cons_of_ne_nil (blanked_ne_nil (ne_nil_of_isComment hcomment))
        rw [quiet_comment hcomment, textOf_append, textOf_map_code, hblank] at hc
        obtain rfl : d = c := Option.some.inj hc
        have hmem : d ∈ blanked text := by simp [hblank]
        exact .inr (mem_blanked hmem)

theorem Walked.eq_nil {before : Option Char} {ps : List Piece} (h : Walked before ps)
    (htext : textOf ps = []) : ps = [] := by
  rw [Walked, htext, pieces_nil] at h
  exact h.symm

/-- **Overwriting the comments of a calm text changes no other piece.** -/
theorem walked_quiet {before seen : Option Char} {ps : List Piece} (h : Walked before ps)
    (hcalm : Calm before seen ps) : Walked seen (quiet ps) := by
  induction ps generalizing before seen with
  | nil => exact pieces_nil seen
  | cons p ps ih =>
    cases p with
    | skipped text =>
      obtain ⟨hstretch, hrest⟩ := walked_skipped.mp h
      rw [Calm] at hcalm
      split at hcalm
      next hcomment =>
        rw [quiet_comment hcomment]
        exact .blanks (fun c => mem_blanked) (ih hrest hcalm)
      next hcomment =>
        obtain ⟨hseen, hcalm⟩ := hcalm
        have hcomment : isComment text = false := by simpa using hcomment
        rw [quiet_skipped hcomment]
        refine walked_skipped.mpr ⟨hstretch.rest ?_ ?_ fun _ => hseen, ih hrest hcalm⟩
        · intro hnil
          rw [hrest.eq_nil hnil]
          rfl
        · intro c hc
          refine (hrest.head_quiet c hc).imp_right fun hblank => ⟨hcomment, ?_⟩
          rcases hblank with rfl | rfl <;> decide
    | code c =>
      obtain ⟨hskip, hrest⟩ := walked_code.mp h
      obtain ⟨hslash, hcalm⟩ : _ ∧ Calm _ _ ps := hcalm
      rw [quiet_code]
      refine walked_code.mpr ⟨?_, ih hrest hcalm⟩
      by_cases hc : c = '/'
      · subst hc
        have hhead : ∀ d ∈ (textOf (quiet ps)).head?, d ≠ '/' ∧ d ≠ '*' := by
          intro d hd
          rcases hrest.head_quiet d hd with hd | rfl | rfl
          · exact head_of_skip?_none hskip d hd
          · decide
          · decide
        rw [skip?_slash, takeAfterSlash_regex hhead, (hslash rfl).2]
        rfl
      · exact skip?_plain (isQuote_of_skip?_none hskip) hc seen _

/-- Behind a comment that ends in a slash, what was a division becomes a regular expression. -/
example :
    let source := "= /* c */ /x/".toList
    pieces none (withoutComments source) ≠ quiet (pieces none source) := by
  decide +kernel

/-! ### The masked copy of what is left -/

theorem shown_map_code (text : List Char) :
    shown ((text.map Piece.code).flatMap Piece.cells) = text := by
  induction text with
  | nil => rfl
  | cons c text ih =>
    rw [List.map_cons, List.flatMap_cons, shown_append, ih]
    rfl

/-- Overwritten comments show as they did before. -/
theorem shown_quiet (ps : List Piece) :
    shown ((quiet ps).flatMap Piece.cells) = shown (ps.flatMap Piece.cells) := by
  induction ps with
  | nil => rfl
  | cons p ps ih =>
    have hp : shown (p.quiet.flatMap Piece.cells) = shown p.cells := by
      cases p with
      | code c => rfl
      | skipped text =>
        rw [Piece.quiet]
        split
        next => exact shown_map_code (blanked text)
        next => simp
    rw [quiet_cons, List.flatMap_append, shown_append, hp, ih, List.flatMap_cons, shown_append]

/-- A column that shows something solid is a piece of code. -/
theorem exists_code {ps : List Piece} {front rest : List Cell} {cell : Cell}
    (h : ps.flatMap Piece.cells = front ++ cell :: rest) (hsolid : isBlank cell.shown = false) :
    ∃ qs rs, ps = qs ++ .code cell.shown :: rs ∧ qs.flatMap Piece.cells = front ∧
      rs.flatMap Piece.cells = rest := by
  induction ps generalizing front with
  | nil => simp at h
  | cons p ps ih =>
    have hbehind (front' : List Cell) (hfront : front = p.cells ++ front')
        (hrest : ps.flatMap Piece.cells = front' ++ cell :: rest) :
        ∃ qs rs, p :: ps = qs ++ .code cell.shown :: rs ∧ qs.flatMap Piece.cells = front ∧
          rs.flatMap Piece.cells = rest := by
      obtain ⟨qs, rs, rfl, hqs, hrs⟩ := ih hrest
      exact ⟨p :: qs, rs, rfl, by rw [List.flatMap_cons, hqs, hfront], hrs⟩
    rw [List.flatMap_cons] at h
    rcases List.append_eq_append_iff.mp h with ⟨front', hfront, hrest⟩ | ⟨more, hp, hrest⟩
    · exact hbehind front' hfront hrest
    · cases more with
      | nil => exact hbehind [] (by simpa using hp.symm) (by simpa using hrest.symm)
      | cons first more =>
        obtain ⟨rfl, hrest⟩ := List.cons.inj hrest
        cases p with
        | skipped text =>
          have hmem : cell ∈ (Piece.skipped text).cells := by simp [hp]
          rw [isBlank_of_mem_skipped hmem] at hsolid
          cases hsolid
        | code c =>
          cases front with
          | nil =>
            obtain ⟨rfl, rfl⟩ := List.cons.inj hp
            exact ⟨[], ps, rfl, rfl, (List.cons.inj h).2⟩
          | cons other front => simp [Piece.cells] at hp

/-- A reader that stops behind a solid column takes the same pieces off both copies. -/
theorem exists_taken {c : Char} {take? : List Cell → Option (List Cell)} (hblind : Blind take?)
    (hlands : Lands c take?) (hc : isBlank c = false) (ps : List Piece) :
    (take? (ps.flatMap Piece.cells) = none ∧ take? ((quiet ps).flatMap Piece.cells) = none) ∨
    ∃ front rest, ps = front ++ .code c :: rest ∧
      take? (ps.flatMap Piece.cells) = some (rest.flatMap Piece.cells) ∧
      take? ((quiet ps).flatMap Piece.cells) = some ((quiet rest).flatMap Piece.cells) := by
  have length_quiet (ps : List Piece) :
      ((quiet ps).flatMap Piece.cells).length = (ps.flatMap Piece.cells).length := by
    simpa [shown] using congrArg List.length (shown_quiet ps)
  obtain ⟨taken, htake, hquiet⟩ := hblind _ _ (shown_quiet ps).symm
  cases taken with
  | none => exact .inl ⟨htake, hquiet⟩
  | some n =>
    obtain ⟨front, cell, hcells, rfl⟩ := hlands _ _ htake
    obtain ⟨qs, rs, rfl, -, hrs⟩ := exists_code hcells hc
    refine .inr ⟨qs, rs, rfl, htake.trans (congrArg some hrs.symm), hquiet.trans (congrArg some ?_)⟩
    have hsplit : (quiet (qs ++ .code cell.shown :: rs)).flatMap Piece.cells =
        ((quiet qs).flatMap Piece.cells ++ (Piece.code cell.shown).cells) ++
          (quiet rs).flatMap Piece.cells := by
      simp
    refine List.append_inj_right' ((List.take_append_drop n _).trans hsplit) ?_
    rw [List.length_drop, length_quiet, length_quiet, hrs, List.length_drop]

end RouteScaffold.Source
