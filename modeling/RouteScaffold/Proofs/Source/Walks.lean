import RouteScaffold.Proofs.Source.Tokens

/-! Walks over texts of tokens.

The two walks that count brackets pass over a text of tokens as a whole: looking
for a closing bracket they come out on the level they went in (`enclosed?_tokens`),
and looking for commas they see none inside (`commaParts_intercalate`). -/
namespace RouteScaffold.Source
open Text

theorem Bracket.isOpening_opening (b : Bracket) : isOpening b.opening = true := by cases b <;> rfl

theorem Bracket.isClosing_closing (b : Bracket) : isClosing b.closing = true := by cases b <;> rfl

theorem Bracket.isOpening_closing (b : Bracket) : isOpening b.closing = false := by cases b <;> rfl

theorem Bracket.opening_ne_comma (b : Bracket) : b.opening ≠ ',' := by cases b <;> decide

theorem Bracket.closing_ne_comma (b : Bracket) : b.closing ≠ ',' := by cases b <;> decide

/-! ### To the closing bracket -/

/-- Puts text in front of what is taken. -/
def Cut.prepend (text : List Char) (cut : Cut) : Cut := (text ++ cut.1, cut.2)

theorem untilClosing_opening (b : Bracket) (depth : Nat) (ps : List Piece) :
    untilClosing depth (.code b.opening :: ps) =
      (untilClosing (depth + 1) ps).map (.cons b.opening) := by
  cases b <;> cases depth <;> rfl

theorem untilClosing_plain {c : Char} (ho : isOpening c = false) (hc : isClosing c = false)
    (depth : Nat) (ps : List Piece) :
    untilClosing depth (.code c :: ps) = (untilClosing depth ps).map (.cons c) := by
  cases depth <;> simp [untilClosing, ho, hc]

/-- Balanced pieces are no way out of a bracket. -/
theorem untilClosing_nested {commas : Bool} {ps : List Piece} (h : Nested commas ps) (depth : Nat)
    (qs : List Piece) :
    untilClosing depth (ps ++ qs) = (untilClosing depth qs).map (Cut.prepend (textOf ps)) := by
  induction h generalizing depth qs with
  | nil =>
    rw [List.nil_append]
    cases untilClosing depth qs <;> rfl
  | @skipped commas text ps _ ih =>
    rw [List.cons_append, untilClosing, ih, Option.map_map]
    congr 1
    funext cut
    simp [Cut.prepend, Piece.text]
  | @code commas c ps ho hc _ _ ih =>
    rw [List.cons_append, untilClosing_plain ho hc, ih, Option.map_map]
    rfl
  | @group commas ps qs' b _ _ ih₁ ih₂ =>
    have hclose : untilClosing (depth + 1) (.code b.closing :: (qs' ++ qs)) =
        (untilClosing depth (qs' ++ qs)).map (.cons b.closing) := by cases b <;> rfl
    rw [List.cons_append, untilClosing_opening, List.append_assoc, ih₁, List.cons_append, hclose,
      ih₂]
    simp only [Option.map_map]
    congr 1
    funext cut
    simp [Cut.prepend, Cut.cons, Piece.text]

/-- What a bracket encloses is the text of tokens up to its closing bracket. -/
theorem enclosed?_tokens {commas : Bool} (b : Bracket) {text : List Char}
    (h : Tokens commas (some b.opening) text) (rest : List Char) :
    enclosed? b.opening (text ++ b.closing :: rest) = some (text, rest) := by
  have hp := pieces_append h (b.closing :: rest) (.inl (by simpa using b.isAlpha_closing))
  have hclose : untilClosing 0 (pieces (lastSolid (some b.opening) text) (b.closing :: rest)) =
      some ([], rest) := by
    rw [b.pieces_closing]
    cases b <;> exact congrArg (fun after => some (([] : List Char), after)) (textOf_pieces _ _)
  rw [enclosed?, hp, untilClosing_nested (nested_pieces h), hclose, textOf_pieces]
  simp [Cut.prepend]

/-! ### To the commas -/

theorem prepend_prepend (a b : List Char) {parts : List (List Char)} :
    prepend a (prepend b parts) = prepend (a ++ b) parts := by
  cases parts <;> simp [prepend]

theorem prepend_nil {parts : List (List Char)} (h : parts ≠ []) : prepend [] parts = parts := by
  cases parts with
  | nil => exact absurd rfl h
  | cons part parts => rfl

/-- Balanced pieces hold no comma that counts: below level zero none does, and on it they have
none. -/
theorem splitAtCommas_nested {commas : Bool} {ps : List Piece} (h : Nested commas ps) (level : Int)
    (h₀ : 0 ≤ level) (hlevel : commas = true → level ≠ 0) (qs : List Piece) :
    splitAtCommas level (ps ++ qs) = prepend (textOf ps) (splitAtCommas level qs) := by
  induction h generalizing level qs with
  | nil => exact (prepend_nil (splitAtCommas_ne_nil _ _)).symm
  | @skipped commas text ps _ ih =>
    rw [List.cons_append, splitAtCommas, ih level h₀ hlevel, prepend_prepend]
    rfl
  | @code commas c ps ho hc hcomma _ ih =>
    have hcond : (c == ',' && level == 0) = false := by
      by_cases h : c = ','
      · simp [hlevel (hcomma h)]
      · simp [h]
    have hchange : level + levelChange c = level := by simp [levelChange, ho, hc]
    rw [List.cons_append, splitAtCommas, hcond, hchange, ih level h₀ hlevel]
    simp [prepend_prepend, Piece.text]
  | @group commas ps qs' b _ _ ih₁ ih₂ =>
    have ho : (b.opening == ',' && level == 0) = false := by simp [b.opening_ne_comma]
    have hc : (b.closing == ',' && level + 1 == 0) = false := by simp [b.closing_ne_comma]
    have hdown : level + levelChange b.opening = level + 1 := by
      simp [levelChange, b.isOpening_opening]
    have hup : level + 1 + levelChange b.closing = level := by
      simp only [levelChange, b.isOpening_closing, b.isClosing_closing, Bool.false_eq_true,
        if_false, if_true]
      omega
    rw [List.cons_append, splitAtCommas, ho, hdown, List.append_assoc,
      ih₁ (level + 1) (by omega) (fun _ => by omega), List.cons_append, splitAtCommas, hc, hup,
      ih₂ level h₀ hlevel]
    simp [prepend_prepend, Piece.text]

theorem splitAtCommas_tokens {before : Option Char} {part : List Char}
    (h : Tokens false before part) : splitAtCommas 0 (pieces before part) = [part] := by
  have := splitAtCommas_nested (nested_pieces h) 0 (by omega) (by simp) []
  rw [List.append_nil, textOf_pieces] at this
  rw [this]
  simp [splitAtCommas, prepend]

theorem splitAtCommas_tokens_comma {before : Option Char} {part : List Char}
    (h : Tokens false before part) (rest : List Char) :
    splitAtCommas 0 (pieces before (part ++ ',' :: rest)) =
      part :: splitAtCommas 0 (pieces (some ',') rest) := by
  rw [pieces_append h (',' :: rest) (.inl (by simp)),
    splitAtCommas_nested (nested_pieces h) 0 (by omega) (by simp), textOf_pieces,
    pieces_code rfl (by decide), splitAtCommas]
  simp [prepend, lastSolid, isAsciiBlank]

/-- Texts of tokens without a comma on their own level, joined with commas, are the parts of
what they make. -/
theorem commaParts_intercalate {parts : List (List Char)} (hne : parts ≠ [])
    (h : ∀ part ∈ parts, ∀ before, Tokens false before part) :
    commaParts (List.intercalate [','] parts) = parts := by
  suffices hsplit : ∀ before, splitAtCommas 0 (pieces before (List.intercalate [','] parts)) = parts
    from hsplit none
  induction parts with
  | nil => exact absurd rfl hne
  | cons part parts ih =>
    intro before
    have hpart := h part (List.mem_cons_self ..) before
    cases parts with
    | nil =>
      rw [List.intercalate_singleton]
      exact splitAtCommas_tokens hpart
    | cons next parts =>
      rw [List.intercalate_cons_cons, List.append_assoc, List.singleton_append,
        splitAtCommas_tokens_comma hpart,
        ih (by simp) (fun p hp => h p (List.mem_cons_of_mem _ hp))]

end RouteScaffold.Source
