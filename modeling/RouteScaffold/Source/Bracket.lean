import RouteScaffold.Source.Piece

/-! Brackets.

Round, square and curly brackets count alike: a text is walked piece by piece,
an opening bracket goes one level down and a closing one goes one level up,
whichever kind they are. What is passed over as a whole never counts. -/
namespace RouteScaffold.Source

def isOpening (c : Char) : Bool := c == '(' || c == '[' || c == '\x7b'

def isClosing (c : Char) : Bool := c == ')' || c == ']' || c == '\x7d'

/-- The text up to the bracket that closes a bracket opened `depth` levels further out, and
the text behind that bracket. -/
def untilClosing (depth : Nat) : List Piece → Option Cut
  | [] => none
  | .skipped text :: ps =>
    (untilClosing depth ps).map fun (inside, after) => (text ++ inside, after)
  | .code c :: ps =>
    if isOpening c then (untilClosing (depth + 1) ps).map (.cons c)
    else if isClosing c then
      match depth with
      | 0 => some ([], textOf ps)
      | depth + 1 => (untilClosing depth ps).map (.cons c)
    else (untilClosing depth ps).map (.cons c)

/-- The text within a bracket and the text behind its closing bracket, given the opening
bracket and all that follows it. -/
def enclosed? (bracket : Char) (rest : List Char) : Option Cut :=
  untilClosing 0 (pieces (some bracket) rest)

/-- Puts text in front of the first part. -/
def prepend (text : List Char) : List (List Char) → List (List Char)
  | [] => [text]
  | part :: parts => (text ++ part) :: parts

/-- The change of level at a character of code. -/
def levelChange (c : Char) : Int := if isOpening c then 1 else if isClosing c then -1 else 0

/-- The parts of a text between the commas on level zero, of which `level` may be below. -/
def splitAtCommas (level : Int) : List Piece → List (List Char)
  | [] => [[]]
  | .skipped text :: ps => prepend text (splitAtCommas level ps)
  | .code c :: ps =>
    if c == ',' && level == 0 then [] :: splitAtCommas level ps
    else prepend [c] (splitAtCommas (level + levelChange c) ps)

/-- The parts of a text between the commas that stand in no bracket. -/
def commaParts (cs : List Char) : List (List Char) := splitAtCommas 0 (pieces none cs)

/-! ### What the walks keep -/

theorem untilClosing_eq_append {depth : Nat} {ps : List Piece} {cut : Cut}
    (h : untilClosing depth ps = some cut) :
    ∃ c, isClosing c = true ∧ textOf ps = cut.1 ++ c :: cut.2 := by
  fun_induction untilClosing depth ps generalizing cut with
  | case1 => simp at h
  | case2 depth text ps ih =>
    obtain ⟨inner, hinner, rfl⟩ := Option.map_eq_some_iff.mp h
    obtain ⟨c, hc, htext⟩ := ih hinner
    exact ⟨c, hc, by simp [htext, Piece.text]⟩
  | case3 depth c ps _ ih =>
    obtain ⟨inner, hinner, rfl⟩ := Option.map_eq_some_iff.mp h
    obtain ⟨d, hd, htext⟩ := ih hinner
    exact ⟨d, hd, by simp [htext, Piece.text, Cut.cons]⟩
  | case4 c ps _ hc => exact ⟨c, hc, by simp [← Option.some.inj h, Piece.text]⟩
  | case5 c ps _ _ depth ih =>
    obtain ⟨inner, hinner, rfl⟩ := Option.map_eq_some_iff.mp h
    obtain ⟨d, hd, htext⟩ := ih hinner
    exact ⟨d, hd, by simp [htext, Piece.text, Cut.cons]⟩
  | case6 depth c ps _ _ ih =>
    obtain ⟨inner, hinner, rfl⟩ := Option.map_eq_some_iff.mp h
    obtain ⟨d, hd, htext⟩ := ih hinner
    exact ⟨d, hd, by simp [htext, Piece.text, Cut.cons]⟩

/-- What a bracket encloses and what follows it make up the text, with one closing bracket
between them. -/
theorem eq_append_of_enclosed? {bracket : Char} {rest inside after : List Char}
    (h : enclosed? bracket rest = some (inside, after)) :
    ∃ c, isClosing c = true ∧ rest = inside ++ c :: after := by
  obtain ⟨c, hc, htext⟩ := untilClosing_eq_append h
  exact ⟨c, hc, by rw [← htext, textOf_pieces]⟩

theorem length_of_enclosed? {bracket : Char} {rest inside after : List Char}
    (h : enclosed? bracket rest = some (inside, after)) : after.length < rest.length := by
  obtain ⟨c, _, rfl⟩ := eq_append_of_enclosed? h
  simp only [List.length_append, List.length_cons]
  omega

theorem splitAtCommas_ne_nil (level : Int) (ps : List Piece) : splitAtCommas level ps ≠ [] := by
  have prepend_ne_nil (text : List Char) (parts : List (List Char)) : prepend text parts ≠ [] := by
    cases parts <;> simp [prepend]
  fun_cases splitAtCommas level ps <;> simp [prepend_ne_nil]

theorem intercalate_prepend {text : List Char} {parts : List (List Char)} (h : parts ≠ []) :
    List.intercalate [','] (prepend text parts) = text ++ List.intercalate [','] parts := by
  match parts with
  | [] => exact absurd rfl h
  | [part] => simp [prepend, List.intercalate]
  | part :: next :: parts => simp [prepend, List.intercalate, List.intersperse]

/-- Joined with commas, the parts of a text are the text. -/
theorem intercalate_commaParts (cs : List Char) :
    List.intercalate [','] (commaParts cs) = cs := by
  suffices h : ∀ level ps, List.intercalate [','] (splitAtCommas level ps) = textOf ps by
    rw [commaParts, h, textOf_pieces]
  intro level ps
  fun_induction splitAtCommas level ps with
  | case1 => rfl
  | case2 level text ps ih =>
    rw [intercalate_prepend (splitAtCommas_ne_nil _ _), ih]
    rfl
  | case3 level c ps hc ih =>
    obtain ⟨rfl, _⟩ : c = ',' ∧ level = 0 := by simpa using hc
    obtain ⟨part, parts, hparts⟩ := List.exists_cons_of_ne_nil (splitAtCommas_ne_nil level ps)
    rw [hparts] at ih ⊢
    simpa [List.intercalate, List.intersperse, Piece.text] using ih
  | case4 level c ps _ ih =>
    rw [intercalate_prepend (splitAtCommas_ne_nil _ _), ih]
    rfl

end RouteScaffold.Source
