import RouteScaffold.Source.Piece

/-! The masked copy of a text.

To find a declaration, the text is matched with everything that is passed over
blanked out: a string or comment shows as blanks, its line breaks as line
breaks. The copy is as long as the text in UTF-8, so a hidden character of
several bytes shows as several blanks.

Each column of the copy carries the source text under it, so a place found in
the copy is a place in the text: `sourceOf_mask`. -/
namespace RouteScaffold.Source

/-- One column of the masked copy. -/
structure Cell where
  /-- The character a pattern sees. -/
  shown : Char
  /-- The source text that starts in this column. -/
  under : List Char
  deriving DecidableEq, Repr

/-- The columns that hide one character. -/
def hide (c : Char) : List Cell :=
  if c == '\n' then [⟨c, [c]⟩]
  else ⟨' ', [c]⟩ :: List.replicate (c.utf8Size - 1) ⟨' ', []⟩

def Piece.cells : Piece → List Cell
  | .skipped text => text.flatMap hide
  | .code c => [⟨c, [c]⟩]

/-- The masked copy of a text. -/
def mask (cs : List Char) : List Cell := (pieces none cs).flatMap Piece.cells

/-- The source text under some columns. -/
def sourceOf (cells : List Cell) : List Char := cells.flatMap Cell.under

theorem sourceOf_hide (c : Char) : sourceOf (hide c) = [c] := by
  unfold hide
  split <;> simp [sourceOf]

theorem sourceOf_append (a b : List Cell) : sourceOf (a ++ b) = sourceOf a ++ sourceOf b :=
  List.flatMap_append

theorem sourceOf_flatMap_hide (text : List Char) : sourceOf (text.flatMap hide) = text := by
  induction text with
  | nil => rfl
  | cons c rest ih => rw [List.flatMap_cons, sourceOf_append, sourceOf_hide, ih]; rfl

theorem sourceOf_cells (ps : List Piece) : sourceOf (ps.flatMap Piece.cells) = textOf ps := by
  induction ps with
  | nil => rfl
  | cons p ps ih =>
    rw [List.flatMap_cons, sourceOf_append, ih, textOf_cons]
    cases p with
    | skipped text => rw [Piece.cells, sourceOf_flatMap_hide]; rfl
    | code c => rfl

/-- Under the masked copy lies the text. -/
theorem sourceOf_mask (cs : List Char) : sourceOf (mask cs) = cs := by
  rw [mask, sourceOf_cells, textOf_pieces]

end RouteScaffold.Source
