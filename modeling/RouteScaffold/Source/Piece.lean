import RouteScaffold.Text.Blank

/-! Descriptor source, cut into pieces.

Most of a TypeScript module is of no interest here, and its strings, comments
and regular expressions may hold any bracket or comma. So a text is read as a
list of pieces: a stretch that is passed over as a whole, or one character of
code. A string that is never closed and a comment that is never closed run to
the end of the text; a slash opens a regular expression only where no operand
can stand in front of it, and only if the expression is closed on its line.

The look back for a regular expression needs one character: the last one before
the slash that is not an ASCII blank, which may be the end of a comment.
`text_pieces` says that nothing is lost: the pieces of a text make up the text. -/
namespace RouteScaffold.Source
open Text

inductive Piece where
  /-- A string, a comment or a regular expression, delimiters included. -/
  | skipped (text : List Char)
  | code (c : Char)
  deriving DecidableEq, Repr

def Piece.text : Piece → List Char
  | .skipped text => text
  | .code c => [c]

/-! ### What is passed over

Each reader answers with the characters it takes and the rest. -/

/-- A text in two: what is taken, and the rest. -/
abbrev Cut := List Char × List Char

/-- Takes one more character in front. -/
def Cut.cons (c : Char) (cut : Cut) : Cut := (c :: cut.1, cut.2)

def isQuote (c : Char) : Bool := c == '\x22' || c == '\x27' || c == '\x60'

/-- The rest of a string after its opening quote. A backslash takes the next character with it. -/
def takeString (quote : Char) : List Char → Cut
  | [] => ([], [])
  | '\\' :: c :: rest => .cons '\\' (.cons c (takeString quote rest))
  | c :: rest => if c == quote then ([c], rest) else .cons c (takeString quote rest)

/-- What stands up to the end of the line; the line break is left. -/
def takeLine (cs : List Char) : Cut := (cs.takeWhile (· != '\n'), cs.dropWhile (· != '\n'))

/-- The rest of a block comment after its opening. -/
def takeBlock : List Char → Cut
  | [] => ([], [])
  | '*' :: '/' :: rest => (['*', '/'], rest)
  | c :: rest => .cons c (takeBlock rest)

/-- The letters behind a regular expression, and the rest. -/
def takeFlags (cs : List Char) : Cut := (cs.takeWhile Char.isAlpha, cs.dropWhile Char.isAlpha)

/-- Whether a character class is open after `c`. -/
def classAfter (inClass : Bool) (c : Char) : Bool :=
  if c == '[' then true else if c == ']' then false else inClass

/-- The rest of a regular expression after its opening slash, flags included. A slash within
a character class does not close it, and a line break says it never was one. -/
def takeRegex (inClass : Bool) : List Char → Option Cut
  | [] => none
  | '\\' :: [] => none
  | '\\' :: c :: rest => (takeRegex inClass rest).map (.cons '\\' ∘ .cons c)
  | c :: rest =>
    if c == '\n' then none
    else if c == '/' && !inClass then some (.cons c (takeFlags rest))
    else (takeRegex (classAfter inClass c) rest).map (.cons c)

/-- The characters after which a slash cannot be a division. -/
def beforeRegex : List Char :=
  ['(', ',', '=', ':', '[', '!', '&', '|', '?', '\x7b', '\x7d', ';']

/-- Whether a slash opens a regular expression, given the last solid character before it. -/
def opensRegex : Option Char → Bool
  | none => true
  | some c => beforeRegex.contains c

/-- What a slash opens: a comment, or where an operand is expected a regular expression. -/
def takeAfterSlash (before : Option Char) : List Char → Option Cut
  | '/' :: rest => some (.cons '/' (takeLine rest))
  | '*' :: rest => some (.cons '*' (takeBlock rest))
  | rest => if opensRegex before then takeRegex false rest else none

/-- The stretch that is passed over at the start of the text, if there is one, and the rest. -/
def skip? (before : Option Char) : List Char → Option Cut
  | [] => none
  | c :: rest =>
    if isQuote c then some (.cons c (takeString c rest))
    else if c == '/' then (takeAfterSlash before rest).map (.cons c)
    else none

/-- The last character that is not an ASCII blank, of `before` and then the text. -/
def lastSolid (before : Option Char) (cs : List Char) : Option Char :=
  cs.foldl (fun last c => if isAsciiBlank c then last else some c) before

/-! ### Nothing is lost -/

def Cut.text (cut : Cut) : List Char := cut.1 ++ cut.2

@[simp] theorem Cut.text_cons (c : Char) (cut : Cut) : (Cut.cons c cut).text = c :: cut.text := rfl

@[simp] theorem text_takeString (quote : Char) (cs : List Char) :
    (takeString quote cs).text = cs := by
  fun_induction takeString quote cs with
  | case1 => rfl
  | case2 _ _ ih => simp [ih]
  | case3 => rfl
  | case4 _ _ _ _ ih => simp [ih]

@[simp] theorem text_takeLine (cs : List Char) : (takeLine cs).text = cs :=
  List.takeWhile_append_dropWhile

@[simp] theorem text_takeFlags (cs : List Char) : (takeFlags cs).text = cs :=
  List.takeWhile_append_dropWhile

@[simp] theorem text_takeBlock (cs : List Char) : (takeBlock cs).text = cs := by
  fun_induction takeBlock cs with
  | case1 => rfl
  | case2 => rfl
  | case3 _ _ _ ih => simp [ih]

theorem text_of_takeRegex {inClass : Bool} {cs : List Char} {cut : Cut}
    (h : takeRegex inClass cs = some cut) : cut.text = cs := by
  fun_induction takeRegex inClass cs generalizing cut with
  | case1 => simp at h
  | case2 => simp at h
  | case3 inClass c rest ih =>
    obtain ⟨cut, hcut, rfl⟩ := Option.map_eq_some_iff.mp h
    simp [ih hcut]
  | case4 => simp at h
  | case5 => simp [← Option.some.inj h]
  | case6 inClass c rest _ _ _ _ ih =>
    obtain ⟨cut, hcut, rfl⟩ := Option.map_eq_some_iff.mp h
    simp [ih hcut]

theorem text_of_takeAfterSlash {before : Option Char} {cs : List Char} {cut : Cut}
    (h : takeAfterSlash before cs = some cut) : cut.text = cs := by
  unfold takeAfterSlash at h
  split at h
  · simp [← Option.some.inj h]
  · simp [← Option.some.inj h]
  · split at h
    · exact text_of_takeRegex h
    · simp at h

/-- What is passed over is the start of the text, and not empty. -/
theorem text_of_skip? {before : Option Char} {cs : List Char} {cut : Cut}
    (h : skip? before cs = some cut) : cut.text = cs ∧ cut.1 ≠ [] := by
  fun_cases skip? before cs with
  | case1 => simp [skip?] at h
  | case2 c rest hq =>
    have h : Cut.cons c (takeString c rest) = cut := by simpa [skip?, hq] using h
    subst h
    exact ⟨by simp, by simp [Cut.cons]⟩
  | case3 c rest hq hc =>
    have h : (takeAfterSlash before rest).map (.cons c) = some cut := by
      simpa [skip?, hq, hc] using h
    obtain ⟨inner, hinner, rfl⟩ := Option.map_eq_some_iff.mp h
    exact ⟨by simp [text_of_takeAfterSlash hinner], by simp [Cut.cons]⟩
  | case4 c rest hq hc => simp [skip?, hq, hc] at h

/-- Passing over always moves on. -/
theorem length_of_skip? {before : Option Char} {cs taken rest : List Char}
    (h : skip? before cs = some (taken, rest)) : rest.length < cs.length := by
  obtain ⟨htext, hne⟩ := text_of_skip? h
  have := List.length_pos_iff.mpr hne
  rw [← htext, Cut.text, List.length_append]
  exact Nat.lt_add_of_pos_left this

/-! ### The pieces of a text -/

/-- The pieces of a text that follows the solid character `before`. -/
def pieces (before : Option Char) (cs : List Char) : List Piece :=
  match h : skip? before cs with
  | some (taken, rest) =>
    have := length_of_skip? h
    .skipped taken :: pieces (lastSolid before taken) rest
  | none =>
    match cs with
    | [] => []
    | c :: rest => .code c :: pieces (lastSolid before [c]) rest
termination_by cs.length

/-- The text that pieces make up. -/
def textOf (ps : List Piece) : List Char := ps.flatMap Piece.text

@[simp] theorem textOf_cons (p : Piece) (ps : List Piece) :
    textOf (p :: ps) = p.text ++ textOf ps := rfl

theorem textOf_pieces (before : Option Char) (cs : List Char) :
    textOf (pieces before cs) = cs := by
  fun_induction pieces before cs with
  | case1 before cs taken rest h _ ih =>
    rw [textOf_cons, ih]
    exact (text_of_skip? h).1
  | case2 => rfl
  | case3 before c rest h ih =>
    rw [textOf_cons, ih]
    rfl

end RouteScaffold.Source
