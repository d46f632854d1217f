import RouteScaffold.Proofs.Source.Members

/-! Finding a declaration behind other lines.

A declaration is searched on the masked copy, from left to right. Behind lines of
tokens that do not themselves declare the name (`Declares`), in comments and
strings they may well do, the search comes to the declaration that follows them
(`search_behind`), because nothing that starts in those lines can be completed
by what stands behind them. -/
namespace RouteScaffold.Source
open Text

/-! ### What the search sees -/

/-- What patterns see of some columns. -/
def shown (cells : List Cell) : List Char := cells.map Cell.shown

/-- A text with all that is passed over blanked out. -/
def codeOf (text : List Char) : List Char := shown (mask text)

/-- Behind the name stands, blanks aside, a type annotation or an initializer. -/
def Binds (name cs : List Char) : Prop :=
  ∃ rest, cs = name ++ rest ∧ ∃ c ∈ (trimStart rest).head?, c = ':' ∨ c = '='

/-- The text starts with a keyword and blanks, and binds the name behind them. -/
def BeginsDeclaration (name cs : List Char) : Prop :=
  ∃ keyword ∈ keywords, ∃ blank rest, cs = keyword.toList ++ (blank ++ rest) ∧ Blank blank ∧
    blank ≠ [] ∧ Binds name rest

/-- At some word boundary of the text, `P` holds of all that follows. -/
def Occurs (P : List Char → Prop) (cs : List Char) : Prop :=
  ∃ front rest, cs = front ++ rest ∧ (∀ c ∈ front.getLast?, isWordChar c = false) ∧ P rest

/-- Somewhere in its code, the text declares the name. -/
def Declares (name text : List Char) : Prop := Occurs (BeginsDeclaration name) (codeOf text)

/-- Somewhere in its code, the text binds the name. -/
def Mentions (name text : List Char) : Prop := Occurs (Binds name) (codeOf text)

/-- Lines of tokens: none, or some with a blank at their end, such as a line break. -/
structure Lines (text : List Char) : Prop where
  tokens : Tokens true none text
  ended : ∀ c ∈ text.getLast?, isBlank c = true

/-! ### The readers of the masked copy -/

@[simp] theorem shown_nil : shown [] = [] := rfl

@[simp] theorem shown_cons (cell : Cell) (cells : List Cell) :
    shown (cell :: cells) = cell.shown :: shown cells := rfl

@[simp] theorem shown_append (a b : List Cell) : shown (a ++ b) = shown a ++ shown b :=
  List.map_append

theorem shown_skipBlanks (cells : List Cell) : shown (skipBlanks cells) = trimStart (shown cells) :=
  (List.dropWhile_map (p := isBlank) (f := Cell.shown)).symm

theorem shown_of_word? {word : List Char} {cells rest : List Cell}
    (h : word? word cells = some rest) : shown cells = word ++ shown rest := by
  fun_induction word? word cells with
  | case1 => rw [Option.some.inj h, List.nil_append]
  | case2 => cases h
  | case3 c word cell cells hc ih => rw [shown_cons, ih h, beq_iff_eq.mp hc, List.cons_append]
  | case4 => cases h

theorem head_of_equals? {cells rest : List Cell} (h : equals? cells = some rest) :
    ∃ c ∈ (trimStart (shown cells)).head?, c = ':' ∨ c = '=' := by
  rw [← shown_skipBlanks]
  unfold equals? at h
  split at h
  · cases h
  next cell cells heq =>
    refine ⟨cell.shown, by simp [heq], ?_⟩
    split at h
    next hc => exact .inr (beq_iff_eq.mp hc)
    next =>
      split at h
      next hc => exact .inl (beq_iff_eq.mp hc)
      next => cases h

theorem binds_of_equals? {name : List Char} {cells rest : List Cell}
    (h : (word? name cells).bind equals? = some rest) : Binds name (shown cells) := by
  obtain ⟨behind, hword, hequals⟩ := Option.bind_eq_some_iff.mp h
  exact ⟨shown behind, shown_of_word? hword, head_of_equals? hequals⟩

theorem binds_of_named? {name : List Char} {opening : Opening} {cells rest : List Cell}
    (h : named? name opening cells = some rest) :
    ∃ blank behind, shown cells = blank ++ behind ∧ Blank blank ∧ blank ≠ [] ∧
      Binds name behind := by
  fun_induction named? name opening cells with
  | case1 => cases h
  | case2 cell cells hb ih =>
    rw [Option.orElse_apply, Option.orElse_eq_or] at h
    rcases Option.or_eq_some_iff.mp h with h | ⟨-, h⟩
    · obtain ⟨behind, hequals, -⟩ := Option.bind_eq_some_iff.mp h
      exact ⟨[cell.shown], shown cells, rfl, by simpa [Blank] using hb, by simp,
        binds_of_equals? hequals⟩
    · obtain ⟨blank, behind, heq, hblank, -, hbinds⟩ := ih h
      exact ⟨cell.shown :: blank, behind, by simp [heq], List.forall_mem_cons.mpr ⟨hb, hblank⟩,
        by simp, hbinds⟩
  | case3 => cases h

theorem beginsDeclaration_of_declared? {name : List Char} {opening : Opening}
    {cells rest : List Cell} (h : declared? name opening cells = some rest) :
    BeginsDeclaration name (shown cells) := by
  obtain ⟨keyword, hkeyword, h⟩ := List.exists_of_findSome?_eq_some h
  obtain ⟨behind, hword, hnamed⟩ := Option.bind_eq_some_iff.mp h
  obtain ⟨blank, text, heq, hblank, hne, hbinds⟩ := binds_of_named? hnamed
  exact ⟨keyword, hkeyword, blank, text, by rw [shown_of_word? hword, heq], hblank, hne, hbinds⟩

/-! ### Searching behind lines -/

theorem search_append {take? : List Cell → Option (List Cell)} {front rest : List Cell}
    {before : Option Cell}
    (h : ∀ a b, front = a ++ b → b ≠ [] → atBoundary (a.getLast?.or before) = true →
      take? (b ++ rest) = none) :
    search take? before (front ++ rest) = search take? (front.getLast?.or before) rest := by
  induction front generalizing before with
  | nil => rfl
  | cons cell front ih =>
    have hhere : (if atBoundary before then take? (cell :: (front ++ rest)) else none) = none := by
      split
      next hb => exact h [] (cell :: front) rfl (by simp) hb
      next => rfl
    have hlast (cells : List Cell) :
        (cell :: cells).getLast?.or before = cells.getLast?.or (some cell) := by
      cases cells <;> simp [List.getLast?_cons]
    rw [List.cons_append, search, hhere, hlast]
    show search take? (some cell) (front ++ rest) = _
    rw [ih]
    intro a b hab hne hb
    rw [← hlast] at hb
    exact h (cell :: a) b (by rw [hab, List.cons_append]) hne hb

/-! ### Nothing is completed from behind -/

/-- The text is not empty and its last character is blank. -/
def EndsBlank (cs : List Char) : Prop := ∃ c ∈ cs.getLast?, isBlank c = true

/-- The first character is no blank, and none of those that stand behind a bound name. -/
def StartsSolid (cs : List Char) : Prop := ∀ c ∈ cs.head?, isBlank c = false ∧ c ≠ ':' ∧ c ≠ '='

theorem endsBlank_of_append {a b : List Char} (h : ∀ c ∈ (a ++ b).getLast?, isBlank c = true)
    (hne : b ≠ []) : EndsBlank b := by
  have hlast : b.getLast? = some (b.getLast hne) := List.getLast?_eq_some_getLast hne
  refine ⟨b.getLast hne, hlast, h _ ?_⟩
  rw [List.getLast?_append, hlast]
  rfl

theorem EndsBlank.of_append {a b : List Char} (h : EndsBlank (a ++ b)) (hne : b ≠ []) :
    EndsBlank b := by
  obtain ⟨c, hc, hb⟩ := h
  have hall : ∀ d ∈ (a ++ b).getLast?, isBlank d = true := by
    intro d hd
    obtain rfl : c = d := Option.some.inj (hc.symm.trans hd)
    exact hb
  exact endsBlank_of_append hall hne

/-- A word without blanks that starts a text whose first part ends in a blank lies in that
part. -/
theorem EndsBlank.eq_append {x y word rest : List Char} (h : EndsBlank x)
    (hword : ∀ c ∈ word, isBlank c = false) (heq : x ++ y = word ++ rest) :
    ∃ x', x = word ++ x' ∧ x' ++ y = rest ∧ EndsBlank x' := by
  have hsolid (more : List Char) : word ≠ x ++ more := by
    rintro rfl
    obtain ⟨c, hc, hb⟩ := h
    rw [hword c (List.mem_append_left _ (List.mem_of_getLast? hc))] at hb
    cases hb
  rcases List.append_eq_append_iff.mp heq with ⟨more, hmore, -⟩ | ⟨x', rfl, rfl⟩
  · exact absurd hmore (hsolid more)
  · refine ⟨x', rfl, rfl, h.of_append ?_⟩
    rintro rfl
    exact hsolid [] (by simp)

theorem binds_of_append {name x y : List Char} (hname : ∀ c ∈ name, isBlank c = false)
    (hx : EndsBlank x) (hy : StartsSolid y) (h : Binds name (x ++ y)) : Binds name x := by
  obtain ⟨rest, heq, c, hc, hsign⟩ := h
  obtain ⟨x', rfl, rfl, -⟩ := hx.eq_append hname heq
  refine ⟨x', rfl, c, ?_, hsign⟩
  rcases blank_or_solid x' with hblank | ⟨front, d, behind, rfl, hfront, hd⟩
  · rw [trimStart_blank hblank, trimStart_solid fun c hc => (hy c hc).1] at hc
    obtain ⟨-, hcolon, hequals⟩ := hy c hc
    exact absurd hsign (not_or.mpr ⟨hcolon, hequals⟩)
  · rw [List.append_assoc, trimStart_blank hfront, trimStart_solid (by simp [hd])] at hc
    rwa [trimStart_blank hfront, trimStart_solid (by simp [hd])]

theorem isBlank_of_mem_keyword : ∀ word ∈ keywords, ∀ c ∈ word.toList, isBlank c = false := by
  have hall : keywords.all (·.toList.all (!isBlank ·)) = true := by decide
  simpa only [List.all_eq_true, Bool.not_eq_true'] using hall

theorem beginsDeclaration_of_append {name x y : List Char} (hname : ∀ c ∈ name, isBlank c = false)
    (hx : EndsBlank x) (hy : StartsSolid y) (hself : ¬ Binds name y)
    (h : BeginsDeclaration name (x ++ y)) : BeginsDeclaration name x := by
  obtain ⟨keyword, hkeyword, blank, rest, heq, hblank, hne, hbinds⟩ := h
  obtain ⟨x', rfl, heq', hx'⟩ := hx.eq_append (isBlank_of_mem_keyword keyword hkeyword) heq
  refine ⟨keyword, hkeyword, ?_⟩
  rcases List.append_eq_append_iff.mp heq' with ⟨more, rfl, rfl⟩ | ⟨x'', rfl, rfl⟩
  · -- More of the blanks would be the solid start of what follows.
    cases more with
    | nil => exact absurd hbinds hself
    | cons d more =>
      have hd : isBlank d = true := hblank d (by simp)
      rw [(hy d rfl).1] at hd
      cases hd
  · cases x'' with
    | nil => exact absurd hbinds hself
    | cons d x'' =>
      exact ⟨blank, d :: x'', rfl, hblank, hne,
        binds_of_append hname (hx'.of_append (by simp)) hy hbinds⟩

/-- A declaration of whatever name does not bind a name with the keyword it starts with. -/
theorem not_binds_const {name : List Char} (h : ∀ c ∈ name, isBlank c = false) {rest : List Char}
    (hrest : StartsSolid rest) : ¬ Binds name ("const".toList ++ ' ' :: rest) := by
  rintro ⟨behind, heq, c, hc, hsign⟩
  have hspace : StartsSolid (trimStart (' ' :: rest)) := by
    show StartsSolid (trimStart rest)
    rwa [trimStart_solid fun c hc => (hrest c hc).1]
  have hsolid : StartsSolid (trimStart behind) := by
    rcases List.append_eq_append_iff.mp heq with ⟨more, rfl, hmore⟩ | ⟨more, hconst, rfl⟩
    · cases more with
      | nil =>
        obtain rfl : ' ' :: rest = behind := hmore
        exact hspace
      | cons d more =>
        obtain ⟨rfl, -⟩ := List.cons.inj hmore
        exact absurd (h ' ' (by simp)) (by decide)
    · cases more with
      | nil => exact hspace
      | cons d more =>
        have hletters : ∀ c ∈ "const".toList, isBlank c = false ∧ c ≠ ':' ∧ c ≠ '=' :=
          List.all_iff_forall_prop.mp (by decide)
        have hd := hletters d (by simp [hconst])
        rw [trimStart_solid (by simp [hd.1])]
        simpa [StartsSolid] using hd
  obtain ⟨-, hcolon, hequals⟩ := hsolid c hc
  exact absurd hsign (not_or.mpr ⟨hcolon, hequals⟩)

/-! ### The masked copy of lines -/

theorem isBlank_of_mem_hide {c : Char} {cell : Cell} (h : cell ∈ hide c) :
    isBlank cell.shown = true := by
  have hspace : isBlank ' ' = true := by decide
  unfold hide at h
  split at h
  next hc =>
    rw [List.mem_singleton.mp h, beq_iff_eq.mp hc]
    decide
  next =>
    rcases List.mem_cons.mp h with rfl | h
    · exact hspace
    · rwa [List.eq_of_mem_replicate h]

theorem isBlank_of_mem_skipped {text : List Char} {cell : Cell}
    (h : cell ∈ (Piece.skipped text).cells) : isBlank cell.shown = true := by
  obtain ⟨c, -, hc⟩ := List.mem_flatMap.mp h
  exact isBlank_of_mem_hide hc

theorem isBlank_or_under {p : Piece} {cell : Cell} (h : cell ∈ p.cells) :
    isBlank cell.shown = true ∨ cell.under = [cell.shown] := by
  cases p with
  | skipped text => exact .inl (isBlank_of_mem_skipped h)
  | code c => exact .inr (by rw [List.mem_singleton.mp h])

/-- Behind a blank the masked copy, too, ends in a blank. -/
theorem ended_codeOf {text : List Char} (h : ∀ c ∈ text.getLast?, isBlank c = true) :
    ∀ c ∈ (codeOf text).getLast?, isBlank c = true := by
  intro c hc
  obtain ⟨cells, hcells⟩ := List.getLast?_eq_some_iff.mp hc
  obtain ⟨front, last, hmask, rfl, hlast⟩ := List.map_eq_append_iff.mp hcells
  obtain ⟨cell, rfl, rfl⟩ := List.map_eq_singleton_iff.mp hlast
  have hmem : cell ∈ mask text := by simp [hmask]
  obtain ⟨p, -, hp⟩ := List.mem_flatMap.mp hmem
  refine (isBlank_or_under hp).elim id fun hunder => h _ ?_
  have htext := sourceOf_mask text
  rw [hmask, sourceOf_append] at htext
  rw [← htext, show sourceOf [cell] = [cell.shown] by simp [sourceOf, hunder]]
  simp

/-- The columns of a text of code. -/
def codeCells (text : List Char) : List Cell := text.map fun c => ⟨c, [c]⟩

@[simp] theorem shown_codeCells (text : List Char) : shown (codeCells text) = text := by
  rw [shown, codeCells, List.map_map]
  exact List.map_id text

theorem codeCells_append (a b : List Char) : codeCells (a ++ b) = codeCells a ++ codeCells b :=
  List.map_append

/-- Characters that start neither a string nor a comment nor a regular expression. -/
def IsCode (text : List Char) : Prop := ∀ c ∈ text, isQuote c = false ∧ c ≠ '/'

instance (text : List Char) : Decidable (IsCode text) :=
  decidable_of_iff (text.all (fun c => isQuote c = false ∧ c ≠ '/') = true) List.all_iff_forall_prop

theorem cells_code {text : List Char} (h : IsCode text) (before : Option Char) (rest : List Char) :
    (pieces before (text ++ rest)).flatMap Piece.cells =
      codeCells text ++ (pieces (lastSolid before text) rest).flatMap Piece.cells := by
  induction text generalizing before with
  | nil => rfl
  | cons c text ih =>
    obtain ⟨hq, hs⟩ := h c (List.mem_cons_self ..)
    rw [List.cons_append, pieces_code hq hs, List.flatMap_cons,
      ih (fun d hd => h d (List.mem_cons_of_mem c hd))]
    rfl

theorem word?_codeCells (word : List Char) (cells : List Cell) :
    word? word (codeCells word ++ cells) = some cells := by
  induction word with
  | nil => cases cells <;> rfl
  | cons c word ih =>
    show (if (c == c) = true then word? word (codeCells word ++ cells) else none) = some cells
    rw [if_pos (beq_self_eq_true c), ih]

/-- What follows lines is masked on its own. -/
theorem mask_lines {before : List Char} (h : Lines before) (rest : List Char) :
    mask (before ++ rest) =
      mask before ++ (pieces (lastSolid none before) rest).flatMap Piece.cells := by
  rw [mask, pieces_append h.tokens _ (.inr h.ended), List.flatMap_append]
  rfl

/-! ### The declaration behind lines -/

theorem search_here {take? : List Cell → Option (List Cell)} {before : Option Cell}
    {cells rest : List Cell} (hb : atBoundary before = true) (hnil : take? [] = none)
    (h : take? cells = some rest) : search take? before cells = some rest := by
  cases cells with
  | nil => rw [hnil] at h; cases h
  | cons cell cells =>
    rw [search, if_pos hb, h]
    rfl

/-- **The search goes past lines** that hold no place where `take?` could start, and takes what
follows them. -/
theorem search_behind {take? : List Cell → Option (List Cell)} {P : List Char → Prop}
    {front cells rest : List Cell} (htake : ∀ cells rest, take? cells = some rest → P (shown cells))
    (hlocal : ∀ text, EndsBlank text → P (text ++ shown cells) → P text)
    (hended : ∀ c ∈ (shown front).getLast?, isBlank c = true) (hfront : ¬ Occurs P (shown front))
    (hnil : take? [] = none) (hcells : take? cells = some rest) :
    search take? none (front ++ cells) = some rest := by
  have hword (a : List Cell) : atBoundary (a.getLast?.or none) = true ↔
      ∀ c ∈ (shown a).getLast?, isWordChar c = false := by
    rw [Option.or_none, shown, List.getLast?_map]
    cases a.getLast? <;> simp [atBoundary]
  rw [search_append fun a b hab hne hb => ?_]
  · have hboundary := (hword front).mpr fun c hc => isWordChar_of_isBlank (hended c hc)
    exact search_here hboundary hnil hcells
  · refine Option.eq_none_iff_forall_ne_some.mpr fun result hresult => hfront ?_
    have hends : EndsBlank (shown b) := by
      rw [hab, shown_append] at hended
      exact endsBlank_of_append hended (by simpa [shown] using hne)
    refine ⟨shown a, shown b, by rw [hab, shown_append], (hword a).mp hb, hlocal _ hends ?_⟩
    rw [← shown_append]
    exact htake _ _ hresult

/-! ### Comments declare nothing -/

theorem Gap.lines {gap : List Char} (h : Gap gap) (hended : ∀ c ∈ gap.getLast?, isBlank c = true) :
    Lines gap := ⟨h.tokens none, hended⟩

/-- Blanks and comments show as blanks. -/
theorem blank_codeOf {gap : List Char} (h : Gap gap) : Blank (codeOf gap) := by
  suffices hall : ∀ before, Blank (shown ((pieces before gap).flatMap Piece.cells)) from hall none
  induction h with
  | nil =>
    intro before
    rw [pieces_nil]
    exact List.forall_mem_nil _
  | @blank c gap hc _ ih =>
    intro before
    obtain ⟨hq, hs⟩ := code_of_isPlainWord (isPlainWord_of_isBlank hc)
    rw [pieces_code hq hs]
    exact List.forall_mem_cons.mpr ⟨hc, ih _⟩
  | @comment text gap hc _ ih =>
    intro before
    obtain ⟨ps, -, hps, hp⟩ := exists_pieces_comment hc before
    have hcomment : Blank (shown (ps.flatMap Piece.cells)) := by
      refine List.forall_mem_map.mpr fun cell hcell => ?_
      obtain ⟨p, hmem, hcell⟩ := List.mem_flatMap.mp hcell
      rcases hps p hmem with rfl | ⟨text, rfl⟩
      · rw [List.mem_singleton.mp hcell]
        decide
      · exact isBlank_of_mem_skipped hcell
    rw [hp, List.flatMap_append, shown_append]
    exact List.forall_mem_append.mpr ⟨hcomment, ih _⟩

theorem not_occurs_of_blank {P : List Char → Prop} (hP : ∀ cs, P cs → ¬ Blank cs) {cs : List Char}
    (h : Blank cs) : ¬ Occurs P cs := by
  rintro ⟨front, rest, rfl, -, hrest⟩
  exact hP rest hrest (List.forall_mem_append.mp h).2

theorem Binds.not_blank {name cs : List Char} (h : Binds name cs) : ¬ Blank cs := by
  obtain ⟨rest, rfl, c, hc, -⟩ := h
  intro hblank
  rw [Blank.trimStart (List.forall_mem_append.mp hblank).2] at hc
  cases hc

/-- A name that only comments mention is not bound. -/
theorem not_mentions_gap {gap : List Char} (h : Gap gap) (name : List Char) : ¬ Mentions name gap :=
  not_occurs_of_blank (fun _ => Binds.not_blank) (blank_codeOf h)

/-- A name that only comments declare is not declared. -/
theorem not_declares_gap {gap : List Char} (h : Gap gap) (name : List Char) :
    ¬ Declares name gap := by
  refine not_occurs_of_blank ?_ (blank_codeOf h)
  rintro _ ⟨keyword, -, blank, rest, rfl, -, -, hbinds⟩ hblank
  exact hbinds.not_blank (List.forall_mem_append.mp (List.forall_mem_append.mp hblank).2).2

end RouteScaffold.Source
