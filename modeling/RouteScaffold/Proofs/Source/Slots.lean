import RouteScaffold.Proofs.Source.Cleared
import RouteScaffold.Proofs.Source.Stopped

/-! Texts with a slot in them.

Where a text can hold one of several operands, such as strings or a name, there is a slot for
them if the walk comes to each of them alike (`Slot`): in front of it are the pieces of the text
in front, and behind it the same pieces, whichever operand it is. Then the bracket that closes
another one (`Slot.enclosed?`) and the commas (`Slot.commaParts`) are the same for all of them, and
a reader of names and dots stops in front of all of them alike (`Slot.read`). -/
namespace RouteScaffold.Source
open Text

/-- The piece is no blank and no comment, neither opens nor closes nor separates anything, and
starts like none of the signs and names that a reader looks for. -/
structure Operand (p : Piece) : Prop where
  solid : p.Solid
  word : ∀ c, p = .code c → isPlainWord c = true
  first : ∃ c rest, p.text = c :: rest ∧ isBlank c = false ∧ c ∉ ['.', ':', '(', 'z']
  last : ∃ front c, p.text = front ++ [c] ∧ isBlank c = false

/-- What stands for the last character of an operand: no regular expression can follow it. -/
def operandEnd : Option Char := some ')'

/-- All operands start with the same quote. -/
def Quoted (operands : Piece → Prop) : Prop :=
  ∃ quote, isQuote quote = true ∧ ∀ p, operands p → p.text.head? = some quote

/-- Behind the solid character `before`, there is a slot for the operands between `front` and any
start of `back`. A name does not go on in the slot: the operands start with a quote, or a regular
expression could stand there. -/
structure Slot (operands : Piece → Prop) (before : Option Char) (front back : List Char) :
    Prop where
  operand : ∀ p, operands p → Operand p
  walk : ∀ p, operands p → ∀ more, more <+: back →
    pieces before (front ++ (p.text ++ more)) = pieces before front ++ p :: pieces operandEnd more
  stop : Quoted operands ∨ opensRegex (lastSolid before front) = true

section
variable {operands : Piece → Prop} {before : Option Char} {front back : List Char}

theorem Slot.pieces (h : Slot operands before front back) {p : Piece} (hp : operands p) :
    pieces before (front ++ (p.text ++ back)) =
      pieces before front ++ p :: pieces operandEnd back :=
  h.walk p hp back (List.prefix_refl back)

/-! ### Parts of the text -/

/-- Less may stand behind the slot. -/
theorem Slot.cut (h : Slot operands before front back) {more : List Char} (hmore : more <+: back) :
    Slot operands before front more :=
  ⟨h.operand, fun p hp rest hrest => h.walk p hp rest (hrest.trans hmore), h.stop⟩

/-- The slot is in what is left of the text behind any of its pieces, too. -/
theorem Slot.left (h : Slot operands before front back) {ps qs : List Piece}
    (hpieces : Source.pieces before front = ps ++ qs) :
    Slot operands (lastSolid before (textOf ps)) (textOf qs) back := by
  have hfront : Walked before (ps ++ qs) := hpieces ▸ walked_pieces before front
  have htext : front = textOf ps ++ textOf qs := by
    rw [← textOf_append, ← hpieces, textOf_pieces]
  refine ⟨h.operand, fun p hp more hmore => ?_, ?_⟩
  · have hwalk : Walked before (ps ++ (qs ++ p :: Source.pieces operandEnd more)) := by
      rw [← List.append_assoc, ← hpieces, ← h.walk p hp more hmore]
      exact walked_pieces before _
    have hback := hwalk.back
    rw [Walked, textOf_append, textOf_cons, textOf_pieces] at hback
    rw [hback, hfront.back]
  · rw [← lastSolid_append, ← htext]
    exact h.stop

/-- And behind the first piece. -/
theorem Slot.tail {rest : List Char} {seen : Option Char} {p : Piece}
    (h : Slot operands before front back)
    (hpieces : Source.pieces before front = p :: Source.pieces seen rest) :
    Slot operands (lastSolid before p.text) rest back := by
  have hback := @Slot.left _ _ _ _ h [p] _ hpieces
  rwa [textOf_pieces, textOf_cons, textOf_nil, List.append_nil] at hback

/-- And behind some code. -/
theorem Slot.behind {rest : List Char} (h : Slot operands before front back)
    (hrest : Behind front rest) : ∃ seen, Slot operands seen rest back := by
  obtain ⟨code, hcode, rfl⟩ := hrest
  induction code generalizing before with
  | nil => exact ⟨before, h⟩
  | cons c code ih =>
    obtain ⟨⟨hq, hs⟩, hcode⟩ := List.forall_mem_cons.mp hcode
    exact ih hcode (h.tail (pieces_code hq hs))

/-- And behind an opening bracket. -/
theorem Slot.inside (b : Bracket) {rest : List Char}
    (h : Slot operands before (b.opening :: rest) back) :
    Slot operands (some b.opening) rest back := by
  have hlast : lastSolid before [b.opening] = some b.opening := by cases b <;> rfl
  exact hlast ▸ h.tail (b.pieces_opening before rest)

theorem Slot.congr (h : Slot operands before front back) {seen : Option Char}
    (hseen : opensRegex before = opensRegex seen) : Slot operands seen front back where
  operand := h.operand
  walk p hp more hmore := by
    rw [← pieces_congr hseen, ← pieces_congr hseen, h.walk p hp more hmore]
  stop := by
    rw [← opensRegex_lastSolid hseen front]
    exact h.stop

/-! ### Brackets -/

theorem Operand.nested {p : Piece} (hp : Operand p) : Nested false [p] := by
  cases p with
  | skipped text => exact .skipped .nil
  | code c =>
    have hword := hp.word c rfl
    simp only [isPlainWord, isPlain, Bool.and_eq_true, Bool.not_eq_true', bne_iff_ne] at hword
    exact .code hword.1.1.2 hword.1.2 (fun hcomma => absurd hcomma hword.2) .nil

theorem Operand.untilClosing {p : Piece} (hp : Operand p) (depth : Nat) (ps : List Piece) :
    untilClosing depth (p :: ps) = (untilClosing depth ps).map (Cut.prepend p.text) := by
  have hnested := untilClosing_nested hp.nested depth ps
  rwa [textOf_cons, textOf_nil, List.append_nil] at hnested

/-- A bracket is closed in front of the slot, or behind it at a place that does not depend on what
stands in the slot, or not at all. -/
theorem Slot.enclosed? {bracket : Char} (h : Slot operands (some bracket) front back) :
    (∃ inside after seen, Slot operands seen after back ∧
      enclosed? bracket front = some (inside, after) ∧
      ∀ p, operands p → enclosed? bracket (front ++ (p.text ++ back)) =
        some (inside, after ++ (p.text ++ back))) ∨
    enclosed? bracket front = none ∧ ∃ found : Option Cut, (∀ cut ∈ found, cut.1 <+: back) ∧
      ∀ p, operands p → enclosed? bracket (front ++ (p.text ++ back)) =
        found.map fun cut => (front ++ (p.text ++ cut.1), cut.2) := by
  obtain ⟨inside, c, after, hps, hclose⟩ | ⟨d, hclose⟩ :=
    untilClosing_append 0 (Source.pieces (some bracket) front)
  · have hsplit : Source.pieces (some bracket) front = (inside ++ [.code c]) ++ after := by
      simp [hps]
    refine .inl ⟨textOf inside, textOf after, _, h.left hsplit, ?_, fun p hp => ?_⟩
    · have := hclose []
      rwa [List.append_nil, List.append_nil] at this
    · rw [Source.enclosed?, h.pieces hp, hclose, textOf_append, textOf_cons, textOf_pieces]
  · refine .inr ⟨?_, untilClosing d (Source.pieces operandEnd back), fun cut hcut => ?_,
      fun p hp => ?_⟩
    · have := hclose []
      rwa [List.append_nil] at this
    · obtain ⟨c, -, htext⟩ := untilClosing_eq_append hcut
      rw [textOf_pieces] at htext
      exact ⟨c :: cut.2, htext.symm⟩
    · rw [Source.enclosed?, h.pieces hp, hclose, (h.operand p hp).untilClosing, Option.map_map,
        textOf_pieces]
      rfl

/-! ### Commas -/

/-- The parts of pieces that start on `level` are `parts`, and a last one that goes on with what
stands behind the pieces. -/
def Parts (level : Int) (ps : List Piece) (parts : List (List Char)) (last : List Piece) : Prop :=
  ∃ front level', ps = front ++ last ∧ (parts = [] → front = []) ∧
    ∀ more, splitAtCommas level (ps ++ more) =
      parts ++ prepend (textOf last) (splitAtCommas level' more)

/-- A piece that does not separate is put in front of the first part. -/
theorem Parts.prepend {level level' : Int} {ps last : List Piece} {parts : List (List Char)}
    (h : Parts level' ps parts last) {p : Piece}
    (hp : ∀ more, splitAtCommas level (p :: more) =
      Source.prepend p.text (splitAtCommas level' more)) :
    ∃ parts last, Parts level (p :: ps) parts last := by
  obtain ⟨front, level'', rfl, hnil, hsplit⟩ := h
  cases parts with
  | nil =>
    obtain rfl := hnil rfl
    refine ⟨[], p :: last, [], level'', rfl, fun _ => rfl, fun more => ?_⟩
    rw [List.cons_append, hp, hsplit, List.nil_append, prepend_prepend]
    rfl
  | cons part parts =>
    refine ⟨(p.text ++ part) :: parts, last, p :: front, level'', rfl, by simp,
      fun more => ?_⟩
    rw [List.cons_append, hp, hsplit]
    rfl

theorem exists_parts (level : Int) (ps : List Piece) : ∃ parts last, Parts level ps parts last := by
  induction ps generalizing level with
  | nil =>
    refine ⟨[], [], [], level, rfl, fun _ => rfl, fun more => ?_⟩
    exact (prepend_nil (splitAtCommas_ne_nil level more)).symm
  | cons p ps ih =>
    cases p with
    | skipped text =>
      obtain ⟨parts, last, hparts⟩ := ih level
      exact hparts.prepend fun more => rfl
    | code c =>
      by_cases hcomma : (c == ',' && level == 0) = true
      · obtain ⟨parts, last, front, level', rfl, -, hsplit⟩ := ih level
        refine ⟨[] :: parts, last, .code c :: front, level', rfl, by simp,
          fun more => ?_⟩
        rw [List.cons_append, splitAtCommas, if_pos hcomma, hsplit]
        rfl
      · obtain ⟨parts, last, hparts⟩ := ih (level + levelChange c)
        exact hparts.prepend fun more => by rw [splitAtCommas, if_neg hcomma]; rfl

/-- The first part is the start of the text. -/
theorem prefix_of_splitAtCommas {level : Int} {ps : List Piece} {part : List Char}
    {parts : List (List Char)} (h : splitAtCommas level ps = part :: parts) :
    part <+: textOf ps := by
  have hprepend {text part : List Char} {parts more : List (List Char)} {rest : List Char}
      (hmore : ∀ part parts, more = part :: parts → part <+: rest)
      (h : Source.prepend text more = part :: parts) : part <+: text ++ rest := by
    cases more with
    | nil =>
      obtain ⟨rfl, -⟩ := List.cons.inj h
      exact List.prefix_append ..
    | cons first more =>
      obtain ⟨rfl, -⟩ := List.cons.inj h
      exact (List.prefix_append_right_inj text).mpr (hmore _ _ rfl)
  fun_induction splitAtCommas level ps generalizing part parts with
  | case1 =>
    obtain ⟨rfl, -⟩ := List.cons.inj h
    exact List.nil_prefix
  | case2 level text ps ih => exact hprepend (fun _ _ => ih) h
  | case3 level c ps _ ih =>
    obtain ⟨rfl, -⟩ := List.cons.inj h
    exact List.nil_prefix
  | case4 level c ps _ ih => exact hprepend (fun _ _ => ih) h

theorem Operand.splitAtCommas {p : Piece} (hp : Operand p) (level : Int) (ps : List Piece) :
    splitAtCommas level (p :: ps) = prepend p.text (splitAtCommas level ps) := by
  cases p with
  | skipped text => rfl
  | code c =>
    have hword := hp.word c rfl
    simp only [isPlainWord, isPlain, Bool.and_eq_true, Bool.not_eq_true', bne_iff_ne] at hword
    have hlevel : levelChange c = 0 := by simp [levelChange, hword.1.1.2, hword.1.2]
    rw [Source.splitAtCommas, hlevel, Int.add_zero]
    simp [hword.2, Piece.text]

/-- The slot lies in the last part that starts in front of it. The other parts, and where this one
ends, do not depend on what stands in the slot. -/
theorem Slot.commaParts (h : Slot operands none front back) :
    ∃ parts last seen back' parts', Slot operands seen last back' ∧
      commaParts front = parts ++ [last] ∧
      ∀ p, operands p → commaParts (front ++ (p.text ++ back)) =
        parts ++ (last ++ (p.text ++ back')) :: parts' := by
  obtain ⟨parts, last, first, level, hps, -, hsplit⟩ := exists_parts 0 (Source.pieces none front)
  obtain ⟨back', parts', hback⟩ :=
    List.exists_cons_of_ne_nil (splitAtCommas_ne_nil level (Source.pieces operandEnd back))
  have hstart : back' <+: back := by
    have := prefix_of_splitAtCommas hback
    rwa [textOf_pieces] at this
  refine ⟨parts, textOf last, _, back', parts', (h.left hps).cut hstart, ?_, fun p hp => ?_⟩
  · have := hsplit []
    rw [List.append_nil] at this
    rw [Source.commaParts, this, Source.splitAtCommas]
    simp [Source.prepend]
  · rw [Source.commaParts, h.pieces hp, hsplit, (h.operand p hp).splitAtCommas, hback]
    simp [Source.prepend]

/-! ### Blanks and comments -/

/-- What is left out in front of a text are whole pieces, and the same ones where more follows that
is not left out. -/
theorem exists_stripped {ps : List Piece} (h : Walked before ps) :
    ∃ gone core, ps = gone ++ core ∧ ∀ more, Walked before (ps ++ more) →
      (∀ p ∈ more.head?, p.Solid) →
        stripComments (textOf (ps ++ more)) = textOf (core ++ more) := by
  induction ps generalizing before with
  | nil =>
    refine ⟨[], [], rfl, fun more hwalk hsolid => ?_⟩
    cases more with
    | nil => exact stripComments_nil
    | cons p more => exact stripComments_walked hwalk (hsolid p rfl)
  | cons p ps ih =>
    by_cases hp : p.Solid
    · exact ⟨[], p :: ps, rfl, fun more hwalk _ => stripComments_walked hwalk hp⟩
    · obtain ⟨gone, core, rfl, hstrip⟩ := ih (@Walked.back before [p] ps h)
      refine ⟨p :: gone, core, rfl, fun more hwalk hsolid => ?_⟩
      have hwalked : Walked before (p :: (gone ++ core ++ more)) := hwalk
      exact (stripComments_unsolid hwalked hp []).1.trans
        (hstrip more (@Walked.back before [p] _ hwalked) hsolid)

/-- What is left out in front of a text is left out in front of the slot. -/
theorem Slot.strip (h : Slot operands before front back) :
    (∃ seen, Slot operands seen (stripComments front) back) ∧
      ∀ p, operands p → stripComments (front ++ (p.text ++ back)) =
        stripComments front ++ (p.text ++ back) := by
  obtain ⟨gone, core, hpieces, hstrip⟩ := exists_stripped (walked_pieces before front)
  have hself : stripComments front = textOf core := by
    have := hstrip [] (by rw [List.append_nil]; exact walked_pieces before front) (by simp)
    rwa [List.append_nil, List.append_nil, textOf_pieces] at this
  rw [hself]
  refine ⟨⟨_, h.left hpieces⟩, fun p hp => ?_⟩
  have hwalk := walked_pieces before (front ++ (p.text ++ back))
  rw [h.pieces hp] at hwalk
  have := hstrip _ hwalk fun q hq => Option.some.inj hq ▸ (h.operand p hp).solid
  simpa only [textOf_append, textOf_cons, textOf_pieces] using this

theorem Operand.trimStart {p : Piece} (hp : Operand p) (front back : List Char) :
    trimStart (front ++ (p.text ++ back)) = trimStart front ++ (p.text ++ back) := by
  obtain ⟨c, rest, htext, hc, -⟩ := hp.first
  rw [htext]
  exact dropWhile_stop hc front (rest ++ back)

theorem Operand.trimEnd {p : Piece} (hp : Operand p) (front back : List Char) :
    trimEnd (front ++ (p.text ++ back)) = front ++ (p.text ++ trimEnd back) := by
  obtain ⟨start, c, htext, hc⟩ := hp.last
  have hsolid := trimEnd_solid (front ++ start) hc back
  simpa [htext] using hsolid

/-! ### Readers -/

/-- The last solid character is the one in front, or one of the text. -/
theorem lastSolid_cases (before : Option Char) (cs : List Char) :
    (lastSolid before cs = before ∧ ∀ c ∈ cs, isAsciiBlank c = true) ∨
      ∃ start c gap, cs = start ++ c :: gap ∧ lastSolid before cs = some c := by
  induction cs generalizing before with
  | nil => exact .inl ⟨rfl, List.forall_mem_nil _⟩
  | cons d cs ih =>
    have hcons : lastSolid before (d :: cs) =
        lastSolid (if isAsciiBlank d then before else some d) cs := rfl
    rw [hcons]
    obtain ⟨hlast, hblank⟩ | ⟨start, c, gap, rfl, hlast⟩ :=
      ih (if isAsciiBlank d then before else some d)
    · by_cases hd : isAsciiBlank d = true
      · exact .inl ⟨by rw [hlast, if_pos hd], List.forall_mem_cons.mpr ⟨hd, hblank⟩⟩
      · exact .inr ⟨[], d, cs, rfl, by rw [hlast, if_neg hd]⟩
    · exact .inr ⟨d :: start, c, gap, rfl, hlast⟩

theorem Quoted.exists_sign (h : Quoted operands) (front : List Char) :
    ∃ start sign gap, front = start ++ gap ∧ Ends sign ∧
      ∀ p, operands p → ∃ more, gap ++ p.text = sign :: more := by
  obtain ⟨quote, hq, hhead⟩ := h
  exact ⟨front, quote, [], (List.append_nil front).symm, ends_of_isQuote hq,
    fun p hp => List.head?_eq_some_iff.mp (hhead p hp)⟩

/-- The slot is not the first solid place behind a character that a regular expression can follow,
unless the operands start with a quote. -/
def Barred (operands : Piece → Prop) (before : Option Char) (front : List Char) : Prop :=
  Quoted operands ∨ opensRegex before = false ∨ ∃ c ∈ front, isBlank c = false

/-- Then a sign stands in front of the slot, or starts what is in it. -/
theorem Slot.exists_sign (h : Slot operands before front back)
    (hbarred : Barred operands before front) :
    ∃ start sign gap, front = start ++ gap ∧ Ends sign ∧
      ∀ p, operands p → ∃ more, gap ++ p.text = sign :: more := by
  obtain hquoted | hopens := h.stop
  · exact hquoted.exists_sign front
  · obtain ⟨hlast, hblank⟩ | ⟨start, c, gap, rfl, hlast⟩ := lastSolid_cases before front
    · rcases hbarred with hquoted | hbefore | ⟨c, hc, hsolid⟩
      · exact hquoted.exists_sign front
      · rw [hlast, hbefore] at hopens
        cases hopens
      · rw [isBlank_of_isAsciiBlank (hblank c hc)] at hsolid
        cases hsolid
    · rw [hlast] at hopens
      exact ⟨start, c, c :: gap, rfl, ends_of_mem_beforeRegex c (List.contains_iff_mem.mp hopens),
        fun p _ => ⟨gap ++ p.text, rfl⟩⟩

/-- A reader that stops in front of signs takes nothing of what stands in the slot. -/
theorem Slot.read {read : List Char → Option Cut} (hread : ∀ sign, Ends sign → Stops sign read)
    (h : Slot operands before front back) (hbarred : Barred operands before front) :
    (∀ p, operands p → read (front ++ (p.text ++ back)) = none) ∨
      ∃ taken rest, Behind front rest ∧ ∀ p, operands p →
        read (front ++ (p.text ++ back)) = some (taken, rest ++ (p.text ++ back)) := by
  obtain ⟨start, sign, gap, rfl, hends, hmore⟩ := h.exists_sign hbarred
  have hstop (p : Piece) (hp : operands p) : read (start ++ gap ++ (p.text ++ back)) =
      (read start).map fun cut => (cut.1, cut.2 ++ gap ++ (p.text ++ back)) := by
    obtain ⟨more, hmore⟩ := hmore p hp
    have htext (text : List Char) : text ++ gap ++ (p.text ++ back) =
        text ++ sign :: (more ++ back) := by
      rw [List.append_assoc, ← List.append_assoc gap, hmore, List.cons_append]
    simp only [htext, (hread sign hends).stop]
  cases hcut : read start with
  | none => exact .inl fun p hp => by rw [hstop p hp, hcut]; rfl
  | some cut =>
    obtain ⟨code, hcode, rfl⟩ := (hread sign hends).code _ _ hcut
    exact .inr ⟨cut.1, cut.2 ++ gap, ⟨code, hcode, List.append_assoc ..⟩,
      fun p hp => by rw [hstop p hp, hcut]; rfl⟩

end

end RouteScaffold.Source
