import RouteScaffold.Proofs.Source.Comments
import RouteScaffold.Proofs.Source.Overwritten

/-! The masked copy and the walks agree.

A declaration is found on the masked copy, and its brackets are walked on the text
itself, mostly on a slice that starts and ends somewhere else. On the masked copy
nothing needs to be passed over: counting its brackets finds the bracket that the walk
finds (`countClosing_shown`), in the whole text and in every slice that holds the
opening bracket, and the commas that the walk cuts at are those that the copy shows
on level zero (`Cuts`). `walks_agree` puts this together. -/
namespace RouteScaffold.Source
open Text

/-! ### Bytes -/

/-- The length of a text in UTF-8. -/
def byteLength : List Char → Nat
  | [] => 0
  | c :: cs => c.utf8Size + byteLength cs

@[simp] theorem byteLength_nil : byteLength [] = 0 := rfl

@[simp] theorem byteLength_cons (c : Char) (cs : List Char) :
    byteLength (c :: cs) = c.utf8Size + byteLength cs := rfl

@[simp] theorem byteLength_append (a b : List Char) :
    byteLength (a ++ b) = byteLength a + byteLength b := by
  induction a with
  | nil => simp
  | cons c a ih => rw [List.cons_append, byteLength_cons, byteLength_cons, ih, Nat.add_assoc]

theorem byteLength_spaces (n : Nat) : byteLength (List.replicate n ' ') = n := by
  have hspace : Char.utf8Size ' ' = 1 := by decide
  induction n with
  | zero => rfl
  | succ n ih => rw [List.replicate_succ, byteLength_cons, ih, hspace, Nat.add_comm]

theorem byteLength_hide (c : Char) : byteLength (shown (hide c)) = c.utf8Size := by
  have hpos : 0 < c.utf8Size := c.utf8Size_pos
  unfold hide
  split
  next hbreak => simp [shown, byteLength]
  next =>
    rw [shown, List.map_cons, List.map_replicate, ← List.replicate_succ, byteLength_spaces]
    omega

/-- A hidden stretch shows as many bytes as it has. -/
theorem byteLength_blanked (text : List Char) : byteLength (blanked text) = byteLength text := by
  induction text with
  | nil => rfl
  | cons c text ih =>
    rw [blanked, List.flatMap_cons, shown_append, byteLength_append, byteLength_hide,
      byteLength_cons, ← ih]
    rfl

theorem byteLength_shown (ps : List Piece) :
    byteLength (shown (ps.flatMap Piece.cells)) = byteLength (textOf ps) := by
  induction ps with
  | nil => rfl
  | cons p ps ih =>
    have hp : byteLength (shown p.cells) = byteLength p.text := by
      cases p with
      | skipped text => exact byteLength_blanked text
      | code c => rfl
    rw [List.flatMap_cons, shown_append, byteLength_append, hp, ih, textOf_cons, byteLength_append]

/-! ### Counting brackets -/

/-- The bytes in front of the bracket that closes a bracket opened `depth` levels further out,
where every bracket counts and nothing is passed over. -/
def countClosing (depth : Nat) : List Char → Option Nat
  | [] => none
  | c :: cs =>
    if isOpening c then (countClosing (depth + 1) cs).map (c.utf8Size + ·)
    else if isClosing c then
      match depth with
      | 0 => some 0
      | depth + 1 => (countClosing depth cs).map (c.utf8Size + ·)
    else (countClosing depth cs).map (c.utf8Size + ·)

/-- The offset of the bracket that closes `bracket`, walked in place: in front of it stands
`front`, which a look back may reach, and behind it `rest`. -/
def closingOffset? (front : List Char) (bracket : Char) (rest : List Char) : Option Nat :=
  (untilClosing 0 (pieces (lastSolid none (front ++ [bracket])) rest)).map fun cut =>
    byteLength (front ++ bracket :: cut.1)

theorem not_bracket_of_blank {c : Char} (h : c = ' ' ∨ c = '\n') :
    isOpening c = false ∧ isClosing c = false := by
  rcases h with rfl | rfl <;> decide

theorem countClosing_plain {c : Char} (ho : isOpening c = false) (hc : isClosing c = false)
    (depth : Nat) (cs : List Char) :
    countClosing depth (c :: cs) = (countClosing depth cs).map (c.utf8Size + ·) := by
  cases depth <;> simp [countClosing, ho, hc]

theorem countClosing_blank {blank : List Char} (h : ∀ c ∈ blank, c = ' ' ∨ c = '\n')
    (depth : Nat) (cs : List Char) :
    countClosing depth (blank ++ cs) = (countClosing depth cs).map (byteLength blank + ·) := by
  induction blank with
  | nil => simp
  | cons c blank ih =>
    obtain ⟨ho, hc⟩ := not_bracket_of_blank (h c (List.mem_cons_self ..))
    rw [List.cons_append, countClosing_plain ho hc, ih fun d hd => h d (List.mem_cons_of_mem c hd),
      Option.map_map]
    congr 1
    funext n
    simp [Nat.add_assoc]

/-- On what a list of pieces shows, counting stops where the walk over the pieces does. -/
theorem countClosing_shown (depth : Nat) (ps : List Piece) :
    countClosing depth (shown (ps.flatMap Piece.cells)) =
      (untilClosing depth ps).map fun cut => byteLength cut.1 := by
  induction ps generalizing depth with
  | nil => rfl
  | cons p ps ih =>
    rw [List.flatMap_cons, shown_append]
    cases p with
    | skipped text =>
      have hblank := countClosing_blank (fun c (hc : c ∈ blanked text) => mem_blanked hc) depth
        (shown (ps.flatMap Piece.cells))
      rw [byteLength_blanked] at hblank
      refine hblank.trans ?_
      rw [ih, untilClosing, Option.map_map, Option.map_map]
      congr 1
      funext cut
      simp
    | code c =>
      show countClosing depth (c :: shown (ps.flatMap Piece.cells)) = _
      have hcons (depth : Nat) :
          (countClosing depth (shown (ps.flatMap Piece.cells))).map (c.utf8Size + ·) =
            ((untilClosing depth ps).map (Cut.cons c)).map fun cut => byteLength cut.1 := by
        rw [ih, Option.map_map, Option.map_map]
        rfl
      cases depth with
      | zero =>
        rw [countClosing, untilClosing]
        split_ifs
        · exact hcons 1
        · rfl
        · exact hcons 0
      | succ depth =>
        rw [countClosing, untilClosing]
        split_ifs
        · exact hcons (depth + 2)
        · exact hcons depth
        · exact hcons (depth + 1)

/-! ### Levels -/

/-- How far down the brackets of a text lead. -/
def levelOf : List Char → Int
  | [] => 0
  | c :: cs => levelChange c + levelOf cs

@[simp] theorem levelOf_nil : levelOf [] = 0 := rfl

@[simp] theorem levelOf_cons (c : Char) (cs : List Char) :
    levelOf (c :: cs) = levelChange c + levelOf cs := rfl

/-- Within what a bracket encloses the level is never above the bracket's own, and at the end it is
back on it. -/
structure Balanced (level : Int) (cells : List Cell) : Prop where
  within : ∀ a b, cells = a ++ b → 0 ≤ level + levelOf (shown a)
  total : level + levelOf (shown cells) = 0

theorem Balanced.cons {level : Int} {cell : Cell} {cells : List Cell} (hlevel : 0 ≤ level)
    (h : Balanced (level + levelChange cell.shown) cells) : Balanced level (cell :: cells) := by
  refine ⟨fun a b hsplit => ?_, ?_⟩
  · cases a with
    | nil => simpa [shown] using hlevel
    | cons first a =>
      obtain ⟨rfl, hrest⟩ := List.cons.inj hsplit
      have hwithin := h.within a b hrest
      rw [shown_cons, levelOf_cons]
      omega
  · have htotal := h.total
    rw [shown_cons, levelOf_cons]
    omega

theorem Balanced.blank {level : Int} {cells : List Cell} (hlevel : 0 ≤ level)
    (h : Balanced level cells) {blank : List Cell}
    (hblank : ∀ cell ∈ blank, cell.shown = ' ' ∨ cell.shown = '\n') :
    Balanced level (blank ++ cells) := by
  induction blank with
  | nil => exact h
  | cons cell blank ih =>
    have hrest := ih fun other hother => hblank other (List.mem_cons_of_mem cell hother)
    have hchange : levelChange cell.shown = 0 := by
      rcases hblank cell (List.mem_cons_self ..) with hc | hc <;> rw [hc] <;> rfl
    exact .cons hlevel (by rwa [hchange, Int.add_zero])

/-- All columns of a hidden stretch are blank. -/
theorem blank_of_mem_hidden (text : List Char) :
    ∀ cell ∈ text.flatMap hide, cell.shown = ' ' ∨ cell.shown = '\n' :=
  fun _ hcell => mem_blanked (List.mem_map_of_mem hcell)

/-- From pieces that start on `level` the cut leads out at a closing bracket, and not before it. -/
def Closes (level : Int) (ps : List Piece) (cut : Cut) : Prop :=
  ∃ inside c after, ps = inside ++ .code c :: after ∧ isClosing c = true ∧
    cut = (textOf inside, textOf after) ∧ Balanced level (inside.flatMap Piece.cells)

theorem Closes.code {level : Int} {c : Char} {ps : List Piece} {cut : Cut} (hlevel : 0 ≤ level)
    (h : Closes (level + levelChange c) ps cut) :
    Closes level (.code c :: ps) (.cons c cut) := by
  obtain ⟨inside, d, after, rfl, hd, rfl, hbalanced⟩ := h
  exact ⟨.code c :: inside, d, after, rfl, hd, rfl, hbalanced.cons hlevel⟩

theorem Closes.skipped {level : Int} {text : List Char} {ps : List Piece} {cut : Cut}
    (hlevel : 0 ≤ level) (h : Closes level ps cut) :
    Closes level (.skipped text :: ps) (text ++ cut.1, cut.2) := by
  obtain ⟨inside, d, after, rfl, hd, rfl, hbalanced⟩ := h
  exact ⟨.skipped text :: inside, d, after, rfl, hd, rfl,
    hbalanced.blank hlevel (blank_of_mem_hidden text)⟩

/-- The walk to a closing bracket never leaves the bracket before. -/
theorem closes_of_untilClosing {depth : Nat} {ps : List Piece} {cut : Cut}
    (h : untilClosing depth ps = some cut) : Closes depth ps cut := by
  have hlevel (depth : Nat) : (0 : Int) ≤ depth := Int.natCast_nonneg depth
  fun_induction untilClosing depth ps generalizing cut with
  | case1 => cases h
  | case2 depth text ps ih =>
    obtain ⟨cut, hcut, rfl⟩ := Option.map_eq_some_iff.mp h
    exact .skipped (hlevel depth) (ih hcut)
  | case3 depth c ps ho ih =>
    obtain ⟨cut, hcut, rfl⟩ := Option.map_eq_some_iff.mp h
    have hchange : (depth : Int) + levelChange c = (depth + 1 : Nat) := by simp [levelChange, ho]
    exact .code (hlevel depth) (hchange ▸ ih hcut)
  | case4 c ps ho hc =>
    obtain rfl := Option.some.inj h
    refine ⟨[], c, ps, rfl, hc, rfl, fun a b hsplit => ?_, rfl⟩
    obtain ⟨rfl, -⟩ := List.append_eq_nil_iff.mp hsplit.symm
    exact Int.le_refl 0
  | case5 c ps ho hc depth ih =>
    obtain ⟨cut, hcut, rfl⟩ := Option.map_eq_some_iff.mp h
    have hchange : ((depth + 1 : Nat) : Int) + levelChange c = depth := by
      rw [levelChange, if_neg ho, if_pos hc]
      omega
    exact .code (hlevel (depth + 1)) (hchange ▸ ih hcut)
  | case6 depth c ps ho hc ih =>
    obtain ⟨cut, hcut, rfl⟩ := Option.map_eq_some_iff.mp h
    have hchange : (depth : Int) + levelChange c = depth := by simp [levelChange, ho, hc]
    exact .code (hlevel depth) (hchange.symm ▸ ih hcut)

/-! ### Commas -/

/-- In columns that start on `level`, no comma stands on level zero. -/
def Whole (level : Int) (part : List Cell) : Prop :=
  ∀ a cell b, part = a ++ cell :: b → cell.shown = ',' → level + levelOf (shown a) ≠ 0

/-- The parts of columns that start on `level`: between any two stands a comma on level zero, and
in none of them does. -/
inductive Cuts : Int → List Cell → List (List Cell) → Prop where
  | last {level part} : Whole level part → Cuts level part [part]
  | comma {level part cell rest parts} : Whole level part → cell.shown = ',' →
      level + levelOf (shown part) = 0 → Cuts 0 rest parts →
      Cuts level (part ++ cell :: rest) (part :: parts)

theorem whole_nil (level : Int) : Whole level [] := fun _ _ _ h => by simp at h

theorem Whole.cons {level : Int} {cell : Cell} (hcell : cell.shown = ',' → level ≠ 0)
    {part : List Cell} (h : Whole (level + levelChange cell.shown) part) :
    Whole level (cell :: part) := by
  intro a other b hsplit hother
  cases a with
  | nil =>
    obtain ⟨rfl, -⟩ := List.cons.inj hsplit
    simpa [shown] using hcell hother
  | cons first a =>
    obtain ⟨rfl, hrest⟩ := List.cons.inj hsplit
    have := h a other b hrest hother
    rw [shown_cons, levelOf_cons]
    omega

theorem Cuts.cons {level : Int} {cell : Cell} (hcell : cell.shown = ',' → level ≠ 0)
    {cells : List Cell} {parts : List (List Cell)}
    (h : Cuts (level + levelChange cell.shown) cells parts) :
    ∃ part more, parts = part :: more ∧ Cuts level (cell :: cells) ((cell :: part) :: more) := by
  cases h with
  | last hwhole => exact ⟨_, _, rfl, .last (hwhole.cons hcell)⟩
  | comma hwhole hcomma hlevel hrest =>
    refine ⟨_, _, rfl, .comma (hwhole.cons hcell) hcomma ?_ hrest⟩
    rw [shown_cons, levelOf_cons]
    omega

theorem Cuts.blank {level : Int} {cells : List Cell} {parts : List (List Cell)}
    (h : Cuts level cells parts) {blank : List Cell}
    (hblank : ∀ cell ∈ blank, cell.shown = ' ' ∨ cell.shown = '\n') :
    ∃ part more, parts = part :: more ∧ Cuts level (blank ++ cells) ((blank ++ part) :: more) := by
  induction blank with
  | nil => cases h with
    | last hwhole => exact ⟨_, _, rfl, .last hwhole⟩
    | comma hwhole hcomma hlevel hrest => exact ⟨_, _, rfl, .comma hwhole hcomma hlevel hrest⟩
  | cons cell blank ih =>
    obtain ⟨part, more, hparts, hcuts⟩ :=
      ih fun other hother => hblank other (List.mem_cons_of_mem cell hother)
    have hshown : cell.shown ≠ ',' ∧ levelChange cell.shown = 0 := by
      rcases hblank cell (List.mem_cons_self ..) with hc | hc <;> rw [hc] <;> decide
    have hcuts' : Cuts (level + levelChange cell.shown) (blank ++ cells)
        ((blank ++ part) :: more) := by
      rwa [hshown.2, Int.add_zero]
    obtain ⟨part', more', heq, hcuts'⟩ := hcuts'.cons fun hcomma => absurd hcomma hshown.1
    obtain ⟨rfl, rfl⟩ := List.cons.inj heq
    exact ⟨part, more, hparts, hcuts'⟩

/-- The walk cuts at the commas that the masked copy shows on level zero. -/
theorem exists_cuts (level : Int) (ps : List Piece) :
    ∃ parts, splitAtCommas level ps = parts.map sourceOf ∧
      Cuts level (ps.flatMap Piece.cells) parts := by
  induction ps generalizing level with
  | nil => exact ⟨[[]], rfl, .last (whole_nil level)⟩
  | cons p ps ih =>
    cases p with
    | skipped text =>
      obtain ⟨parts, hsplit, hcuts⟩ := ih level
      obtain ⟨part, more, rfl, hblank⟩ := hcuts.blank (blank_of_mem_hidden text)
      refine ⟨(text.flatMap hide ++ part) :: more, ?_, hblank⟩
      rw [splitAtCommas, hsplit, List.map_cons, List.map_cons, sourceOf_append,
        sourceOf_flatMap_hide]
      rfl
    | code c =>
      by_cases hcomma : (c == ',' && level == 0) = true
      · obtain ⟨rfl, rfl⟩ : c = ',' ∧ level = 0 := by simpa using hcomma
        obtain ⟨parts, hsplit, hcuts⟩ := ih 0
        refine ⟨[] :: parts, ?_, .comma (whole_nil 0) rfl rfl hcuts⟩
        rw [splitAtCommas, if_pos hcomma, hsplit]
        rfl
      · obtain ⟨parts, hsplit, hcuts⟩ := ih (level + levelChange c)
        have hc : c = ',' → level ≠ 0 := fun h hlevel => hcomma (by simp [h, hlevel])
        obtain ⟨part, more, rfl, hcons⟩ := @Cuts.cons level ⟨c, [c]⟩ hc _ _ hcuts
        refine ⟨(⟨c, [c]⟩ :: part) :: more, ?_, hcons⟩
        rw [splitAtCommas, if_neg hcomma, hsplit]
        rfl

/-! ### In the whole text and in its slices -/

theorem isBlank_of_isOpening {c : Char} (h : isOpening c = true) : isBlank c = false := by
  simp only [isOpening, Bool.or_eq_true, beq_iff_eq] at h
  rcases h with (rfl | rfl) | rfl <;> decide

theorem opensRegex_of_isOpening {c : Char} (h : isOpening c = true) :
    opensRegex (some c) = true := by
  simp only [isOpening, Bool.or_eq_true, beq_iff_eq] at h
  rcases h with (rfl | rfl) | rfl <;> rfl

/-- The walk in place is the walk that starts at the bracket: what stands in front of it is not
looked at. -/
theorem closingOffset?_eq {c : Char} (h : isOpening c = true) (front rest : List Char) :
    closingOffset? front c rest =
      (enclosed? c rest).map fun cut => byteLength (front ++ c :: cut.1) := by
  rw [closingOffset?, enclosed?, lastSolid_of_opens (opensRegex_of_isOpening h)]

/-- **The masked copy and the walks agree** at every opening bracket that the copy shows. Whichever
slice of the text the walk to its closing bracket is given, it ends where counting brackets on the
copy ends, or neither ends. The text in between is cut at exactly those commas that the copy shows
there on level zero, the level is never below zero and zero at the end, and the parts joined with
commas are the text. -/
theorem walks_agree {source : List Char} {front back : List Cell} {cell : Cell}
    (hmask : mask source = front ++ cell :: back) (hopen : isOpening cell.shown = true) :
    (∀ outside before, sourceOf front = outside ++ before →
      (closingOffset? before cell.shown (sourceOf back)).map (byteLength outside + ·) =
        (countClosing 0 (shown back)).map (byteLength (shown front ++ [cell.shown]) + ·)) ∧
    ∀ inside after, enclosed? cell.shown (sourceOf back) = some (inside, after) →
      ∃ columns closing rest parts, back = columns ++ closing :: rest ∧
        isClosing closing.shown = true ∧ inside = sourceOf columns ∧ after = sourceOf rest ∧
        countClosing 0 (shown back) = some (byteLength inside) ∧
        Balanced 0 columns ∧ Cuts 0 columns parts ∧ commaParts inside = parts.map sourceOf ∧
        List.intercalate [','] (commaParts inside) = inside := by
  obtain ⟨qs, rs, hpieces, rfl, rfl⟩ := exists_code hmask (isBlank_of_isOpening hopen)
  have hopens := opensRegex_of_isOpening hopen
  have hwalked : Walked (some cell.shown) rs := by
    have hback : Walked none (qs ++ .code cell.shown :: rs) := hpieces ▸ walked_pieces none source
    have hlast := lastSolid_of_opens hopens (lastSolid none (textOf qs)) []
    exact hlast ▸ (walked_code.mp hback.back).2
  have hcount : countClosing 0 (shown (rs.flatMap Piece.cells)) =
      (enclosed? cell.shown (textOf rs)).map fun cut => byteLength cut.1 := by
    rw [countClosing_shown, enclosed?, hwalked]
  rw [sourceOf_cells, sourceOf_cells]
  refine ⟨fun outside before hfront => ?_, fun inside after henclosed => ?_⟩
  · have hbytes : byteLength (shown (qs.flatMap Piece.cells)) =
        byteLength outside + byteLength before := by
      rw [byteLength_shown, hfront, byteLength_append]
    rw [closingOffset?_eq hopen, hcount, Option.map_map, Option.map_map]
    congr 1
    funext cut
    simp only [Function.comp_apply, byteLength_append, byteLength_cons, byteLength_nil, hbytes]
    omega
  · have huntil := henclosed
    rw [enclosed?, hwalked] at huntil
    obtain ⟨ps, c, more, rfl, hc, hcut, hbalanced⟩ := closes_of_untilClosing huntil
    obtain ⟨rfl, rfl⟩ := Prod.mk.inj hcut
    obtain ⟨parts, hparts, hcuts⟩ := exists_cuts 0 ps
    have hpieces : pieces none (textOf ps) = ps := hwalked.front.congr hopens
    refine ⟨ps.flatMap Piece.cells, ⟨c, [c]⟩, more.flatMap Piece.cells, parts, ?_, hc,
      (sourceOf_cells ps).symm, (sourceOf_cells more).symm, ?_, hbalanced, hcuts, ?_,
      intercalate_commaParts _⟩
    · rw [List.flatMap_append]
      rfl
    · rw [hcount, henclosed]
      rfl
    · rw [commaParts, hpieces, hparts]

/-- A brace with a string, a comment and a regular expression behind it that hold brackets and
commas. -/
theorem walks_agree_literals :
    let source := "f(\x7b a: 'é)', /* ] */ b: [x, /[,\x7d]/g] \x7d, \"".toList
    let front := (mask source).take 2
    let cell : Cell := ⟨'\x7b', ['\x7b']⟩
    let back := (mask source).drop 3
    (mask source = front ++ cell :: back ∧ isOpening cell.shown = true) ∧
    (∀ outside before, sourceOf front = outside ++ before →
      (closingOffset? before cell.shown (sourceOf back)).map (byteLength outside + ·) =
        (countClosing 0 (shown back)).map (byteLength (shown front ++ [cell.shown]) + ·)) ∧
    ∀ inside after, enclosed? cell.shown (sourceOf back) = some (inside, after) →
      ∃ columns closing rest parts, back = columns ++ closing :: rest ∧
        isClosing closing.shown = true ∧ inside = sourceOf columns ∧ after = sourceOf rest ∧
        countClosing 0 (shown back) = some (byteLength inside) ∧
        Balanced 0 columns ∧ Cuts 0 columns parts ∧ commaParts inside = parts.map sourceOf ∧
        List.intercalate [','] (commaParts inside) = inside := by
  intro source front cell back
  have hmask : mask source = front ++ cell :: back := by decide +kernel
  have hopen : isOpening cell.shown = true := rfl
  exact ⟨⟨hmask, hopen⟩, walks_agree hmask hopen⟩

end RouteScaffold.Source
