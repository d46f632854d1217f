import Mathlib.Algebra.Group.Int.Defs
import Mathlib.Algebra.Group.Nat.Defs
import RouteScaffold.Proofs.Offset.Bytes

/-! Levels of 32 bits.

The cut at the commas counts in 32 bits how far down the brackets lead. The program can be
built in two ways: a sum that leaves the 32 bits wraps around, or it stops the program
(`Overflow`). As long as the levels of a text fit (`Shallow`), it is cut either way as if
there were no bound on levels (`splitAtLevels_of_bounded`). Those of a text of fewer than 2³¹
characters do, and those of 2³¹ brackets that stay open do not (`shallow_replicate_iff`).
Otherwise the one way leads to parts of the text all the same (`exists_splitAtLevels`), and the
other one to a fault (`splitAtLevels_stops`).

A reading that cuts texts at their commas inherits this from the cuts (`Gives.bind`). -/
namespace RouteScaffold.Offset
open Source

/-- What becomes of a sum that does not fit into 32 bits. -/
inductive Overflow where
  | wraps
  | stops
  deriving DecidableEq, Repr

/-- The number fits into 32 bits. -/
def Fits (n : Int) : Prop := -2 ^ 31 ≤ n ∧ n < 2 ^ 31

instance (n : Int) : Decidable (Fits n) := inferInstanceAs (Decidable (_ ∧ _))

/-- The level behind a sign. -/
def nextLevel (overflow : Overflow) (level : Int32) (c : Char) : Outcome Int32 :=
  let next := level.toInt + levelChange c
  match overflow with
  | .wraps => pure (.ofInt next)
  | .stops => if Fits next then pure (.ofInt next) else throw .overflow

theorem fits_toInt (level : Int32) : Fits level.toInt := ⟨level.le_toInt, level.toInt_lt⟩

theorem nextLevel_of_fits {level : Int32} {c : Char} (h : Fits (level.toInt + levelChange c))
    (overflow : Overflow) :
    nextLevel overflow level c = pure (.ofInt (level.toInt + levelChange c)) := by
  cases overflow with
  | wraps => rfl
  | stops => exact if_pos h

theorem nextLevel_of_not_fits {level : Int32} {c : Char}
    (h : ¬ Fits (level.toInt + levelChange c)) : nextLevel .stops level c = throw .overflow :=
  if_neg h

/-- Only brackets lead to another level. -/
theorem nextLevel_of_zero {c : Char} (h : levelChange c = 0) (overflow : Overflow)
    (level : Int32) : nextLevel overflow level c = pure level := by
  rw [nextLevel_of_fits] <;> rw [h, Int.add_zero]
  · rw [Int32.ofInt_toInt]
  · exact fits_toInt level

/-! ### The cut at the commas -/

/-- The first of the parts between the commas on level zero, and the others, with levels of
32 bits. -/
def splitAtLevels (overflow : Overflow) (level : Int32) :
    List Piece → Outcome (List Char × List (List Char))
  | [] => pure ([], [])
  | .skipped text :: ps => do
    let cut ← splitAtLevels overflow level ps
    return (text ++ cut.1, cut.2)
  | .code c :: ps => do
    if c == ',' && level == 0 then
      let cut ← splitAtLevels overflow level ps
      return ([], cut.1 :: cut.2)
    else
      let cut ← splitAtLevels overflow (← nextLevel overflow level c) ps
      return (c :: cut.1, cut.2)

/-- The levels of what is walked over from `level` on fit into 32 bits. -/
def Bounded (level : Int) (cs : List Char) : Prop :=
  ∀ front, front <+: cs → Fits (level + levelOf front)

/-- The levels of the text, counted on its masked copy, fit into 32 bits. -/
def Shallow (text : List Char) : Prop := Bounded 0 (codeOf text)

theorem Bounded.fits {level : Int} {cs : List Char} (h : Bounded level cs) : Fits level := by
  simpa using h [] List.nil_prefix

theorem bounded_cons_iff {level : Int} {c : Char} {cs : List Char} :
    Bounded level (c :: cs) ↔ Fits level ∧ Bounded (level + levelChange c) cs := by
  constructor
  · refine fun h => ⟨h.fits, fun front hfront => ?_⟩
    have hcons := h (c :: front) (List.cons_prefix_cons.mpr ⟨rfl, hfront⟩)
    rwa [levelOf_cons, ← Int.add_assoc] at hcons
  · rintro ⟨hlevel, hrest⟩ front hfront
    rcases List.prefix_cons_iff.mp hfront with rfl | ⟨front, rfl, hstarts⟩
    · rwa [levelOf_nil, Int.add_zero]
    · rw [levelOf_cons, ← Int.add_assoc]
      exact hrest front hstarts

theorem bounded_append_iff {level : Int} {blank : List Char} (h : ∀ c ∈ blank, levelChange c = 0)
    (cs : List Char) : Bounded level (blank ++ cs) ↔ Bounded level cs := by
  induction blank with
  | nil => rfl
  | cons c blank ih =>
    obtain ⟨hc, hblank⟩ := List.forall_mem_cons.mp h
    rw [List.cons_append, bounded_cons_iff, hc, Int.add_zero, ih hblank]
    exact and_iff_right_of_imp Bounded.fits

/-- The levels that a walk over pieces passes fit into 32 bits. -/
def WalkBounded (level : Int) (ps : List Piece) : Prop :=
  Bounded level (shown (ps.flatMap Piece.cells))

theorem walkBounded_skipped_iff {level : Int} {text : List Char} {ps : List Piece} :
    WalkBounded level (.skipped text :: ps) ↔ WalkBounded level ps := by
  have hblank : ∀ c ∈ blanked text, levelChange c = 0 := fun c hc => by
    rcases mem_blanked hc with rfl | rfl <;> rfl
  rw [WalkBounded, List.flatMap_cons, shown_append]
  exact bounded_append_iff hblank _

theorem walkBounded_code_iff {level : Int} {c : Char} {ps : List Piece} :
    WalkBounded level (.code c :: ps) ↔ Fits level ∧ WalkBounded (level + levelChange c) ps :=
  bounded_cons_iff

theorem toInt_ofInt {n : Int} (h : Fits n) : (Int32.ofInt n).toInt = n :=
  Int32.toInt_ofInt_of_le h.1 h.2

theorem beq_zero (level : Int32) : (level == 0) = (level.toInt == 0) := by
  rw [Bool.eq_iff_iff, beq_iff_eq, beq_iff_eq, ← Int32.toInt_inj, Int32.toInt_zero]

/-- A comma stands between brackets. -/
theorem levelChange_comma {c : Char} {level : Int32} (h : (c == ',' && level == 0) = true) :
    levelChange c = 0 := by
  rw [Bool.and_eq_true, beq_iff_eq] at h
  rw [h.1]
  rfl

/-- If the levels fit, the text is cut as if there were no bound on them. -/
theorem splitAtLevels_of_bounded (overflow : Overflow) {level : Int32} {ps : List Piece}
    (h : WalkBounded level.toInt ps) :
    ∃ part parts, splitAtLevels overflow level ps = pure (part, parts) ∧
      splitAtCommas level.toInt ps = part :: parts := by
  induction ps generalizing level with
  | nil => exact ⟨[], [], rfl, rfl⟩
  | cons p ps ih =>
    cases p with
    | skipped text =>
      obtain ⟨part, parts, hlevels, hcommas⟩ := ih (walkBounded_skipped_iff.mp h)
      refine ⟨text ++ part, parts, ?_, ?_⟩
      · rw [splitAtLevels, hlevels, pure_bind]
      · rw [splitAtCommas, hcommas]
        rfl
    | code c =>
      obtain ⟨-, hrest⟩ := walkBounded_code_iff.mp h
      rw [splitAtLevels, splitAtCommas, ← beq_zero]
      split
      next hcomma =>
        rw [levelChange_comma hcomma, Int.add_zero] at hrest
        obtain ⟨part, parts, hlevels, hcommas⟩ := ih hrest
        exact ⟨[], part :: parts, by rw [hlevels, pure_bind], by rw [hcommas]⟩
      next =>
        have hnext := toInt_ofInt hrest.fits
        obtain ⟨part, parts, hlevels, hcommas⟩ := ih (hnext.symm ▸ hrest)
        refine ⟨c :: part, parts, ?_, ?_⟩
        · rw [nextLevel_of_fits hrest.fits, pure_bind, hlevels, pure_bind]
        · rw [← hnext, hcommas]
          rfl

/-- If a level does not fit, the one way to build the program leads to a fault. -/
theorem splitAtLevels_stops {level : Int32} {ps : List Piece} (h : ¬ WalkBounded level.toInt ps) :
    splitAtLevels .stops level ps = throw .overflow := by
  induction ps generalizing level with
  | nil =>
    refine absurd (fun front hfront => ?_) h
    rw [List.prefix_nil.mp hfront, levelOf_nil, Int.add_zero]
    exact fits_toInt level
  | cons p ps ih =>
    cases p with
    | skipped text =>
      rw [splitAtLevels, ih (mt walkBounded_skipped_iff.mpr h), throw_bind]
    | code c =>
      have hrest : ¬ WalkBounded (level.toInt + levelChange c) ps := fun hrest =>
        h (walkBounded_code_iff.mpr ⟨fits_toInt level, hrest⟩)
      rw [splitAtLevels]
      split
      next hcomma =>
        rw [levelChange_comma hcomma, Int.add_zero] at hrest
        rw [ih hrest, throw_bind]
      next =>
        by_cases hnext : Fits (level.toInt + levelChange c)
        · rw [nextLevel_of_fits hnext, pure_bind, ih (by rwa [toInt_ofInt hnext]), throw_bind]
        · rw [nextLevel_of_not_fits hnext, throw_bind]

/-- The other way leads to parts of the text, whatever the levels. -/
theorem exists_splitAtLevels (level : Int32) (ps : List Piece) :
    ∃ part parts, splitAtLevels .wraps level ps = pure (part, parts) ∧
      [','].intercalate (part :: parts) = textOf ps := by
  induction ps generalizing level with
  | nil => exact ⟨[], [], rfl, rfl⟩
  | cons p ps ih =>
    cases p with
    | skipped text =>
      obtain ⟨part, parts, hlevels, htext⟩ := ih level
      refine ⟨text ++ part, parts, by rw [splitAtLevels, hlevels, pure_bind], ?_⟩
      exact (intercalate_prepend (List.cons_ne_nil part parts)).trans (congrArg (text ++ ·) htext)
    | code c =>
      rw [splitAtLevels]
      split
      next hcomma =>
        obtain ⟨part, parts, hlevels, htext⟩ := ih level
        refine ⟨[], part :: parts, by rw [hlevels, pure_bind], ?_⟩
        rw [Bool.and_eq_true, beq_iff_eq] at hcomma
        rw [hcomma.1]
        simpa [List.intercalate, List.intersperse, Piece.text, textOf] using htext
      next =>
        obtain ⟨part, parts, hlevels, htext⟩ := ih (.ofInt (level.toInt + levelChange c))
        refine ⟨c :: part, parts, ?_, ?_⟩
        · simp only [nextLevel, pure_bind, hlevels]
        · have hjoin : List.intercalate [','] (prepend [c] (part :: parts)) =
              [c] ++ List.intercalate [','] (part :: parts) :=
            intercalate_prepend (List.cons_ne_nil part parts)
          exact hjoin.trans (congrArg (c :: ·) htext)

/-! ### Short texts -/

theorem walkBounded_of_lt {level : Int} {ps : List Piece}
    (h : level.natAbs + (textOf ps).length < 2 ^ 31) : WalkBounded level ps := by
  induction ps generalizing level with
  | nil =>
    intro front hfront
    rw [List.prefix_nil.mp hfront, levelOf_nil, Fits]
    omega
  | cons p ps ih =>
    rw [textOf_cons, List.length_append] at h
    cases p with
    | skipped text => exact walkBounded_skipped_iff.mpr (ih (by omega))
    | code c =>
      have hone : (Piece.code c).text.length = 1 := rfl
      have hchange : (levelChange c).natAbs ≤ 1 := by
        rw [levelChange]
        split_ifs <;> decide
      exact walkBounded_code_iff.mpr ⟨by rw [Fits]; omega, ih (by omega)⟩

/-- There are not enough brackets in a short text. -/
theorem shallow_of_lt {text : List Char} (h : text.length < 2 ^ 31) : Shallow text := by
  have hwalk : WalkBounded 0 (pieces none text) :=
    walkBounded_of_lt (by rw [textOf_pieces]; simpa using h)
  exact hwalk

theorem codeOf_replicate (n : Nat) : codeOf (List.replicate n '(') = List.replicate n '(' := by
  suffices h : ∀ before, (pieces before (List.replicate n '(')).flatMap Piece.cells =
      List.replicate n ⟨'(', ['(']⟩ by
    rw [codeOf, mask, h, shown, List.map_replicate]
  induction n with
  | zero => exact fun _ => by rw [List.replicate_zero, pieces_nil]; rfl
  | succ n ih =>
    intro before
    rw [List.replicate_succ, pieces_code rfl (by decide), List.flatMap_cons, ih]
    rfl

theorem levelOf_replicate (n : Nat) : levelOf (List.replicate n '(') = n := by
  induction n with
  | zero => rfl
  | succ n ih =>
    have hchange : levelChange '(' = 1 := rfl
    rw [List.replicate_succ, levelOf_cons, ih, hchange]
    omega

/-- Of brackets that stay open, 2³¹ are too many. -/
theorem shallow_replicate_iff {n : Nat} : Shallow (List.replicate n '(') ↔ n < 2 ^ 31 := by
  refine ⟨fun h => ?_, fun h => shallow_of_lt (by rwa [List.length_replicate])⟩
  have hfits : Fits (0 + levelOf (codeOf (List.replicate n '('))) := h _ List.prefix_rfl
  rw [codeOf_replicate, levelOf_replicate, Fits] at hfits
  omega

/-! ### Readings -/

/-- What a reading gives that cuts some texts at their commas: if they are all shallow, the one
result, however the program is built; and otherwise some result, or a fault if an overflow stops
the program. -/
structure Gives {α : Type} (cuts : List (List Char)) (read : Overflow → Outcome α) (a : α) :
    Prop where
  shallow : (∀ text ∈ cuts, Shallow text) → ∀ overflow, read overflow = pure a
  wraps : ∃ b, read .wraps = pure b
  stops : (∃ text ∈ cuts, ¬ Shallow text) → read .stops = throw .overflow

namespace Gives
variable {α β : Type} {xs ys : List (List Char)} {read : Overflow → Outcome α} {a : α}

theorem of_pure (a : α) : Gives [] (fun _ => pure a) a where
  shallow _ _ := rfl
  wraps := ⟨a, rfl⟩
  stops := nofun

/-- A reading may go on with what another one gives. Where that one gives something else, it has
to give something, too. -/
theorem bind {next : Overflow → α → Outcome β} {b : β} (h : Gives xs read a)
    (hnext : Gives ys (next · a) b) (hends : ∀ a, ∃ b, next .wraps a = pure b) :
    Gives (xs ++ ys) (fun overflow => read overflow >>= next overflow) b where
  shallow hall overflow := by
    rw [List.forall_mem_append] at hall
    rw [h.shallow hall.1, pure_bind, hnext.shallow hall.2]
  wraps := by
    obtain ⟨a, ha⟩ := h.wraps
    rw [ha, pure_bind]
    exact hends a
  stops hdeep := by
    by_cases hxs : ∃ text ∈ xs, ¬ Shallow text
    · rw [h.stops hxs, throw_bind]
    · have hall : ∀ text ∈ xs, Shallow text := by simpa using hxs
      obtain ⟨text, htext, hdeep⟩ := hdeep
      rw [h.shallow hall, pure_bind]
      refine hnext.stops ⟨text, ?_, hdeep⟩
      exact (List.mem_append.mp htext).resolve_left fun hmem => hdeep (hall text hmem)

theorem map (h : Gives xs read a) (f : α → β) :
    Gives xs (fun overflow => return f (← read overflow)) (f a) := by
  let next (_ : Overflow) (a : α) : Outcome β := pure (f a)
  have hnext : Gives [] (next · a) (f a) := of_pure (f a)
  have hmap := h.bind hnext fun a => ⟨f a, rfl⟩
  rwa [List.append_nil] at hmap

end Gives

end RouteScaffold.Offset
