import RouteScaffold.Proofs.Offset.Levels
import RouteScaffold.Proofs.Offset.Mask
import RouteScaffold.Proofs.Source.Walks

/-! Brackets by offsets.

The walk to a closing bracket goes from offset to offset of the text that the bracket
stands in, over all that is passed over. It ends wherever it is started
(`findMatching_ends`), and started at an opening bracket it finds the offset of the bracket
that closes it (`findMatching_opening`). The cut at the commas slices the text at offsets of
its own, none of which is within a character, and counts levels of 32 bits
(`splitTopLevel_eq`). -/
namespace RouteScaffold.Offset
open Source Text

/-! ### The closing bracket -/

/-- One step towards the bracket that leads out of `depth` brackets, from the offset `i`. No bracket
leads out of none. -/
def matchStep (bytes : List UInt8) : Nat × Nat → Outcome (Option Nat ⊕ Nat × Nat)
  | (depth, i) => do
    if h : i < bytes.length then
      match skipAt bytes i h with
      | some next => return .inr (depth, next)
      | none =>
        if isOpening (sign bytes[i]) then return .inr (depth + 1, i + 1)
        else if isClosing (sign bytes[i]) then
          if depth = 0 then return .inl none
          else if depth = 1 then return .inl (some i)
          else return .inr (depth - 1, i + 1)
        else return .inr (depth, i + 1)
    else return .inl none

/-- The offset of the bracket that leads out of `depth` brackets, looked for from `i` on. -/
def findMatching (bytes : List UInt8) (depth i : Nat) : Outcome (Option Nat) :=
  loop (matchStep bytes) (depth, i)

theorem findMatching_unfold (bytes : List UInt8) (depth i : Nat) :
    findMatching bytes depth i =
      if h : i < bytes.length then
        match skipAt bytes i h with
        | some next => findMatching bytes depth next
        | none =>
          if isOpening (sign bytes[i]) then findMatching bytes (depth + 1) (i + 1)
          else if isClosing (sign bytes[i]) then
            if depth = 0 then pure none
            else if depth = 1 then pure (some i)
            else findMatching bytes (depth - 1) (i + 1)
          else findMatching bytes depth (i + 1)
      else pure none := by
  rw [findMatching, loop_eq, matchStep]
  split
  next h =>
    cases skipAt bytes i h with
    | some next => exact pure_bind _ _
    | none =>
      simp only
      split_ifs <;> exact pure_bind _ _
  next => exact pure_bind _ _

/-- Wherever it is started, on whatever bytes, the walk ends, and what it finds lies ahead. -/
theorem findMatching_ends (bytes : List UInt8) (depth i : Nat) :
    ∃ found, findMatching bytes depth i = pure found ∧
      ∀ k ∈ found, i ≤ k ∧ k < bytes.length := by
  induction hleft : bytes.length - i using Nat.strongRecOn generalizing depth i with
  | ind left ih =>
    subst hleft
    have hahead (depth next : Nat) (h : i < bytes.length) (hnext : i < next) :
        ∃ found, findMatching bytes depth next = pure found ∧
          ∀ k ∈ found, i ≤ k ∧ k < bytes.length := by
      obtain ⟨found, heq, hfound⟩ := ih (bytes.length - next) (by omega) depth next rfl
      exact ⟨found, heq, fun k hk => ⟨by have := hfound k hk; omega, (hfound k hk).2⟩⟩
    rw [findMatching_unfold]
    split
    next h =>
      split
      next next hskip => exact hahead depth next h (skipAt_bounds h hskip).1
      next =>
        have hnext (depth : Nat) := hahead depth (i + 1) h (Nat.lt_succ_self i)
        split_ifs
        · exact hnext (depth + 1)
        · exact ⟨none, rfl, by simp⟩
        · exact ⟨some i, rfl, by simp [h]⟩
        · exact hnext (depth - 1)
        · exact hnext depth
    next => exact ⟨none, rfl, by simp⟩

theorem coarse_isOpening : Coarse isOpening :=
  ⟨false, fun _ hc => by simp [isOpening, beq_of_large hc]⟩

theorem coarse_isClosing : Coarse isClosing :=
  ⟨false, fun _ hc => by simp [isClosing, beq_of_large hc]⟩

theorem findMatching_large {bytes : List UInt8} {i : Nat} (h : i < bytes.length)
    (hlarge : 128 ≤ (sign bytes[i]).toNat) (depth : Nat) :
    findMatching bytes depth i = findMatching bytes depth (i + 1) := by
  rw [findMatching_unfold, dif_pos h, skipAt_large h hlarge]
  simp [isOpening, isClosing, beq_of_large hlarge]

theorem untilClosing_code_eq (depth : Nat) (c : Char) (ps : List Piece) :
    untilClosing depth (.code c :: ps) =
      if isOpening c then (untilClosing (depth + 1) ps).map (Cut.cons c)
      else if isClosing c then
        if depth = 0 then some ([], textOf ps)
        else (untilClosing (depth - 1) ps).map (Cut.cons c)
      else (untilClosing depth ps).map (Cut.cons c) := by
  cases depth <;> rfl

/-- From the offset of a character on the walk finds the bracket that the walk over the pieces
finds. -/
theorem findMatching_bytesOf (front rest : List Char) (depth : Nat) :
    findMatching (bytesOf (front ++ rest)) (depth + 1) (byteLength front) =
      pure ((untilClosing depth (pieces (lastSolid none front) rest)).map fun cut =>
        byteLength (front ++ cut.1)) := by
  generalize hbefore : lastSolid none front = before
  fun_induction pieces before rest generalizing front depth with
  | case1 before cs taken rest hskip _ ih =>
    obtain ⟨h, hat⟩ := skipAt_of_skip? (hbefore ▸ hskip)
    obtain rfl : taken ++ rest = cs := (text_of_skip? hskip).1
    have hih := ih (front ++ taken) depth (by rw [lastSolid_append, hbefore])
    simp only [List.append_assoc] at hih
    rw [findMatching_unfold, dif_pos h, hat]
    simp only [hih, untilClosing, Option.map_map]
    rfl
  | case2 =>
    rw [findMatching_unfold, dif_neg (by simp)]
    rfl
  | case3 before c rest hskip ih =>
    have hpasses := passesFor_first (lt_length_bytesOf front rest c)
    have hnext (depth : Nat) :
        findMatching (bytesOf (front ++ c :: rest)) (depth + 1) (byteLength front + 1) =
          pure (((untilClosing depth (pieces (lastSolid before [c]) rest)).map (Cut.cons c)).map
            fun cut => byteLength (front ++ cut.1)) := by
      have hih := ih (front ++ [c]) depth (by rw [lastSolid_append, hbefore])
      simp only [List.append_assoc, List.singleton_append] at hih
      rw [across front rest c (f := findMatching (bytesOf (front ++ c :: rest)) (depth + 1))
        fun k h hlarge _ => findMatching_large h hlarge _, hih, Option.map_map]
      rfl
    rw [findMatching_unfold, dif_pos (lt_length_bytesOf ..), skipAt_of_none (hbefore ▸ hskip)]
    have hone : depth + 1 = 1 ↔ depth = 0 := Nat.add_eq_right
    simp only [hpasses.congr coarse_isOpening, hpasses.congr coarse_isClosing, hone,
      Nat.succ_ne_zero, if_false]
    rw [untilClosing_code_eq]
    split_ifs with hopening hclosing hlast
    · exact hnext (depth + 1)
    · simp
    · obtain ⟨depth, rfl⟩ := Nat.exists_eq_succ_of_ne_zero hlast
      exact hnext depth
    · exact hnext depth

theorem ascii_of_isOpening {c : Char} (h : isOpening c = true) : c.toNat < 128 :=
  coarse_isOpening.ascii rfl h

theorem ascii_of_isClosing {c : Char} (h : isClosing c = true) : c.toNat < 128 :=
  coarse_isClosing.ascii rfl h

section
variable {text front rest : List Char} {c : Char} {i : Nat}
  (htext : text = front ++ c :: rest) (hc : isOpening c = true)
include htext hc

/-- Started at an opening bracket, the walk finds the bracket that closes it. -/
theorem findMatching_opening (hi : i = byteLength front) :
    findMatching (bytesOf text) 0 i =
      pure ((enclosed? c rest).map fun cut => byteLength (front ++ c :: cut.1)) := by
  subst htext hi
  have hskip : skip? (lastSolid none front) (c :: rest) = none := by
    simp only [isOpening, Bool.or_eq_true, beq_iff_eq] at hc
    rcases hc with (rfl | rfl) | rfl <;> rfl
  have hwalk := findMatching_bytesOf (front ++ [c]) rest 0
  rw [lastSolid_of_opens (opensRegex_of_isOpening hc),
    byteLength_concat_of_ascii (ascii_of_isOpening hc)] at hwalk
  simp only [List.append_assoc, List.singleton_append] at hwalk
  rw [findMatching_unfold, dif_pos (lt_length_bytesOf ..), skipAt_of_none hskip]
  simp only [(passesFor_first (lt_length_bytesOf ..)).congr coarse_isOpening, hc, if_true]
  exact hwalk

variable {inside after : List Char} (henclosed : enclosed? c rest = some (inside, after))
include henclosed

/-- What a bracket encloses lies between the offset behind it and that of its closing bracket. -/
theorem slice_enclosed (hi : i = byteLength front + 1) :
    slice text i (byteLength (front ++ c :: inside)) = pure inside := by
  obtain ⟨d, -, rfl⟩ := eq_append_of_enclosed? henclosed
  refine slice_eq (htext.trans (List.append_cons ..)) ?_ ?_ <;>
    simp [hi, utf8Size_of_ascii (ascii_of_isOpening hc), Nat.add_assoc]

omit hc in
/-- Behind the closing bracket the text can be cut. -/
theorem sliceFrom_enclosed :
    sliceFrom text (byteLength (front ++ c :: inside) + 1) = pure after := by
  obtain ⟨d, hd, rfl⟩ := eq_append_of_enclosed? henclosed
  have hsplit : text = front ++ c :: inside ++ [d] ++ after := by simp [htext]
  exact sliceFrom_eq hsplit (byteLength_concat_of_ascii (ascii_of_isClosing hd) _).symm

end

/-- Started at a bracket that the text starts with, the walk does not look in front of it. -/
theorem findMatching_head {c : Char} (hc : isOpening c = true) (rest : List Char) :
    findMatching (bytesOf (c :: rest)) 0 0 =
      pure ((enclosed? c rest).map fun cut => byteLength (c :: cut.1)) :=
  findMatching_opening (List.nil_append _).symm hc rfl

theorem slice_head {c : Char} {rest inside after : List Char} (hc : isOpening c = true)
    (h : enclosed? c rest = some (inside, after)) :
    slice (c :: rest) 1 (byteLength (c :: inside)) = pure inside :=
  slice_enclosed (List.nil_append _).symm hc h rfl

theorem sliceFrom_head {c : Char} {rest inside after : List Char}
    (h : enclosed? c rest = some (inside, after)) :
    sliceFrom (c :: rest) (byteLength (c :: inside) + 1) = pure after :=
  sliceFrom_enclosed (List.nil_append _).symm h

/-! ### The commas -/

/-- One step of the cut at the commas on level zero: `parts` have been cut off so far, the next one
starts at `start`, and `i` is where the walk stands, on `level`. -/
def splitStep (overflow : Overflow) (text : List Char) :
    List (List Char) × Int32 × Nat × Nat →
      Outcome (List (List Char) ⊕ List (List Char) × Int32 × Nat × Nat)
  | (parts, level, start, i) => do
    if h : i < (bytesOf text).length then
      match skipAt (bytesOf text) i h with
      | some next => return .inr (parts, level, start, next)
      | none =>
        let c := sign (bytesOf text)[i]
        if c == ',' && level == 0 then
          return .inr (parts ++ [← slice text start i], level, i + 1, i + 1)
        else return .inr (parts, ← nextLevel overflow level c, start, i + 1)
    else return .inl (parts ++ [← sliceFrom text start])

/-- The parts of the text between the commas that stand in no bracket. -/
def splitTopLevel (overflow : Overflow) (text : List Char) : Outcome (List (List Char)) :=
  loop (splitStep overflow text) ([], 0, 0, 0)

theorem levelChange_large {c : Char} (h : 128 ≤ c.toNat) : levelChange c = 0 := by
  simp [levelChange, isOpening, isClosing, beq_of_large h]

theorem coarse_nextLevel (overflow : Overflow) (level : Int32) :
    Coarse (nextLevel overflow level) :=
  ⟨pure level, fun _ hc => nextLevel_of_zero (levelChange_large hc) overflow level⟩

section
variable {overflow : Overflow}

theorem loop_splitStep_large {text : List Char} {i : Nat} (h : i < (bytesOf text).length)
    (hlarge : 128 ≤ (sign (bytesOf text)[i]).toNat) (parts : List (List Char)) (level : Int32)
    (start : Nat) :
    loop (splitStep overflow text) (parts, level, start, i) =
      loop (splitStep overflow text) (parts, level, start, i + 1) := by
  rw [loop_eq, splitStep, dif_pos h, skipAt_large h hlarge]
  simp [nextLevel_of_zero (levelChange_large hlarge), beq_of_large hlarge]

/-- With `part` walked since the last cut, the rest of the walk cuts what the walk over the pieces
cuts, and no slice is out of place. -/
theorem loop_splitStep (parts : List (List Char)) (front part rest : List Char) (level : Int32) :
    loop (splitStep overflow (front ++ part ++ rest))
        (parts, level, byteLength front, byteLength (front ++ part)) = do
      let cut ← splitAtLevels overflow level (pieces (lastSolid none (front ++ part)) rest)
      return parts ++ (part ++ cut.1) :: cut.2 := by
  generalize hbefore : lastSolid none (front ++ part) = before
  fun_induction pieces before rest generalizing parts front part level with
  | case1 before cs taken rest hskip _ ih =>
    obtain ⟨h, hat⟩ := skipAt_of_skip? (hbefore ▸ hskip)
    obtain rfl : taken ++ rest = cs := (text_of_skip? hskip).1
    have hih := ih parts front (part ++ taken) level
      (by rw [← List.append_assoc, lastSolid_append, hbefore])
    simp only [← List.append_assoc] at hih h hat ⊢
    rw [loop_eq, splitStep, dif_pos h, hat, splitAtLevels]
    simp only [bind_assoc, pure_bind, Sum.elim_inr, hih]
    simp only [List.append_assoc]
  | case2 =>
    rw [loop_eq, splitStep, dif_neg (by simp),
      sliceFrom_eq (List.append_nil (front ++ part)) rfl]
    simp [splitAtLevels]
  | case3 before c rest hskip ih =>
    have hpasses := passesFor_first (lt_length_bytesOf (front ++ part) rest c)
    rw [loop_eq, splitStep, dif_pos (lt_length_bytesOf ..), skipAt_of_none (hbefore ▸ hskip),
      splitAtLevels]
    simp only [hpasses.beq (show ','.toNat < 128 by decide),
      hpasses.congr (coarse_nextLevel overflow level)]
    split_ifs with hcomma
    · obtain ⟨hc, hlevel⟩ := (Bool.and_eq_true _ _).mp hcomma
      obtain rfl := beq_iff_eq.mp hc
      have hih := ih (parts ++ [part]) (front ++ part ++ [',']) [] level
        (by rw [List.append_nil, lastSolid_append, hbefore])
      rw [List.append_nil, byteLength_concat_of_ascii (by decide), ← List.append_cons] at hih
      rw [slice_eq (List.append_assoc front part (',' :: rest)) rfl (by simp)]
      simp only [bind_assoc, pure_bind, Sum.elim_inr, hih]
      simp only [List.append_assoc, List.singleton_append, List.nil_append, List.append_nil]
    · have hnext (level : Int32) :
          loop (splitStep overflow (front ++ part ++ c :: rest))
            (parts, level, byteLength front, byteLength (front ++ part) + 1) = do
          let cut ← splitAtLevels overflow level (pieces (lastSolid before [c]) rest)
          return parts ++ (part ++ c :: cut.1) :: cut.2 := by
        have hih := ih parts front (part ++ [c]) level
          (by rw [← List.append_assoc, lastSolid_append, hbefore])
        have hacross := across (front ++ part) rest c
          (f := fun i => loop (splitStep overflow (front ++ part ++ c :: rest))
            (parts, level, byteLength front, i))
          fun k h hlarge _ => loop_splitStep_large h hlarge ..
        simp only [← List.append_assoc, ← List.append_cons] at hih
        exact hacross.trans hih
      simp only [bind_assoc, pure_bind, Sum.elim_inr, hnext]

/-- The cut by offsets is the one with levels of 32 bits. -/
theorem splitTopLevel_eq (overflow : Overflow) (text : List Char) :
    splitTopLevel overflow text = do
      let cut ← splitAtLevels overflow 0 (pieces none text)
      return cut.1 :: cut.2 :=
  loop_splitStep [] [] [] text 0

end

/-- Cut at its commas, a text falls into the parts that it has on characters if it is shallow. -/
theorem gives_splitTopLevel (text : List Char) :
    Gives [text] (splitTopLevel · text) (commaParts text) where
  shallow h overflow := by
    have hbounded : WalkBounded (Int32.toInt 0) (pieces none text) :=
      h text (List.mem_singleton_self text)
    obtain ⟨part, parts, hlevels, hcommas⟩ := splitAtLevels_of_bounded overflow hbounded
    rw [splitTopLevel_eq, hlevels, pure_bind]
    exact congrArg pure hcommas.symm
  wraps := by
    obtain ⟨part, parts, hlevels, -⟩ := exists_splitAtLevels 0 (pieces none text)
    exact ⟨part :: parts, by rw [splitTopLevel_eq, hlevels, pure_bind]⟩
  stops := by
    rintro ⟨deep, hdeep, h⟩
    obtain rfl := List.mem_singleton.mp hdeep
    have hunbounded : ¬ WalkBounded (Int32.toInt 0) (pieces none deep) := h
    rw [splitTopLevel_eq, splitAtLevels_stops hunbounded, throw_bind]

/-- With levels that wrap around, the parts are still what stands between some of the commas. -/
theorem exists_splitTopLevel (text : List Char) :
    ∃ parts, splitTopLevel .wraps text = pure parts ∧ [','].intercalate parts = text := by
  obtain ⟨part, parts, hlevels, htext⟩ := exists_splitAtLevels 0 (pieces none text)
  refine ⟨part :: parts, by rw [splitTopLevel_eq, hlevels, pure_bind], ?_⟩
  exact htext.trans (textOf_pieces none text)

end RouteScaffold.Offset
