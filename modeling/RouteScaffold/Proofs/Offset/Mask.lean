import RouteScaffold.Proofs.Offset.Skips

/-! Masking by offsets.

A copy of the bytes is walked from its first offset on, and each stretch that is passed
over is blanked out in it. The walk ends on every list of bytes, and the copy has the same
bytes but for blanks in those stretches (`exists_masks`). On a text it has the bytes of the
masked copy (`maskFrom_bytesOf`), so that it can be read as a text again. -/
namespace RouteScaffold.Offset
open Source Text

/-! ### The walk -/

/-- What a byte that is passed over is overwritten with: a line break stays. -/
def blankByte (b : UInt8) : UInt8 := if sign b == '\n' then b else 32

/-- Blanks out all between two offsets. -/
def blankOut (masked : List UInt8) (i j : Nat) : Outcome (List UInt8) :=
  if j < i ∨ masked.length < j then throw (.cut j)
  else pure (masked.mapIdx fun k b => if i ≤ k ∧ k < j then blankByte b else b)

/-- One step of the masking: `i` is where it stands in the bytes, `masked` their copy so far. -/
def maskStep (bytes : List UInt8) :
    List UInt8 × Nat → Outcome (List UInt8 ⊕ List UInt8 × Nat)
  | (masked, i) => do
    if h : i < bytes.length then
      match skipAt bytes i h with
      | some next =>
        let stop := min next bytes.length
        return .inr (← blankOut masked i stop, stop)
      | none => return .inr (masked, i + 1)
    else return .inl masked

/-- Blanks out in a copy of the bytes what is passed over from `i` on. -/
def maskFrom (bytes masked : List UInt8) (i : Nat) : Outcome (List UInt8) :=
  loop (maskStep bytes) (masked, i)

theorem maskFrom_unfold (bytes masked : List UInt8) (i : Nat) :
    maskFrom bytes masked i =
      if h : i < bytes.length then
        match skipAt bytes i h with
        | some next => do
          let stop := min next bytes.length
          maskFrom bytes (← blankOut masked i stop) stop
        | none => maskFrom bytes masked (i + 1)
      else pure masked := by
  rw [maskFrom, loop_eq, maskStep]
  split
  next h => cases skipAt bytes i h <;> simp [maskFrom]
  next => exact pure_bind _ _

/-- The text that the bytes encode, if they are valid. -/
def decode? (bytes : List UInt8) : Option (List Char) :=
  (String.fromUTF8? bytes.toByteArray).map String.toList

/-- The masked copy of a text, as a text; the text itself if the copy were none. -/
def maskedText (text : List Char) : Outcome (List Char) :=
  return (decode? (← maskFrom (bytesOf text) (bytesOf text) 0)).getD text

/-! ### What is blanked out -/

/-- The stretches that are passed over from `i` on, each with the offset behind it. -/
def stretches (bytes : List UInt8) (i : Nat) : List (Nat × Nat) :=
  if h : i < bytes.length then
    match hskip : skipAt bytes i h with
    | some next =>
      have := skipAt_bounds h hskip
      (i, next) :: stretches bytes next
    | none => stretches bytes (i + 1)
  else []
termination_by bytes.length - i

/-- The offset lies in one of the stretches. -/
def Covers (spans : List (Nat × Nat)) (k : Nat) : Prop := ∃ span ∈ spans, span.1 ≤ k ∧ k < span.2

instance (spans : List (Nat × Nat)) (k : Nat) : Decidable (Covers spans k) :=
  inferInstanceAs (Decidable (∃ span ∈ spans, span.1 ≤ k ∧ k < span.2))

/-- The byte at the offset is passed over. -/
def Skipped (bytes : List UInt8) (k : Nat) : Prop := Covers (stretches bytes 0) k

/-- The copy of the bytes differs from them only in what is passed over, where it shows nothing
but blanks and line breaks, the latter as they were. -/
structure Masks (bytes masked : List UInt8) : Prop where
  length : masked.length = bytes.length
  newline : ∀ k, signAt? masked k = some '\n' ↔ signAt? bytes k = some '\n'
  outside : ∀ k, ¬Skipped bytes k → masked[k]? = bytes[k]?
  inside : ∀ k, Skipped bytes k → ∀ c ∈ signAt? masked k, c = ' ' ∨ c = '\n'

theorem covers_cons {k : Nat} {span : Nat × Nat} {spans : List (Nat × Nat)} :
    Covers (span :: spans) k ↔ (span.1 ≤ k ∧ k < span.2) ∨ Covers spans k :=
  List.exists_mem_cons_iff ..

theorem sign_blankByte (b : UInt8) : sign (blankByte b) = if sign b == '\n' then '\n' else ' ' := by
  rw [blankByte]
  split
  next h => exact beq_iff_eq.mp h
  next => rfl

theorem blankByte_idem (b : UInt8) : blankByte (blankByte b) = blankByte b := by
  by_cases h : (sign b == '\n') = true
  · simp [blankByte, h]
  · simp [blankByte, h]

/-- The walk over a copy of as many bytes ends, and has then blanked out all that is passed
over. -/
theorem maskFrom_eq (bytes masked : List UInt8) (i : Nat) (hlength : masked.length = bytes.length) :
    maskFrom bytes masked i = pure (masked.mapIdx fun k b =>
      if Covers (stretches bytes i) k then blankByte b else b) := by
  fun_induction stretches bytes i generalizing masked with
  | case1 i h next hskip hbounds ih =>
    have hblank : blankOut masked i next =
        pure (masked.mapIdx fun k b => if i ≤ k ∧ k < next then blankByte b else b) := by
      rw [blankOut, if_neg (by omega)]
    rw [maskFrom_unfold, dif_pos h, hskip]
    simp only [Nat.min_eq_left hbounds.2, hblank, pure_bind]
    rw [ih _ (by rw [List.length_mapIdx, hlength]), List.mapIdx_mapIdx]
    congr 2
    funext k b
    simp only [Function.comp_apply, covers_cons]
    by_cases hhere : i ≤ k ∧ k < next <;> by_cases hlater : Covers (stretches bytes next) k <;>
      simp [hhere, hlater, blankByte_idem]
  | case2 i h hskip ih =>
    rw [maskFrom_unfold, dif_pos h, hskip]
    exact ih masked hlength
  | case3 i h =>
    have hsame : masked.mapIdx (fun _ b => b) = masked :=
      List.mapIdx_eq_iff.mpr fun k => Option.map_id'.symm
    rw [maskFrom_unfold, dif_neg h]
    simp [Covers, hsame]

/-- Masking ends on all bytes and blanks out what is passed over, nothing else. -/
theorem exists_masks (bytes : List UInt8) :
    ∃ masked, maskFrom bytes bytes 0 = pure masked ∧ Masks bytes masked := by
  refine ⟨_, maskFrom_eq bytes bytes 0 rfl, List.length_mapIdx, fun k => ?_, fun k h => ?_,
    fun k h => ?_⟩
  · rw [signAt?, signAt?, List.getElem?_mapIdx]
    cases bytes[k]? with
    | none => simp
    | some b =>
      simp only [Option.map_some, Option.some.injEq]
      split
      next => rw [sign_blankByte]; by_cases hb : sign b = '\n' <;> simp [hb]
      next => rfl
  · rw [List.getElem?_mapIdx]
    simp only [if_neg (show ¬Covers (stretches bytes 0) k from h), Option.map_id']
  · rw [signAt?, List.getElem?_mapIdx]
    intro c hc
    simp only [if_pos (show Covers (stretches bytes 0) k from h), Option.map_map] at hc
    obtain ⟨b, -, rfl⟩ := Option.map_eq_some_iff.mp hc
    rw [Function.comp_apply, sign_blankByte]
    split <;> simp

/-! ### On a text -/

theorem blankOut_append (front part back : List UInt8) :
    blankOut (front ++ (part ++ back)) front.length (front.length + part.length) =
      pure (front ++ (part.map blankByte ++ back)) := by
  rw [blankOut, if_neg (by simp)]
  congr 1
  rw [List.mapIdx_eq_iff]
  intro k
  grind

theorem map_blankByte_encode (c : Char) :
    (String.utf8EncodeChar c).map blankByte = bytesOf (shown (hide c)) := by
  obtain ⟨b, tail, hencode, hpasses, -⟩ := exists_first c
  unfold hide
  split
  next hc => rw [beq_iff_eq.mp hc]; rfl
  next hc =>
    have hblank : ∀ d ∈ String.utf8EncodeChar c, blankByte d = 32 := fun d hd => by
      rw [blankByte, (hpasses d (hencode ▸ hd)).beq (by decide), if_neg hc]
    have hspaces (n : Nat) : bytesOf (List.replicate n ' ') = List.replicate n 32 := by
      induction n with
      | zero => rfl
      | succ n ih =>
        rw [List.replicate_succ, bytesOf_cons, ih]
        rfl
    have hpos := c.utf8Size_pos
    rw [List.map_congr_left hblank, List.map_const', String.length_utf8EncodeChar, shown,
      List.map_cons, List.map_replicate, ← List.replicate_succ, hspaces,
      Nat.sub_add_cancel hpos]

/-- Blanked out byte by byte, a stretch has the bytes of what it shows on the masked copy. -/
theorem map_blankByte_bytesOf (text : List Char) :
    (bytesOf text).map blankByte = bytesOf (blanked text) := by
  induction text with
  | nil => rfl
  | cons c text ih =>
    rw [bytesOf_cons, List.map_append, ih, map_blankByte_encode, ← bytesOf_append]
    rw [blanked, blanked, List.flatMap_cons, shown_append]

/-- From the offset of a character on the walk blanks out what the masked copy does. -/
theorem maskFrom_bytesOf (front rest : List Char) (done : List UInt8)
    (hdone : done.length = byteLength front) :
    maskFrom (bytesOf (front ++ rest)) (done ++ bytesOf rest) (byteLength front) =
      pure (done ++
        bytesOf (shown ((pieces (lastSolid none front) rest).flatMap Piece.cells))) := by
  generalize hbefore : lastSolid none front = before
  fun_induction pieces before rest generalizing front done with
  | case1 before cs taken rest hskip _ ih =>
    obtain ⟨h, hat⟩ := skipAt_of_skip? (hbefore ▸ hskip)
    obtain rfl : taken ++ rest = cs := (text_of_skip? hskip).1
    have hblank := blankOut_append done (bytesOf taken) (bytesOf rest)
    have hih := ih (front ++ taken) (done ++ bytesOf (blanked taken))
      (by simp [hdone, byteLength_blanked]) (by rw [lastSolid_append, hbefore])
    rw [hdone, length_bytesOf, ← byteLength_append, ← bytesOf_append,
      map_blankByte_bytesOf] at hblank
    simp only [List.append_assoc] at hih
    rw [maskFrom_unfold, dif_pos h, hat]
    simp only [Nat.min_eq_left (skipAt_bounds h hat).2, hblank, pure_bind, hih]
    rw [List.flatMap_cons, shown_append, bytesOf_append]
    rfl
  | case2 =>
    rw [maskFrom_unfold, dif_neg (by simp)]
    rfl
  | case3 before c rest hskip ih =>
    have hih := ih (front ++ [c]) (done ++ bytesOf [c]) (by simp [hdone])
      (by rw [lastSolid_append, hbefore])
    simp only [List.append_assoc, List.singleton_append, ← bytesOf_append] at hih
    have hacross := across front rest c
      (f := maskFrom (bytesOf (front ++ c :: rest)) (done ++ bytesOf (c :: rest)))
      fun k h hlarge _ => by rw [maskFrom_unfold, dif_pos h, skipAt_large h hlarge]
    rw [maskFrom_unfold, dif_pos (lt_length_bytesOf ..), skipAt_of_none (hbefore ▸ hskip)]
    exact hacross.trans hih

/-- The bytes of a text are read as the text. -/
theorem decode?_bytesOf (cs : List Char) : decode? (bytesOf cs) = some cs := by
  have hvalid : (bytesOf cs).toByteArray.IsValidUTF8 := ⟨cs, rfl⟩
  have hstring : String.fromUTF8 (bytesOf cs).toByteArray hvalid = String.ofList cs := rfl
  rw [decode?, String.fromUTF8?, dif_pos hvalid, hstring, Option.map_some, String.toList_ofList]

/-- The masked copy of a text is a text. -/
theorem maskedText_eq (text : List Char) : maskedText text = pure (codeOf text) := by
  have hmask := maskFrom_bytesOf [] text [] rfl
  simp only [List.nil_append, byteLength_nil] at hmask
  rw [maskedText, hmask, pure_bind, decode?_bytesOf]
  rfl

end RouteScaffold.Offset
