import Mathlib.Data.PFun
import RouteScaffold.Proofs.Source.Aligned

/-! Texts as bytes.

Seen as bytes, a text is the encodings of its characters one after the other (`bytesOf`).
A place in it is an offset in bytes, which may also lie within a character; only between
two characters (`Boundary`) can the text be cut (`cutAt?_eq_some_iff`).

A walk over the bytes looks for signs of ASCII. The first byte of a character passes for
the character in that (`passesFor_first`), and the other bytes are no such sign at all, so
that a walk which gets into a character gets out of it at its end (`across`).

Such a walk could be out of place, or go on for ever. A cut within a character is a fault,
as is a sum that overflows, and a loop takes its steps (`loop_eq`) up to a last one; without
a last one it gives nothing (`loop_eq_none`). -/
namespace RouteScaffold.Offset
open Source

/-! ### Bytes -/

/-- The bytes of a text. -/
def bytesOf (cs : List Char) : List UInt8 := cs.flatMap String.utf8EncodeChar

theorem bytesOf_append (a b : List Char) : bytesOf (a ++ b) = bytesOf a ++ bytesOf b :=
  List.flatMap_append

theorem bytesOf_cons (c : Char) (cs : List Char) :
    bytesOf (c :: cs) = String.utf8EncodeChar c ++ bytesOf cs := rfl

@[simp] theorem length_bytesOf (cs : List Char) : (bytesOf cs).length = byteLength cs := by
  induction cs with
  | nil => rfl
  | cons c cs ih =>
    rw [bytesOf_cons, List.length_append, String.length_utf8EncodeChar, ih, byteLength_cons]

/-- The sign that a byte is taken for. -/
def sign (b : UInt8) : Char := Char.ofUInt8 b

/-- Above ASCII the function tells no two characters apart. -/
def Coarse {α : Type} (f : Char → α) : Prop := ∃ value, ∀ c : Char, 128 ≤ c.toNat → f c = value

/-- The byte passes for the character: it is the character, or neither of them is of ASCII. -/
def PassesFor (b : UInt8) (c : Char) : Prop := sign b = c ∨ 128 ≤ (sign b).toNat ∧ 128 ≤ c.toNat

theorem toNat_sign (b : UInt8) : (sign b).toNat = b.toNat := rfl

theorem Coarse.eq {α : Type} {f : Char → α} (h : Coarse f) {c d : Char} (hc : 128 ≤ c.toNat)
    (hd : 128 ≤ d.toNat) : f c = f d := by
  obtain ⟨value, hvalue⟩ := h
  rw [hvalue c hc, hvalue d hd]

/-- What holds of nothing above ASCII holds of signs of ASCII only. -/
theorem Coarse.ascii {f : Char → Bool} (h : Coarse f) (hlarge : f '\x80' = false) {c : Char}
    (hc : f c = true) : c.toNat < 128 := by
  refine Nat.lt_of_not_le fun hle => ?_
  rw [h.eq hle (by decide : 128 ≤ '\x80'.toNat), hlarge] at hc
  cases hc

theorem PassesFor.congr {α : Type} {b : UInt8} {c : Char} (h : PassesFor b c) {f : Char → α}
    (hf : Coarse f) : f (sign b) = f c := by
  rcases h with rfl | ⟨hb, hc⟩
  · rfl
  · exact hf.eq hb hc

theorem utf8Size_of_ascii {c : Char} (h : c.toNat < 128) : c.utf8Size = 1 :=
  Char.utf8Size_eq_one_iff.mpr (UInt32.le_iff_toNat_le.mpr (Nat.le_of_lt_succ h))

/-- All bytes of a character pass for it, and all but the first one are above ASCII. -/
theorem exists_first (c : Char) : ∃ b tail, String.utf8EncodeChar c = b :: tail ∧
    (∀ d ∈ b :: tail, PassesFor d c) ∧ ∀ d ∈ tail, 128 ≤ d.toNat := by
  have hbyte {n : Nat} (hlow : 128 ≤ n) (hhigh : n < 256) : 128 ≤ (UInt8.ofNat n).toNat := by
    rw [UInt8.toNat_ofNat']
    omega
  have hnone : ∀ d ∈ ([] : List UInt8), 128 ≤ d.toNat := List.forall_mem_nil _
  have hmore (n : Nat) {tail : List UInt8} (h : ∀ d ∈ tail, 128 ≤ d.toNat) :
      ∀ d ∈ UInt8.ofNat (n % 64 + 128) :: tail, 128 ≤ d.toNat :=
    List.forall_mem_cons.mpr ⟨hbyte (by omega) (by omega), h⟩
  simp only [String.utf8EncodeChar]
  split
  next hc =>
    refine ⟨_, [], rfl, fun d hd => .inl ?_, hnone⟩
    rw [List.mem_singleton.mp hd, ← Char.toNat_inj, toNat_sign, UInt8.toNat_ofNat']
    exact Nat.mod_eq_of_lt (Nat.lt_of_le_of_lt hc (by decide))
  next hc =>
    have hlarge {n : Nat} {tail : List UInt8} (hlow : 128 ≤ n) (hhigh : n < 256)
        (h : ∀ d ∈ tail, 128 ≤ d.toNat) : ∀ d ∈ UInt8.ofNat n :: tail, PassesFor d c :=
      List.forall_mem_cons.mpr ⟨.inr ⟨hbyte hlow hhigh, Nat.lt_of_not_le hc⟩,
        fun d hd => .inr ⟨h d hd, Nat.lt_of_not_le hc⟩⟩
    split
    · have htail := hmore c.val.toNat hnone
      exact ⟨_, _, rfl, hlarge (by omega) (by omega) htail, htail⟩
    split
    · have htail := hmore (c.val.toNat / 64) (hmore c.val.toNat hnone)
      exact ⟨_, _, rfl, hlarge (by omega) (by omega) htail, htail⟩
    · have htail := hmore (c.val.toNat / 4096) (hmore (c.val.toNat / 64) (hmore c.val.toNat hnone))
      exact ⟨_, _, rfl, hlarge (by omega) (by omega) htail, htail⟩

/-! ### Getting through a character -/

theorem lt_length_bytesOf (front rest : List Char) (c : Char) :
    byteLength front < (bytesOf (front ++ c :: rest)).length := by
  have hpos := c.utf8Size_pos
  rw [length_bytesOf, byteLength_append, byteLength_cons]
  omega

/-- From the offset of a character to its end the text has bytes that pass for it, and only the
first of them may be of ASCII. -/
theorem within {front rest : List Char} {c : Char} {k : Nat} (hfront : byteLength front ≤ k)
    (hend : k < byteLength front + c.utf8Size)
    (h : k < (bytesOf (front ++ c :: rest)).length) :
    PassesFor (bytesOf (front ++ c :: rest))[k] c ∧
      (byteLength front < k → 128 ≤ (sign (bytesOf (front ++ c :: rest))[k]).toNat) := by
  obtain ⟨b, tail, hencode, hpasses, htail⟩ := exists_first c
  have hlength : (b :: tail).length = c.utf8Size := by
    rw [← hencode, String.length_utf8EncodeChar]
  obtain ⟨n, rfl⟩ := Nat.exists_eq_add_of_le hfront
  have hn : n < (b :: tail).length := by omega
  have hget : (bytesOf (front ++ c :: rest))[byteLength front + n]? = some (b :: tail)[n] := by
    rw [bytesOf_append, bytesOf_cons, hencode, ← length_bytesOf front,
      List.getElem?_append_right (Nat.le_add_right ..), Nat.add_sub_cancel_left,
      List.getElem?_append_left hn, List.getElem?_eq_getElem hn]
  rw [(List.getElem?_eq_some_iff.mp hget).2]
  refine ⟨hpasses _ (List.getElem_mem hn), fun hlt => ?_⟩
  obtain ⟨m, rfl⟩ : ∃ m, n = m + 1 := ⟨n - 1, by omega⟩
  exact htail _ (List.getElem_mem (Nat.lt_of_succ_lt_succ hn))

/-- At the offset of a character the text has a byte that passes for it. -/
theorem passesFor_first {front rest : List Char} {c : Char}
    (h : byteLength front < (bytesOf (front ++ c :: rest)).length) :
    PassesFor (bytesOf (front ++ c :: rest))[byteLength front] c :=
  (within (Nat.le_refl _) (Nat.lt_add_of_pos_right c.utf8Size_pos) h).1

/-- What goes on byte by byte above ASCII goes on behind the character that it has got into. -/
theorem across {α : Type} (front rest : List Char) (c : Char) {f : Nat → α}
    (hstep : ∀ k (h : k < (bytesOf (front ++ c :: rest)).length),
      128 ≤ (sign (bytesOf (front ++ c :: rest))[k]).toNat →
      PassesFor (bytesOf (front ++ c :: rest))[k] c → f k = f (k + 1)) :
    f (byteLength front + 1) = f (byteLength (front ++ [c])) := by
  have hpos := c.utf8Size_pos
  have hwalk (n : Nat) (hn : n < c.utf8Size) :
      f (byteLength front + 1) = f (byteLength front + 1 + n) := by
    induction n with
    | zero => rfl
    | succ n ih =>
      have hin : byteLength front + 1 + n < (bytesOf (front ++ c :: rest)).length := by
        rw [length_bytesOf, byteLength_append, byteLength_cons]
        omega
      obtain ⟨hpasses, hlarge⟩ := within (by omega) (by omega) hin
      exact (ih (by omega)).trans (hstep _ hin (hlarge (by omega)) hpasses)
  rw [hwalk (c.utf8Size - 1) (by omega), byteLength_append, byteLength_cons, byteLength_nil]
  congr 1
  omega

/-! ### Cutting -/

/-- The offset stands between two characters of the text, or at one of its ends. -/
def Boundary (text : List Char) (i : Nat) : Prop :=
  String.Pos.Raw.IsValid (String.ofList text) ⟨i⟩

theorem rawEndPos_ofList (text : List Char) :
    (String.ofList text).rawEndPos = ⟨byteLength text⟩ := by
  have hsize : (String.ofList text).utf8ByteSize = byteLength text := by
    induction text with
    | nil => rfl
    | cons c text ih => rw [String.ofList_cons, String.utf8ByteSize_append, ih,
        String.utf8ByteSize_singleton, byteLength_cons]
  rw [← hsize]
  rfl

theorem boundary_iff {text : List Char} {i : Nat} :
    Boundary text i ↔ ∃ front back, text = front ++ back ∧ i = byteLength front := by
  rw [Boundary, String.Pos.Raw.isValid_iff_exists_append]
  constructor
  · rintro ⟨a, b, htext, hi⟩
    refine ⟨a.toList, b.toList, ?_, ?_⟩
    · rw [← String.toList_append, ← htext, String.toList_ofList]
    · rw [← String.ofList_toList (s := a), rawEndPos_ofList] at hi
      simpa using congrArg String.Pos.Raw.byteIdx hi
  · rintro ⟨front, back, rfl, rfl⟩
    exact ⟨String.ofList front, String.ofList back, by simp, (rawEndPos_ofList front).symm⟩

/-- The text in front of an offset and the text behind it, if it can be cut there. -/
def cutAt? : Nat → List Char → Option Cut
  | 0, text => some ([], text)
  | _ + 1, [] => none
  | i + 1, c :: text =>
    if c.utf8Size ≤ i + 1 then (cutAt? (i + 1 - c.utf8Size) text).map (.cons c) else none

theorem cutAt?_byteLength (front back : List Char) :
    cutAt? (byteLength front) (front ++ back) = some (front, back) := by
  induction front with
  | nil => cases back <;> rfl
  | cons c front ih =>
    have hpos := c.utf8Size_pos
    obtain ⟨n, hn⟩ : ∃ n, c.utf8Size + byteLength front = n + 1 :=
      Nat.exists_eq_add_one.mpr (by omega)
    have hback : n + 1 - c.utf8Size = byteLength front := by omega
    rw [byteLength_cons, hn, List.cons_append, cutAt?, if_pos (by omega), hback, ih]
    rfl

/-- A text can be cut at its boundaries, and only there. -/
theorem cutAt?_eq_some_iff {i : Nat} {text front back : List Char} :
    cutAt? i text = some (front, back) ↔ text = front ++ back ∧ i = byteLength front := by
  constructor
  · intro h
    fun_induction cutAt? i text generalizing front with
    | case1 text =>
      obtain ⟨rfl, rfl⟩ := Prod.mk.inj (Option.some.inj h)
      exact ⟨rfl, rfl⟩
    | case2 => cases h
    | case3 i c text hc ih =>
      obtain ⟨⟨inner, back'⟩, hcut, heq⟩ := Option.map_eq_some_iff.mp h
      obtain ⟨rfl, rfl⟩ := Prod.mk.inj heq
      obtain ⟨rfl, hi⟩ := ih hcut
      exact ⟨rfl, by rw [byteLength_cons, ← hi]; omega⟩
    | case4 => cases h
  · rintro ⟨rfl, rfl⟩
    exact cutAt?_byteLength front back

/-! ### Outcomes -/

/-- What stops a walk before it has a result. -/
inductive Fault where
  /-- A text was to be cut at the offset and cannot be. -/
  | cut (offset : Nat)
  /-- A sum does not fit into the bits that it has. -/
  | overflow
  deriving DecidableEq, Repr

/-- What comes of a walk: a result, a fault, or nothing if it never ends. -/
abbrev Outcome (α : Type) := ExceptT Fault Part α

/-- What would follow a fault is not reached. -/
theorem throw_bind {α β : Type} (fault : Fault) (next : α → Outcome β) :
    (throw fault : Outcome α) >>= next = throw fault :=
  congrArg ExceptT.mk (pure_bind (m := Part) (Except.error fault) _)

/-- Where a step leaves a loop: a fault ends it as a result does. -/
def settled {σ α : Type} : Except Fault (α ⊕ σ) → Except Fault α ⊕ σ
  | .error fault => .inl (.error fault)
  | .ok (.inl a) => .inl (.ok a)
  | .ok (.inr s) => .inr s

/-- Takes one step after the other until one of them gives a result or a fault. -/
def loop {σ α : Type} (step : σ → Outcome (α ⊕ σ)) : σ → Outcome α :=
  PFun.fix fun s => (step s).run.map settled

section
variable {σ α : Type} (step : σ → Outcome (α ⊕ σ))

/-- What comes of a loop behind its first step depends on where that step leaves it. -/
theorem mem_bindCont_loop (x : Except Fault (α ⊕ σ)) (b : Except Fault α) :
    b ∈ (ExceptT.bindCont (Sum.elim pure (loop step)) x : Part (Except Fault α)) ↔
      settled x = .inl b ∨ ∃ s, settled x = .inr s ∧ b ∈ (loop step s).run := by
  rcases x with fault | a | s
  · exact Part.mem_some_iff.trans (by simp [settled, eq_comm])
  · exact Part.mem_some_iff.trans (by simp [settled, eq_comm])
  · simp only [settled, reduceCtorEq, Sum.inr.injEq, exists_eq_left', false_or]
    rfl

/-- A loop takes its first step, and goes on from where it leads. -/
theorem loop_eq (s : σ) : loop step s = step s >>= Sum.elim pure (loop step) := by
  have hbind : (step s >>= Sum.elim pure (loop step) : Outcome α) =
      (step s).run.bind (ExceptT.bindCont (Sum.elim pure (loop step))) := rfl
  refine Part.ext fun b => PFun.mem_fix_iff.trans ?_
  simp only [hbind, Part.mem_bind_iff, mem_bindCont_loop, Part.mem_map_iff]
  constructor
  · rintro (⟨x, hx, h⟩ | ⟨s', ⟨x, hx, h⟩, hb⟩)
    · exact ⟨x, hx, .inl h⟩
    · exact ⟨x, hx, .inr ⟨s', h, hb⟩⟩
  · rintro ⟨x, hx, h | ⟨s', h, hb⟩⟩
    · exact .inl ⟨x, hx, h⟩
    · exact .inr ⟨s', ⟨x, hx, h⟩, hb⟩

variable {step} in
/-- A loop that never leaves the states of `P` gives nothing. -/
theorem loop_eq_none {P : σ → Prop} (hstep : ∀ s, P s → ∃ s', P s' ∧ step s = pure (.inr s'))
    {s : σ} (hs : P s) : (loop step s).run = Part.none := by
  refine Part.eq_none_iff.mpr fun b hb =>
    PFun.fixInduction (C := fun s => ¬P s) hb (fun s _ ih hs => ?_) hs
  obtain ⟨s', hs', heq⟩ := hstep s hs
  have hnext : (step s).run = Part.some (.ok (.inr s')) := congrArg ExceptT.run heq
  exact ih s' ((Part.mem_map_iff _).mpr ⟨_, hnext ▸ Part.mem_some _, rfl⟩) hs'

end

def cutAt (text : List Char) (i : Nat) : Outcome Cut :=
  match cutAt? i text with
  | some cut => pure cut
  | none => throw (.cut i)

/-- The text behind an offset. -/
def sliceFrom (text : List Char) (i : Nat) : Outcome (List Char) := return (← cutAt text i).2

/-- The text in front of an offset. -/
def sliceTo (text : List Char) (i : Nat) : Outcome (List Char) := return (← cutAt text i).1

/-- The text between two offsets, of which the first must not be the larger one. -/
def slice (text : List Char) (i j : Nat) : Outcome (List Char) := do
  if j < i then throw (.cut j)
  sliceTo (← sliceFrom text i) (j - i)

section
variable {text front part back : List Char} {i j : Nat}

theorem cutAt_eq (htext : text = front ++ back) (hi : i = byteLength front) :
    cutAt text i = pure (front, back) := by
  rw [cutAt, cutAt?_eq_some_iff.mpr ⟨htext, hi⟩]

theorem sliceFrom_eq (htext : text = front ++ back) (hi : i = byteLength front) :
    sliceFrom text i = pure back := by
  rw [sliceFrom, cutAt_eq htext hi, pure_bind]

theorem sliceTo_eq (htext : text = front ++ back) (hi : i = byteLength front) :
    sliceTo text i = pure front := by
  rw [sliceTo, cutAt_eq htext hi, pure_bind]

theorem slice_eq (htext : text = front ++ (part ++ back)) (hi : i = byteLength front)
    (hj : j = byteLength front + byteLength part) : slice text i j = pure part := by
  rw [slice, if_neg (by omega), sliceFrom_eq htext hi]
  simp only [pure_bind]
  exact sliceTo_eq rfl (by omega)

end

end RouteScaffold.Offset
