import Mathlib.Data.List.Chain
import RouteScaffold.Proofs.Route.DescriptorNames
import RouteScaffold.Proofs.Route.Segments
import RouteScaffold.Proofs.Text.Literal

/-! What a template literal evaluates to.

Between its backticks a template literal denotes characters, as a string does, and it has
the values of expressions in their places. The expressions that are read here are the
members of one record (`member?`); a literal with any other expression has no value.

A literal is read to a list of parts, and two lists of parts have one value for all
records only if they are one list (`eq_of_fill`). What a list of parts is written as is
read back to it exactly if no character has a meaning of its own there and each member is
an identifier (`parts?_spelling_iff`): an escape makes the parts shorter than their text,
and any other slip makes one of them another one. -/
namespace RouteScaffold.Text.Template
open Literal Route

/-- The identifiers of a script: the characters they start with and those they are made of. Of
ASCII these are the letters, the digits, the underscore and the dollar sign. -/
structure Identifiers where
  starts : Char → Bool
  continues : Char → Bool
  ascii : ∀ c, c.toNat < 0x80 → continues c = true → c.isAlphanum = true ∨ c = '_' ∨ c = '$'

/-- A text is an identifier. -/
def Identifiers.Allows (ids : Identifiers) (name : List Char) : Prop :=
  name.head?.any ids.starts = true ∧ name.all ids.continues = true

instance (ids : Identifiers) (name : List Char) : Decidable (ids.Allows name) :=
  inferInstanceAs (Decidable (_ ∧ _))

/-- A part of what a template literal evaluates to. -/
inductive Part where
  | char (c : Char)
  /-- The value of a member of the record. -/
  | member (name : List Char)
  deriving DecidableEq, Repr

section Reading
variable (ids : Identifiers) (accessor : String)

/-- The member of the record that is read up to the next brace, and the characters it takes with
the brace. -/
def member? (cs : List Char) : Option (List Char × Nat) :=
  (behind? (accessor ++ ".") cs).bind fun rest =>
    let name := rest.takeWhile ids.continues
    if ids.Allows name ∧ (rest.drop name.length).head? = some '\x7d' then
      some (name, accessor.length + name.length + 2)
    else none

/-- The parts of a literal behind its first characters, as many as were taken, up to the backtick
that ends it. A line end stands for a line feed, however it is written. -/
def partsFrom? : Nat → List Char → Option (List Part)
  | _, [] => none
  | taken + 1, _ :: cs => partsFrom? taken cs
  | 0, c :: cs =>
    if c == '\x60' then if cs.isEmpty then some [] else none
    else if c == '\\' then
      (escape? cs).bind fun e => (partsFrom? e.2 cs).map (e.1.map .char ++ ·)
    else if c == '$' && cs.head? == some '\x7b' then
      (member? ids accessor cs.tail).bind fun m => (partsFrom? (m.2 + 1) cs).map (.member m.1 :: ·)
    else if c == '\r' then
      (partsFrom? (if cs.head? == some '\n' then 1 else 0) cs).map (.char '\n' :: ·)
    else (partsFrom? 0 cs).map (.char c :: ·)

/-- The parts of the text behind the backtick that opens a literal. -/
def parts? (cs : List Char) : Option (List Part) := partsFrom? ids accessor 0 cs

end Reading

/-- The text that stands for a part in a record. A member that the record lacks is undefined, and
stands as this word. -/
def Part.value (record : List Char → Option (List Char)) : Part → List Char
  | .char c => [c]
  | .member name => (record name).getD "undefined".toList

def fill (record : List Char → Option (List Char)) (ps : List Part) : List Char :=
  ps.flatMap (·.value record)

/-- What a template literal evaluates to where the accessor is a record. -/
def evaluate? (ids : Identifiers) (accessor : String) (record : List Char → Option (List Char)) :
    List Char → Option (List Char)
  | '\x60' :: cs => (parts? ids accessor cs).map (fill record)
  | _ => none

/-! ### Values -/

/-- A record that has every member. -/
def whole (value : List Char → List Char) (name : List Char) : Option (List Char) :=
  some (value name)

theorem fill_cons (record : List Char → Option (List Char)) (p : Part) (ps : List Part) :
    fill record (p :: ps) = p.value record ++ fill record ps := List.flatMap_cons

/-- Two parts are told apart by some members of one character. -/
theorem exists_value_ne {p q : Part} (h : p ≠ q) :
    ∃ value c d, c ≠ d ∧ p.value (whole value) = [c] ∧ q.value (whole value) = [d] := by
  have hother (c : Char) : c ≠ if c = 'a' then 'b' else 'a' := by
    split
    next hc => rw [hc]; decide
    next hc => exact hc
  cases p with
  | char c =>
    cases q with
    | char d => exact ⟨fun _ => [], c, d, fun heq => h (heq ▸ rfl), rfl, rfl⟩
    | member name => exact ⟨fun _ => [_], c, _, hother c, rfl, rfl⟩
  | member name =>
    cases q with
    | char d => exact ⟨fun _ => [_], _, d, (hother d).symm, rfl, rfl⟩
    | member other =>
      have hne : other ≠ name := fun heq => h (heq ▸ rfl)
      refine ⟨fun found => [if found = name then 'a' else 'b'], 'a', 'b', by decide, ?_, ?_⟩
      · simp [Part.value, whole]
      · simp [Part.value, whole, hne]

theorem fill_cons_ne_nil (p : Part) (ps : List Part) :
    ∃ value, fill (whole value) (p :: ps) ≠ [] :=
  ⟨fun _ => ['a'], by cases p <;> simp [fill_cons, Part.value, whole]⟩

/-- **Parts that have one value whatever the members are, are the same.** -/
theorem eq_of_fill {ps qs : List Part}
    (h : ∀ value, fill (whole value) ps = fill (whole value) qs) : ps = qs := by
  induction ps generalizing qs with
  | nil =>
    cases qs with
    | nil => rfl
    | cons q qs =>
      obtain ⟨value, hvalue⟩ := fill_cons_ne_nil q qs
      exact absurd (h value).symm hvalue
  | cons p ps ih =>
    cases qs with
    | nil =>
      obtain ⟨value, hvalue⟩ := fill_cons_ne_nil p ps
      exact absurd (h value) hvalue
    | cons q qs =>
      simp only [fill_cons] at h
      have hhead : p = q := by
        refine Classical.byContradiction fun hne => ?_
        obtain ⟨value, c, d, hcd, hp, hq⟩ := exists_value_ne hne
        have hvalue := h value
        rw [hp, hq] at hvalue
        exact hcd (List.cons.inj hvalue).1
      subst hhead
      rw [ih fun value => List.append_cancel_left (h value)]

/-! ### Texts -/

/-- How a part is spelled between the backticks. -/
def Part.text (accessor : String) : Part → List Char
  | .char c => [c]
  | .member name => placeholder accessor name

def spelling (accessor : String) (ps : List Part) : List Char := ps.flatMap (·.text accessor)

theorem spelling_cons (accessor : String) (p : Part) (ps : List Part) :
    spelling accessor (p :: ps) = p.text accessor ++ spelling accessor ps := List.flatMap_cons

theorem spelling_append (accessor : String) (ps qs : List Part) :
    spelling accessor (ps ++ qs) = spelling accessor ps ++ spelling accessor qs :=
  List.flatMap_append

theorem length_spelling_chars (accessor : String) (cs : List Char) :
    (spelling accessor (cs.map .char)).length = cs.length := by
  induction cs with
  | nil => rfl
  | cons c cs ih =>
    rw [List.map_cons, spelling_cons, List.length_append, ih, List.length_cons, Nat.add_comm]
    rfl

section Reading
variable {ids : Identifiers} {accessor : String}

theorem partsFrom?_eq_drop (n : Nat) (cs : List Char) :
    partsFrom? ids accessor n cs = parts? ids accessor (cs.drop n) := by
  induction cs generalizing n with
  | nil => rw [List.drop_nil, parts?, partsFrom?, partsFrom?]
  | cons c cs ih =>
    cases n with
    | zero => rfl
    | succ n => rw [partsFrom?, ih, List.drop_succ_cons]

/-- One part of a literal is read in front of the rest. -/
theorem parts?_cons (c : Char) (cs : List Char) :
    parts? ids accessor (c :: cs) =
      if c = '\x60' then if cs = [] then some [] else none
      else if c = '\\' then
        (escape? cs).bind fun e =>
          (parts? ids accessor (cs.drop e.2)).map (e.1.map .char ++ ·)
      else if c = '$' ∧ cs.head? = some '\x7b' then
        (member? ids accessor cs.tail).bind fun m =>
          (parts? ids accessor (cs.tail.drop m.2)).map (.member m.1 :: ·)
      else if c = '\r' then
        (parts? ids accessor (cs.drop (if cs.head? = some '\n' then 1 else 0))).map
          (.char '\n' :: ·)
      else (parts? ids accessor cs).map (.char c :: ·) := by
  rw [parts?, partsFrom?]
  simp only [partsFrom?_eq_drop, beq_iff_eq, Bool.and_eq_true, List.isEmpty_iff, List.drop_zero,
    List.drop_tail]

theorem not_continues_brace (ids : Identifiers) : ids.continues '\x7d' = false :=
  Bool.eq_false_iff.mpr fun h => by
    have hascii := ids.ascii '\x7d' (by decide) h
    revert hascii
    decide

/-- A member is read off the text of its placeholder, and off no other. -/
theorem member?_eq_some_iff {cs name : List Char} {n : Nat} :
    member? ids accessor cs = some (name, n) ↔
      (ids.Allows name ∧ n = accessor.length + name.length + 2) ∧
        ∃ rest, cs = (accessor ++ ".").toList ++ (name ++ '\x7d' :: rest) := by
  simp only [member?, Option.bind_eq_some_iff, behind?_eq_some_iff]
  constructor
  · rintro ⟨more, rfl, h⟩
    obtain ⟨⟨hallows, hbrace⟩, heq⟩ := Option.ite_none_right_eq_some.mp h
    cases heq
    obtain ⟨rest, hrest⟩ := List.head?_eq_some_iff.mp hbrace
    refine ⟨⟨hallows, rfl⟩, rest, ?_⟩
    rw [← hrest, List.prefix_iff_eq_append.mp (List.takeWhile_prefix _)]
  · rintro ⟨⟨hallows, rfl⟩, rest, rfl⟩
    have hname : (name ++ '\x7d' :: rest).takeWhile ids.continues = name := by
      rw [List.takeWhile_append_of_pos (List.all_eq_true.mp hallows.2),
        List.takeWhile_cons_of_neg (by simp [not_continues_brace]), List.append_nil]
    refine ⟨_, rfl, ?_⟩
    simp [hname, hallows]

theorem toList_placeholder (name rest : List Char) :
    placeholder accessor name ++ rest =
      '$' :: '\x7b' :: ((accessor ++ ".").toList ++ (name ++ '\x7d' :: rest)) := by
  simp [placeholder]

theorem drop_placeholder (name rest : List Char) :
    ((accessor ++ ".").toList ++ (name ++ '\x7d' :: rest)).drop
      (accessor.length + name.length + 2) = rest := by
  have hcut : (accessor ++ ".").toList ++ (name ++ '\x7d' :: rest) =
      ((accessor ++ ".").toList ++ (name ++ ['\x7d'])) ++ rest := by simp
  rw [hcut, List.drop_left']
  simp only [String.toList_append, List.length_append, String.length_toList]
  exact Nat.add_right_comm ..

/-- The characters with a meaning of their own within a template literal. -/
def meant : List Char := ['\x60', '\\', '\r']

/-- The text behind the backtick that opens a literal, and its parts. -/
inductive Reads (ids : Identifiers) (accessor : String) : List Char → List Part → Prop where
  | closed : Reads ids accessor ['\x60'] []
  | escape {cs taken : List Char} {n : Nat} {ps : List Part} :
      escape? cs = some (taken, n) → Reads ids accessor (cs.drop n) ps →
      Reads ids accessor ('\\' :: cs) (taken.map .char ++ ps)
  | member {name rest : List Char} {ps : List Part} :
      ids.Allows name → Reads ids accessor rest ps →
      Reads ids accessor (placeholder accessor name ++ rest) (.member name :: ps)
  | lineEnd {cs : List Char} {ps : List Part} :
      Reads ids accessor (cs.drop (if cs.head? = some '\n' then 1 else 0)) ps →
      Reads ids accessor ('\r' :: cs) (.char '\n' :: ps)
  | itself {c : Char} {cs : List Char} {ps : List Part} :
      c ∉ meant → ¬ (c = '$' ∧ cs.head? = some '\x7b') → Reads ids accessor cs ps →
      Reads ids accessor (c :: cs) (.char c :: ps)

/-- A member that is read stands in its placeholder. -/
theorem reads_member {cs name : List Char} {n : Nat} {ps : List Part}
    (hmember : member? ids accessor cs = some (name, n))
    (hrest : Reads ids accessor (cs.drop n) ps) :
    Reads ids accessor ('$' :: '\x7b' :: cs) (.member name :: ps) := by
  obtain ⟨⟨hallows, rfl⟩, rest, rfl⟩ := member?_eq_some_iff.mp hmember
  rw [drop_placeholder] at hrest
  rw [← toList_placeholder]
  exact .member hallows hrest

theorem reads_of_parts? {cs : List Char} {ps : List Part} (h : parts? ids accessor cs = some ps) :
    Reads ids accessor cs ps := by
  induction hlength : cs.length using Nat.strongRecOn generalizing cs ps with
  | ind length ih =>
    subst hlength
    cases cs with
    | nil => cases h
    | cons c cs =>
      -- Every reading goes on behind some of the characters that are left.
      have hback (n : Nat) {qs : List Part} (h : parts? ids accessor (cs.drop n) = some qs) :
          Reads ids accessor (cs.drop n) qs :=
        ih _ (by simp only [List.length_drop, List.length_cons]; omega) h rfl
      rw [parts?_cons] at h
      split at h
      next hc =>
        obtain ⟨rfl, heq⟩ := Option.ite_none_right_eq_some.mp h
        cases heq
        exact hc ▸ .closed
      split at h
      next hc =>
        obtain ⟨⟨taken, n⟩, hescape, h⟩ := Option.bind_eq_some_iff.mp h
        obtain ⟨qs, hqs, rfl⟩ := Option.map_eq_some_iff.mp h
        exact hc ▸ .escape hescape (hback n hqs)
      split at h
      next hopens =>
        obtain ⟨more, rfl⟩ := List.head?_eq_some_iff.mp hopens.2
        obtain ⟨⟨name, n⟩, hmember, h⟩ := Option.bind_eq_some_iff.mp h
        obtain ⟨qs, hqs, rfl⟩ := Option.map_eq_some_iff.mp h
        exact hopens.1 ▸ reads_member hmember (hback (n + 1) hqs)
      next hopens =>
        split at h
        next hc =>
          obtain ⟨qs, hqs, rfl⟩ := Option.map_eq_some_iff.mp h
          exact hc ▸ .lineEnd (hback _ hqs)
        next hreturn =>
          obtain ⟨qs, hqs, rfl⟩ := Option.map_eq_some_iff.mp h
          exact .itself (by simp [meant, *]) hopens (hback 0 hqs)

theorem parts?_of_reads {cs : List Char} {ps : List Part} (h : Reads ids accessor cs ps) :
    parts? ids accessor cs = some ps := by
  induction h with
  | closed => rfl
  | escape hescape _ ih =>
    rw [parts?_cons, if_neg (by decide), if_pos rfl, hescape, Option.bind_some, ih]
    rfl
  | @member name rest ps hallows _ ih =>
    have hmember : member? ids accessor ((accessor ++ ".").toList ++ (name ++ '\x7d' :: rest)) =
        some (name, accessor.length + name.length + 2) :=
      member?_eq_some_iff.mpr ⟨⟨hallows, rfl⟩, rest, rfl⟩
    rw [toList_placeholder, parts?_cons, if_neg (by decide), if_neg (by decide), if_pos ⟨rfl, rfl⟩,
      List.tail_cons, hmember, Option.bind_some, drop_placeholder, ih]
    rfl
  | lineEnd _ ih =>
    rw [parts?_cons, if_neg (by decide), if_neg (by decide), if_neg (by simp), if_pos rfl, ih]
    rfl
  | itself hmeant hopens _ ih =>
    simp only [meant, List.mem_cons, List.not_mem_nil, or_false, not_or] at hmeant
    rw [parts?_cons, if_neg hmeant.1, if_neg hmeant.2.1, if_neg hopens, if_neg hmeant.2.2, ih]
    rfl

/-- The parts of a literal are written no longer than it is. -/
theorem Reads.length_spelling {cs : List Char} {ps : List Part} (h : Reads ids accessor cs ps) :
    (spelling accessor ps).length < cs.length := by
  induction h with
  | closed => simp [spelling]
  | @escape cs taken n ps hescape _ ih =>
    obtain ⟨htaken, hn, hne⟩ := length_of_escape? hescape
    have hpos := List.length_pos_iff.mpr hne
    rw [List.length_drop] at ih
    rw [spelling_append, List.length_append, length_spelling_chars, List.length_cons]
    omega
  | member _ _ ih =>
    rw [spelling_cons, List.length_append, List.length_append]
    exact Nat.add_lt_add_left ih _
  | @lineEnd cs ps _ ih =>
    rw [List.length_drop] at ih
    rw [spelling_cons, List.length_append, List.length_cons, Part.text, List.length_singleton]
    omega
  | itself _ _ _ ih =>
    rw [spelling_cons, List.length_append, List.length_cons, Part.text, List.length_singleton]
    omega

/-! ### Reading back -/

/-- A part is written as it is to be read. -/
def Part.Plain (ids : Identifiers) : Part → Prop
  | .char c => c ∉ meant
  | .member name => ids.Allows name

@[simp] theorem Part.plain_char_iff {c : Char} : Part.Plain ids (.char c) ↔ c ∉ meant := Iff.rfl

/-- Parts that are written as they are to be read: no dollar sign stands in front of a brace. -/
def Plain (ids : Identifiers) (ps : List Part) : Prop :=
  (∀ p ∈ ps, p.Plain ids) ∧ ps.IsChain fun p q => ¬ (p = .char '$' ∧ q = .char '\x7b')

theorem plain_cons_iff {p : Part} {ps : List Part} :
    Plain ids (p :: ps) ↔
      (p.Plain ids ∧ ∀ q ∈ ps.head?, ¬ (p = .char '$' ∧ q = .char '\x7b')) ∧ Plain ids ps := by
  rw [Plain, List.forall_mem_cons, List.isChain_cons, and_and_and_comm, Plain]

/-- The brace in front of a written text is the one of its first part. -/
theorem head?_spelling {ps : List Part} :
    (spelling accessor ps ++ ['\x60']).head? = some '\x7b' ↔ ps.head? = some (.char '\x7b') := by
  cases ps with
  | nil => simp [spelling]
  | cons p ps => cases p <;> simp [spelling_cons, Part.text, placeholder]

theorem reads_spelling {ps : List Part} (h : Plain ids ps) :
    Reads ids accessor (spelling accessor ps ++ ['\x60']) ps := by
  induction ps with
  | nil => exact .closed
  | cons p ps ih =>
    obtain ⟨⟨hp, hhead⟩, hps⟩ := plain_cons_iff.mp h
    rw [spelling_cons, List.append_assoc]
    cases p with
    | member name => exact .member hp (ih hps)
    | char c =>
      refine .itself hp (fun hopens => ?_) (ih hps)
      exact hhead _ (head?_spelling.mp hopens.2) ⟨hopens.1 ▸ rfl, rfl⟩

theorem plain_of_reads {ps : List Part}
    (h : Reads ids accessor (spelling accessor ps ++ ['\x60']) ps) : Plain ids ps := by
  induction ps with
  | nil => exact ⟨nofun, .nil⟩
  | cons p ps ih =>
    rw [plain_cons_iff]
    generalize htext : spelling accessor (p :: ps) ++ ['\x60'] = cs at h
    generalize hps : p :: ps = qs at h
    rw [spelling_cons, List.append_assoc] at htext
    cases h with
    | closed => cases hps
    | @escape cs taken n rest hescape hread =>
      -- The escape makes the parts shorter than the text that they are written as.
      have hlength := congrArg List.length htext
      have hrest := hread.length_spelling
      obtain ⟨htaken, hn, -⟩ := length_of_escape? hescape
      rw [← List.append_assoc, ← spelling_cons, hps, spelling_append] at hlength
      simp only [List.length_append, List.length_cons, List.length_nil,
        length_spelling_chars] at hlength
      rw [List.length_drop] at hrest
      omega
    | member hallows hread =>
      cases hps
      rw [Part.text, List.append_cancel_left_eq] at htext
      exact ⟨⟨hallows, fun q _ hopens => by cases hopens.1⟩, ih (htext ▸ hread)⟩
    | lineEnd hread =>
      cases hps
      cases htext
    | itself hmeant hopens hread =>
      cases hps
      obtain rfl := (List.cons.inj htext).2
      refine ⟨⟨hmeant, fun q hq hbrace => hopens ⟨?_, ?_⟩⟩, ih hread⟩
      · exact Part.char.inj hbrace.1
      · exact head?_spelling.mpr (hbrace.2 ▸ hq)

/-- **Parts are read back exactly if they are written plainly.** -/
theorem parts?_spelling_iff {ps : List Part} :
    parts? ids accessor (spelling accessor ps ++ ['\x60']) = some ps ↔ Plain ids ps :=
  ⟨fun h => plain_of_reads (reads_of_parts? h), fun h => parts?_of_reads (reads_spelling h)⟩

/-! ### Records -/

/-- The record that has some of the members only. -/
def restrict (keys : List Char → Bool) (value : List Char → List Char) (name : List Char) :
    Option (List Char) :=
  if keys name then some (value name) else none

/-- A part where the members that a record lacks are undefined. -/
def Part.defined (keys : List Char → Bool) : Part → List Part
  | .char c => [.char c]
  | .member name => if keys name then [.member name] else "undefined".toList.map .char

theorem fill_restrict (keys : List Char → Bool) (value : List Char → List Char) (ps : List Part) :
    fill (restrict keys value) ps = fill (whole value) (ps.flatMap (·.defined keys)) := by
  have hpart (p : Part) : p.value (restrict keys value) = fill (whole value) (p.defined keys) := by
    cases p with
    | char c => rfl
    | member name =>
      cases hkey : keys name <;> simp [Part.value, restrict, Part.defined, fill, whole, hkey]
  rw [fill, fill, List.flatMap_assoc]
  exact List.flatMap_congr fun p _ => hpart p

/-- Undefined members are written shorter than their placeholders. -/
theorem length_defined (haccessor : "undefined".length ≤ accessor.length)
    (keys : List Char → Bool) (ps : List Part) :
    ps.flatMap (·.defined keys) = ps ∨
      (spelling accessor (ps.flatMap (·.defined keys))).length < (spelling accessor ps).length := by
  induction ps with
  | nil => exact .inl rfl
  | cons p ps ih =>
    rw [List.flatMap_cons, spelling_append, spelling_cons, List.length_append, List.length_append]
    have hpart : p.defined keys = [p] ∨
        (spelling accessor (p.defined keys)).length < (p.text accessor).length := by
      cases p with
      | char c => exact .inl rfl
      | member name =>
        cases hkey : keys name with
        | true => exact .inl (if_pos hkey)
        | false =>
          refine .inr ?_
          rw [Part.defined, if_neg (by simp [hkey]), length_spelling_chars]
          simp only [Part.text, placeholder, List.length_append, String.length_toList]
          exact Nat.lt_of_le_of_lt haccessor (by simp; omega)
    have hsingle : (spelling accessor [p]).length = (p.text accessor).length := by
      simp [spelling]
    have hle : (spelling accessor (ps.flatMap (·.defined keys))).length ≤
        (spelling accessor ps).length := ih.elim (fun h => Nat.le_of_eq (by rw [h])) Nat.le_of_lt
    rcases hpart with hpart | hlt
    · rw [hpart, hsingle]
      exact ih.imp (congrArg ([p] ++ ·)) (Nat.add_lt_add_left · _)
    · exact .inr (Nat.add_lt_add_of_lt_of_le hlt hle)

/-- **A literal evaluates to its parts for all values exactly if it is written plainly and the
record has its members.** -/
theorem evaluate?_spelling_iff (haccessor : "undefined".length ≤ accessor.length)
    {keys : List Char → Bool} {ps : List Part} :
    (∀ value, evaluate? ids accessor (restrict keys value)
      ('\x60' :: (spelling accessor ps ++ ['\x60'])) = some (fill (whole value) ps)) ↔
      Plain ids ps ∧ ps.flatMap (·.defined keys) = ps := by
  simp only [evaluate?, ← @parts?_spelling_iff ids accessor]
  constructor
  · intro h
    obtain ⟨qs, hqs, -⟩ := Option.map_eq_some_iff.mp (h fun _ => [])
    simp only [hqs, Option.map_some, Option.some.injEq, fill_restrict] at h
    have hdefined : qs.flatMap (·.defined keys) = ps := eq_of_fill h
    rcases length_defined haccessor keys qs with hall | hlt
    · obtain rfl : qs = ps := hall.symm.trans hdefined
      exact ⟨hqs, hall⟩
    · have hlength := (reads_of_parts? hqs).length_spelling
      rw [List.length_append, List.length_singleton] at hlength
      rw [hdefined] at hlt
      omega
  · rintro ⟨hparts, hdefined⟩ value
    rw [hparts, Option.map_some, fill_restrict, hdefined]

end Reading
end RouteScaffold.Text.Template
