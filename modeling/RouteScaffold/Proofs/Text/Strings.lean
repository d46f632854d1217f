import RouteScaffold.Proofs.Text.Quoted

/-! Finding the strings of a text.

A text is walked through once, and each string between double quotes is found with what
stands in front of it on its line. In a script a backslash takes the next character
along, in markup it does not; so a string is taken in as it stands if it is quoted, or
if there is no quote in it (`takenIn_escapes`, `takenIn_of_quoteless`). -/
namespace RouteScaffold.Text
open Quoted

/-- Where a walk through a text is, with what was met on the line and in the string, the last
character first. -/
inductive Walk where
  | outside (before : List Char)
  | inside (before content : List Char)
  /-- Behind a backslash. -/
  | escaped (before content : List Char)

/-- The strings in a text, each with what stands in front of it on its line, the last character
first. Behind a string the line starts anew. -/
def strings (escaping : Bool) : Walk → List Char → List (List Char × List Char)
  | _, [] => []
  | .outside before, c :: cs =>
    if c == '\x22' then strings escaping (.inside before []) cs
    else if c == '\n' then strings escaping (.outside []) cs
    else strings escaping (.outside (c :: before)) cs
  | .inside before content, c :: cs =>
    if c == '\x22' then (before, content.reverse) :: strings escaping (.outside []) cs
    else if escaping && c == '\\' then strings escaping (.escaped before (c :: content)) cs
    else strings escaping (.inside before (c :: content)) cs
  | .escaped before content, c :: cs => strings escaping (.inside before (c :: content)) cs

variable {escaping : Bool}

/-- A line without a quote has no string. -/
theorem strings_quoteless {line : List Char} (h : '\x22' ∉ line) (before rest : List Char) :
    strings escaping (.outside before) (line ++ '\n' :: rest) =
      strings escaping (.outside []) rest := by
  induction line generalizing before with
  | nil => simp [strings]
  | cons c line ih =>
    rw [List.mem_cons, not_or] at h
    rw [List.cons_append, strings, if_neg (by simpa using Ne.symm h.1)]
    split <;> exact ih h.2 _

/-- The text up to a quote leads to the string behind it. -/
theorem strings_open {front : List Char} (hquote : '\x22' ∉ front) (hbreak : '\n' ∉ front)
    (before rest : List Char) :
    strings escaping (.outside before) (front ++ '\x22' :: rest) =
      strings escaping (.inside (front.reverse ++ before) []) rest := by
  induction front generalizing before with
  | nil => simp [strings]
  | cons c front ih =>
    rw [List.mem_cons, not_or] at hquote hbreak
    rw [List.cons_append, strings, if_neg (by simpa using Ne.symm hquote.1),
      if_neg (by simpa using Ne.symm hbreak.1), ih hquote.2 hbreak.2, List.reverse_cons,
      List.append_assoc]
    rfl

/-- From within a string, the content is taken in as it stands. -/
def TakenIn (escaping : Bool) (content : List Char) : Prop :=
  ∀ before taken rest, strings escaping (.inside before taken) (content ++ rest) =
    strings escaping (.inside before (content.reverse ++ taken)) rest

theorem takenIn_nil : TakenIn escaping [] := fun _ _ _ => rfl

theorem TakenIn.append {a b : List Char} (ha : TakenIn escaping a) (hb : TakenIn escaping b) :
    TakenIn escaping (a ++ b) := by
  intro before taken rest
  rw [List.append_assoc, ha, hb, List.reverse_append, List.append_assoc]

theorem takenIn_char {c : Char} (hquote : c ≠ '\x22') (hbackslash : escaping = true → c ≠ '\\') :
    TakenIn escaping [c] := by
  intro before taken rest
  have hescape : ¬ (escaping && c == '\\') = true := by simpa using hbackslash
  rw [List.singleton_append, strings, if_neg (by simpa using hquote), if_neg hescape]
  rfl

theorem takenIn_of_forall {cs : List Char}
    (h : ∀ c ∈ cs, c ≠ '\x22' ∧ (escaping = true → c ≠ '\\')) : TakenIn escaping cs := by
  induction cs with
  | nil => exact takenIn_nil
  | cons c cs ih =>
    obtain ⟨hc, hcs⟩ := List.forall_mem_cons.mp h
    exact (takenIn_char hc.1 hc.2).append (ih hcs)

/-- A backslash and what it takes along. -/
theorem takenIn_pair (c : Char) : TakenIn true ['\\', c] := by
  intro before taken rest
  simp [strings]

theorem takenIn_escape (c : Char) : TakenIn true (escape c) := by
  have hescape := isEscape c
  generalize escape c = text at hescape
  cases hescape with
  | letter h => exact takenIn_pair _
  | code =>
    have hcode : TakenIn true ('\x7b' :: (hex c.toNat ++ ['\x7d'])) := by
      refine takenIn_of_forall fun d hd => ?_
      simp only [List.mem_cons, List.mem_append, List.not_mem_nil, or_false] at hd
      rcases hd with rfl | hd | rfl
      · decide
      · obtain ⟨value, hvalue, rfl⟩ := mem_hex hd
        exact ⟨(hexDigit_ne value hvalue).2.2, fun _ => (hexDigit_ne value hvalue).2.1⟩
      · decide
    exact (takenIn_pair 'u').append hcode
  | itself hbackslash hquote hbreak => exact takenIn_char hquote fun _ => hbackslash

theorem takenIn_escapes (cs : List Char) : TakenIn true (escapes cs) := by
  induction cs with
  | nil => exact takenIn_nil
  | cons c cs ih =>
    rw [escapes, List.flatMap_cons]
    exact (takenIn_escape c).append ih

theorem takenIn_of_quoteless {cs : List Char} (h : '\x22' ∉ cs) : TakenIn false cs := by
  refine takenIn_of_forall fun c hc => ⟨?_, nofun⟩
  rintro rfl
  exact h hc

/-- A string is found with what stands in front of it. -/
theorem strings_string {front content : List Char} (hquote : '\x22' ∉ front) (hbreak : '\n' ∉ front)
    (hcontent : TakenIn escaping content) (rest : List Char) :
    strings escaping (.outside []) (front ++ '\x22' :: (content ++ '\x22' :: rest)) =
      (front.reverse, content) :: strings escaping (.outside []) rest := by
  rw [strings_open hquote hbreak, hcontent, strings, if_pos (by simp)]
  simp

end RouteScaffold.Text
