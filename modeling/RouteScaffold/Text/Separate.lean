/-! Cutting a text at a separator.

The parts of a text are what lies between its separators, empty parts included,
so there is one part more than there are separators, and the text is its parts
with the separators put back. -/
namespace RouteScaffold.Text

/-- The parts of a text between the characters that `isSeparator` picks. -/
def separate (isSeparator : Char → Bool) : List Char → List (List Char)
  | [] => [[]]
  | c :: rest =>
    if isSeparator c then [] :: separate isSeparator rest
    else
      match separate isSeparator rest with
      | [] => [[c]]
      | part :: parts => (c :: part) :: parts

theorem separate_ne_nil (isSeparator : Char → Bool) (cs : List Char) :
    separate isSeparator cs ≠ [] := by
  cases cs with
  | nil => simp [separate]
  | cons c rest =>
    unfold separate
    split
    · simp
    · split <;> simp

/-- No part holds a separator. -/
theorem not_separator_of_mem_separate {isSeparator : Char → Bool} {cs part : List Char}
    (h : part ∈ separate isSeparator cs) : ∀ c ∈ part, isSeparator c = false := by
  induction cs generalizing part with
  | nil => simp_all [separate]
  | cons c rest ih =>
    unfold separate at h
    split at h
    · rcases List.mem_cons.mp h with rfl | h
      · simp
      · exact ih h
    next hc =>
      have hc : isSeparator c = false := by simpa using hc
      split at h
      next hnil => exact absurd hnil (separate_ne_nil _ _)
      next p ps hparts =>
        rcases List.mem_cons.mp h with rfl | h
        · intro d hd
          rcases List.mem_cons.mp hd with rfl | hd
          · exact hc
          · exact ih (by rw [hparts]; exact List.mem_cons_self ..) d hd
        · exact ih (by rw [hparts]; exact List.mem_cons_of_mem _ h)

/-- The text is its parts with the separator put back between them. -/
theorem intercalate_separate (sep : Char) (cs : List Char) :
    List.intercalate [sep] (separate (· == sep) cs) = cs := by
  induction cs with
  | nil => rfl
  | cons c rest ih =>
    unfold separate
    split
    next hc =>
      have hc : c = sep := by simpa using hc
      cases h : separate (· == sep) rest with
      | nil => exact absurd h (separate_ne_nil _ _)
      | cons part parts =>
        rw [h] at ih
        simp [List.intercalate, List.intersperse, hc] at ih ⊢
        exact ih
    · split
      next hnil => exact absurd hnil (separate_ne_nil _ _)
      next part parts h =>
        rw [h] at ih
        cases parts <;> simp_all [List.intercalate, List.intersperse]

/-- A separator cuts the text, whatever stands around it. -/
theorem separate_append {isSeparator : Char → Bool} {sep : Char} (hsep : isSeparator sep = true)
    (a b : List Char) :
    separate isSeparator (a ++ sep :: b) = separate isSeparator a ++ separate isSeparator b := by
  induction a with
  | nil => simp [separate, hsep]
  | cons c a ih =>
    rw [List.cons_append, separate, separate, ih]
    split
    · rfl
    · cases h : separate isSeparator a with
      | nil => exact absurd h (separate_ne_nil _ _)
      | cons part parts => rfl

/-- A text without separators is its only part. -/
theorem separate_of_forall {isSeparator : Char → Bool} {cs : List Char}
    (h : ∀ c ∈ cs, isSeparator c = false) : separate isSeparator cs = [cs] := by
  induction cs with
  | nil => rfl
  | cons c cs ih =>
    rw [List.forall_mem_cons] at h
    rw [separate, ih h.2, if_neg (by simp [h.1])]

end RouteScaffold.Text
