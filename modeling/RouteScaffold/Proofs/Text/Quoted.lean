import RouteScaffold.Text.Quoted

/-! Reading quoted names.

A character stands between the quotes as one of three kinds of escapes (`Escape`).
Each is read back on its own, whatever follows it (`unescape_escape`), and so a quoted
name is read back whatever characters it has (`unquote_quote`). -/
namespace RouteScaffold.Text.Quoted

/-! ### Code points -/

theorem digitValue_hexDigit : ∀ d < 16, digitValue (hexDigit d) = some d := by decide

theorem hexDigit_ne : ∀ d < 16, hexDigit d ≠ '\x7d' ∧ hexDigit d ≠ '\\' ∧ hexDigit d ≠ '\x22' := by
  decide

theorem readCode_digit (value : Nat) {d : Nat} (hd : d < 16) (rest : List Char) :
    readCode value (hexDigit d :: rest) = readCode (16 * value + d) rest := by
  rw [readCode, if_neg (by simpa using (hexDigit_ne d hd).1), digitValue_hexDigit d hd,
    Option.bind_some]

/-- The digits of a number are read to its value. -/
theorem readCode_hex (n : Nat) (rest : List Char) :
    readCode 0 (hex n ++ rest) = readCode n rest := by
  induction n using Nat.strongRecOn generalizing rest with
  | ind n ih =>
    rw [hex]
    split
    next hn => rw [List.singleton_append, readCode_digit 0 hn, Nat.mul_zero, Nat.zero_add]
    next hn =>
      rw [List.append_assoc, ih (n / 16) (by omega), List.singleton_append,
        readCode_digit _ (Nat.mod_lt n (by omega)), Nat.div_add_mod]

theorem mem_hex {n : Nat} {c : Char} (h : c ∈ hex n) : ∃ d < 16, c = hexDigit d := by
  induction n using Nat.strongRecOn with
  | ind n ih =>
    rw [hex] at h
    split at h
    next hn => exact ⟨n, hn, List.mem_singleton.mp h⟩
    next hn =>
      rcases List.mem_append.mp h with h | h
      · exact ih (n / 16) (by omega) h
      · exact ⟨n % 16, Nat.mod_lt n (by omega), List.mem_singleton.mp h⟩

/-! ### Characters -/

/-- The characters that are written by a letter. -/
def letters : List (Char × Char) :=
  [('\x00', '0'), ('\t', 't'), ('\r', 'r'), ('\n', 'n'), ('\\', '\\'), ('\x22', '\x22')]

/-- What stands for a character between quotes. -/
inductive Escape : Char → List Char → Prop where
  | letter {c letter : Char} (h : (c, letter) ∈ letters) : Escape c ['\\', letter]
  | code (c : Char) : Escape c ('\\' :: 'u' :: '\x7b' :: (hex c.toNat ++ ['\x7d']))
  | itself {c : Char} (hbackslash : c ≠ '\\') (hquote : c ≠ '\x22') (hbreak : c ≠ '\n') :
      Escape c [c]

theorem isEscape (c : Char) : Escape c (escape c) := by
  have hletter {d letter : Char} (hc : (c == d) = true) (h : (d, letter) ∈ letters) :
      Escape c ['\\', letter] := by
    rw [beq_iff_eq.mp hc]
    exact .letter h
  unfold escape
  split
  next h => exact hletter h (by decide)
  split
  next h => exact hletter h (by decide)
  split
  next h => exact hletter h (by decide)
  split
  next h => exact hletter h (by decide)
  split
  next h => exact hletter h (by decide)
  split
  next h => exact hletter h (by decide)
  split
  next => exact .code c
  next hbreak hbackslash hquote _ =>
    exact .itself (by simpa using hbackslash) (by simpa using hquote) (by simpa using hbreak)

theorem unescape_letter (rest : List Char) : ∀ p ∈ letters,
    unescape ('\\' :: p.2 :: rest) = (unescape rest).map (p.1 :: ·) := by
  simp [letters, unescape]

theorem unescape_code (code : Nat) (rest : List Char) :
    unescape ('\\' :: 'u' :: '\x7b' :: (hex code ++ '\x7d' :: rest)) =
      (unescape rest).map (Char.ofNat code :: ·) := by
  have hread : readCode 0 (hex code ++ '\x7d' :: rest) = some (code, rest) := by
    rw [readCode_hex, readCode, if_pos (by simp)]
  rw [unescape]
  split
  next hnone =>
    rw [hread] at hnone
    cases hnone
  next code' rest' hsome =>
    rw [hread] at hsome
    cases hsome
    rfl

/-- An escape is read back, whatever follows it. -/
theorem unescape_escape (c : Char) (rest : List Char) :
    unescape (escape c ++ rest) = (unescape rest).map (c :: ·) := by
  have hescape := isEscape c
  generalize escape c = text at hescape
  cases hescape with
  | letter h => exact unescape_letter rest _ h
  | code =>
    have hcode := unescape_code c.toNat rest
    rw [Char.ofNat_toNat] at hcode
    simpa using hcode
  | itself hbackslash hquote hbreak =>
    rw [List.singleton_append, unescape] <;> simp_all

theorem unescape_escapes (cs : List Char) : unescape (escapes cs) = some cs := by
  induction cs with
  | nil => rw [escapes, List.flatMap_nil, unescape]
  | cons c cs ih =>
    rw [escapes, List.flatMap_cons, unescape_escape]
    rw [escapes] at ih
    rw [ih, Option.map_some]

/-- What a name is escaped to is read back to the name. -/
theorem ofList_unescape_escapes (name : String) :
    (unescape (escapes name.toList)).map String.ofList = some name := by
  rw [unescape_escapes, Option.map_some, String.ofList_toList]

/-- A quoted name stands on one line. -/
theorem breakless_escapes (cs : List Char) : '\n' ∉ escapes cs := by
  intro hmem
  obtain ⟨c, -, hc⟩ := List.mem_flatMap.mp hmem
  have hescape := isEscape c
  generalize escape c = text at hescape hc
  cases hescape with
  | @letter letter h =>
    have hletters : ∀ p ∈ letters, '\n' ∉ ['\\', p.2] := by decide
    exact hletters _ h hc
  | code =>
    have hdigits : ∀ d < 16, '\n' ≠ hexDigit d := by decide
    simp only [List.mem_cons, List.mem_append, List.not_mem_nil, or_false] at hc
    rcases hc with hc | hc | hc | hc | hc
    · cases hc
    · cases hc
    · cases hc
    · obtain ⟨d, hd, hc⟩ := mem_hex hc
      exact hdigits d hd hc
    · cases hc
  | itself _ _ hbreak => exact hbreak (List.mem_singleton.mp hc).symm

theorem toList_quote (s : String) :
    (quote s).toList = '\x22' :: (escapes s.toList ++ ['\x22']) := by
  rw [quote, String.toList_ofList]

/-- A quoted name is read back. -/
theorem unquote_quote (s : String) : unquote (quote s) = some s := by
  rw [unquote, quote, String.toList_ofList]
  simp [unescape_escapes]

end RouteScaffold.Text.Quoted
