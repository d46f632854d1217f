import RouteScaffold.Proofs.Text.Quoted
import RouteScaffold.Toml.Scalar

/-! What the literals of a script denote.

Behind a backslash stands an escape (`escape?`), and every other character of a literal
denotes itself. An escape denotes one character, or none if it is a line end that is
continued, so a literal denotes the text it is written as just where it has no
backslash (`denoted?_eq_self_iff`). A quoted name denotes the name, unless it has a
character that is written as zero (`denoted?_escapes`). -/
namespace RouteScaffold.Text.Literal

/-! ### Escapes -/

/-- The letters that denote another character behind a backslash. -/
def letters : List (Char × Char) :=
  [('b', '\x08'), ('t', '\t'), ('n', '\n'), ('v', '\x0b'), ('f', '\x0c'), ('r', '\r')]

/-- The ends of lines. -/
def isLineEnd (c : Char) : Bool :=
  c == '\n' || c == '\r' || c == '\u2028' || c == '\u2029'

/-- The number that some hexadecimal digits write. -/
def number? (digits : List Char) : Option Nat :=
  (digits.mapM Toml.hexDigit?).map fun values => values.foldl (fun n d => 16 * n + d) 0

def character? (code : Nat) : Option Char :=
  if h : code.isValidChar then some (Char.ofNatAux code h) else none

/-- The number that the first digits write, if there are so many. -/
def leading? (count : Nat) (cs : List Char) : Option Nat :=
  if cs.length < count then none else number? (cs.take count)

/-- The character that two halves write together, a high one and a low one. -/
def paired? (high low : Nat) : Option Char :=
  if 0xd800 ≤ high ∧ high < 0xdc00 ∧ 0xdc00 ≤ low ∧ low < 0xe000 then
    character? (0x10000 + (high - 0xd800) * 0x400 + (low - 0xdc00))
  else none

/-- The character behind `\u` and the length of its digits. A half alone is no character. -/
def code? (cs : List Char) : Option (Char × Nat) :=
  if cs.head? == some '\x7b' then
    let digits := cs.tail.takeWhile (· != '\x7d')
    if digits.isEmpty || digits.length == cs.tail.length then none
    else ((number? digits).bind character?).map (·, digits.length + 2)
  else do
    let code ← leading? 4 cs
    match character? code with
    | some c => some (c, 4)
    | none =>
      let low ← if "\\u".toList.isPrefixOf (cs.drop 4) then leading? 4 (cs.drop 6) else none
      (paired? code low).map (·, 10)

/-- What an escape denotes, and how many characters it has behind the backslash. A digit is no
escape, apart from a zero that no digit follows. -/
def escape? : List Char → Option (List Char × Nat)
  | [] => none
  | c :: cs =>
    if c == 'x' then ((leading? 2 cs).bind character?).map ([·], 3)
    else if c == 'u' then (code? cs).map fun found => ([found.1], found.2 + 1)
    else if c == '0' && !cs.head?.any Char.isDigit then some (['\x00'], 1)
    else if c.isDigit then none
    else if c == '\r' && cs.head? == some '\n' then some ([], 2)
    else if isLineEnd c then some ([], 1)
    else some ([(letters.lookup c).getD c], 1)

/-- An escape denotes at most one character. -/
theorem length_of_escape? {cs taken : List Char} {n : Nat} (h : escape? cs = some (taken, n)) :
    taken.length ≤ 1 ∧ 0 < n ∧ cs ≠ [] := by
  cases cs with
  | nil => cases h
  | cons c cs =>
    rw [escape?] at h
    split at h
    · obtain ⟨_, _, heq⟩ := Option.map_eq_some_iff.mp h
      cases heq
      simp
    split at h
    · obtain ⟨_, _, heq⟩ := Option.map_eq_some_iff.mp h
      cases heq
      simp
    split at h
    · cases h
      simp
    split at h
    · cases h
    repeat' split at h
    all_goals
      cases h
      simp

/-! ### Literals -/

/-- What a text within a literal denotes behind its first characters, as many as were taken. -/
def denotedFrom? : Nat → List Char → Option (List Char)
  | _, [] => some []
  | taken + 1, _ :: cs => denotedFrom? taken cs
  | 0, c :: cs =>
    if c == '\\' then (escape? cs).bind fun e => (denotedFrom? e.2 cs).map (e.1 ++ ·)
    else (denotedFrom? 0 cs).map (c :: ·)

/-- What a text within a literal denotes. -/
def denoted? (cs : List Char) : Option (List Char) := denotedFrom? 0 cs

theorem denotedFrom?_eq_drop (n : Nat) (cs : List Char) :
    denotedFrom? n cs = denoted? (cs.drop n) := by
  induction cs generalizing n with
  | nil => rw [List.drop_nil, denoted?, denotedFrom?, denotedFrom?]
  | cons c cs ih =>
    cases n with
    | zero => rfl
    | succ n => rw [denotedFrom?, ih, List.drop_succ_cons]

theorem denoted?_escape (cs : List Char) :
    denoted? ('\\' :: cs) =
      (escape? cs).bind fun e => (denoted? (cs.drop e.2)).map (e.1 ++ ·) := by
  simp only [← denotedFrom?_eq_drop]
  rfl

theorem denoted?_cons {c : Char} (h : c ≠ '\\') (cs : List Char) :
    denoted? (c :: cs) = (denoted? cs).map (c :: ·) := by
  rw [denoted?, denotedFrom?, if_neg (by simpa using h)]
  rfl

theorem denoted?_of_plain {cs : List Char} (h : '\\' ∉ cs) : denoted? cs = some cs := by
  induction cs with
  | nil => rfl
  | cons c cs ih =>
    rw [List.mem_cons, not_or] at h
    rw [denoted?_cons (Ne.symm h.1), ih h.2, Option.map_some]

/-- A literal is at least as long as what it denotes, and longer if it has a backslash. -/
theorem length_of_denoted? {cs text : List Char} (h : denoted? cs = some text) :
    text.length ≤ cs.length ∧ ('\\' ∈ cs → text.length < cs.length) := by
  induction hlength : cs.length using Nat.strongRecOn generalizing cs text with
  | ind length ih =>
    subst hlength
    cases cs with
    | nil =>
      cases h
      simp
    | cons c cs =>
      by_cases hc : c = '\\'
      · subst hc
        rw [denoted?_escape] at h
        obtain ⟨⟨taken, n⟩, hescape, h⟩ := Option.bind_eq_some_iff.mp h
        obtain ⟨back, hback, rfl⟩ := Option.map_eq_some_iff.mp h
        obtain ⟨htaken, hn, hne⟩ := length_of_escape? hescape
        have hpos := List.length_pos_iff.mpr hne
        have hdrop : (cs.drop n).length < cs.length := by
          rw [List.length_drop]
          omega
        have hle : back.length ≤ (cs.drop n).length :=
          (ih _ (Nat.lt_trans hdrop (Nat.lt_succ_self _)) hback rfl).1
        simp only [List.length_append, List.length_cons]
        omega
      · rw [denoted?_cons hc] at h
        obtain ⟨back, hback, rfl⟩ := Option.map_eq_some_iff.mp h
        obtain ⟨hle, hlt⟩ := ih _ (Nat.lt_succ_self _) hback rfl
        refine ⟨Nat.succ_le_succ hle, fun hmem => Nat.succ_lt_succ (hlt ?_)⟩
        exact (List.mem_cons.mp hmem).resolve_left (Ne.symm hc)

/-- **A literal denotes the text it is written as just where it has no backslash.** -/
theorem denoted?_eq_self_iff {cs : List Char} : denoted? cs = some cs ↔ '\\' ∉ cs :=
  ⟨fun h hmem => Nat.lt_irrefl _ ((length_of_denoted? h).2 hmem), denoted?_of_plain⟩

/-! ### Quoted names -/

theorem hexDigit?_hexDigit : ∀ d < 16, Toml.hexDigit? (Quoted.hexDigit d) = some d := by decide

theorem number?_concat {digits : List Char} {n : Nat} (h : number? digits = some n) {d : Nat}
    (hd : d < 16) : number? (digits ++ [Quoted.hexDigit d]) = some (16 * n + d) := by
  obtain ⟨values, hvalues, rfl⟩ := Option.map_eq_some_iff.mp h
  have happend : (digits ++ [Quoted.hexDigit d]).mapM Toml.hexDigit? = some (values ++ [d]) := by
    rw [List.mapM_append, hvalues]
    simp [hexDigit?_hexDigit d hd]
  rw [number?, happend, Option.map_some, List.foldl_append]
  rfl

/-- The digits of a number write it. -/
theorem number?_hex (n : Nat) : number? (Quoted.hex n) = some n := by
  have hnil : number? [] = some 0 := rfl
  induction n using Nat.strongRecOn with
  | ind n ih =>
    rw [Quoted.hex]
    split
    next hn => simpa using number?_concat hnil hn
    next hn =>
      have hcut := number?_concat (ih (n / 16) (by omega)) (Nat.mod_lt n (by omega : 16 > 0))
      rwa [Nat.div_add_mod] at hcut

theorem character?_toNat (c : Char) : character? c.toNat = some c := by
  have hvalid : c.toNat.isValidChar := c.valid
  rw [character?, dif_pos hvalid]
  exact congrArg some (Char.toNat_inj.mp rfl)

theorem hex_ne_nil (n : Nat) : Quoted.hex n ≠ [] := by
  rw [Quoted.hex]
  split <;> simp

theorem code?_hex (c : Char) (rest : List Char) :
    code? ('\x7b' :: (Quoted.hex c.toNat ++ '\x7d' :: rest)) =
      some (c, (Quoted.hex c.toNat).length + 2) := by
  have hdigits : (Quoted.hex c.toNat ++ '\x7d' :: rest).takeWhile (· != '\x7d') =
      Quoted.hex c.toNat := by
    rw [List.takeWhile_append_of_pos, List.takeWhile_cons_of_neg (by simp), List.append_nil]
    intro d hd
    obtain ⟨n, hn, rfl⟩ := Quoted.mem_hex hd
    simpa using (Quoted.hexDigit_ne n hn).1
  have hempty : (Quoted.hex c.toNat).isEmpty = false := by
    simpa using hex_ne_nil c.toNat
  simp [code?, hdigits, hempty, number?_hex, character?_toNat]

/-- An escape of a quoted name denotes its character, whatever follows. -/
theorem denoted?_escape_append {c : Char} (h : c ≠ '\x00') (rest : List Char) :
    denoted? (Quoted.escape c ++ rest) = (denoted? rest).map (c :: ·) := by
  have hescape := Quoted.isEscape c
  generalize Quoted.escape c = text at hescape
  cases hescape with
  | @letter letter hmem =>
    have hletters : ∀ p ∈ Quoted.letters, p.1 ≠ '\x00' →
        escape? (p.2 :: rest) = some ([p.1], 1) := by
      simp [Quoted.letters, escape?, isLineEnd, letters, List.lookup_cons]
    rw [List.cons_append, List.singleton_append, denoted?_escape, hletters _ hmem h]
    rfl
  | code =>
    have hcode : escape? ('u' :: '\x7b' :: (Quoted.hex c.toNat ++ '\x7d' :: rest)) =
        some ([c], (Quoted.hex c.toNat).length + 3) := by
      rw [escape?, if_neg (by decide), if_pos (by decide), code?_hex]
      rfl
    have hdrop : ('u' :: '\x7b' :: (Quoted.hex c.toNat ++ '\x7d' :: rest)).drop
        ((Quoted.hex c.toNat).length + 3) = rest := by
      rw [List.drop_succ_cons, List.drop_succ_cons, List.drop_append,
        List.drop_eq_nil_of_le (by omega)]
      simp
    simp only [List.cons_append, List.append_assoc, List.nil_append]
    rw [denoted?_escape, hcode, Option.bind_some, hdrop]
    rfl
  | itself hbackslash => exact denoted?_cons hbackslash rest

/-- **A quoted name denotes the name**, unless it has a character that is written as zero: a digit
behind it would change what the zero denotes. -/
theorem denoted?_escapes {name : List Char} (h : '\x00' ∉ name) :
    denoted? (Quoted.escapes name) = some name := by
  induction name with
  | nil => rfl
  | cons c name ih =>
    rw [List.mem_cons, not_or] at h
    rw [Quoted.escapes, List.flatMap_cons, denoted?_escape_append (Ne.symm h.1)]
    rw [Quoted.escapes] at ih
    rw [ih h.2, Option.map_some]

end RouteScaffold.Text.Literal
