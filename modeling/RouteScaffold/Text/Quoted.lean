import RouteScaffold.Text.Printable

/-! Quoted names.

A name is written between double quotes so that it stands on one line and every
character of it can be seen: the quote, the backslash and the common controls
have an escape of one letter, and a character that is not printable or that
extends the one before it is written by its code point, `\u{…}`. `unquote` reads
the written form back. -/
namespace RouteScaffold.Text.Quoted

/-- The hexadecimal digit of a number below sixteen. -/
def hexDigit (d : Nat) : Char :=
  if d < 10 then Char.ofNat (0x30 + d) else Char.ofNat (0x57 + d)

/-- A number in hexadecimal, without leading zeros. -/
def hex (n : Nat) : List Char :=
  if n < 16 then [hexDigit n] else hex (n / 16) ++ [hexDigit (n % 16)]
termination_by n

/-- How one character stands between the quotes. -/
def escape (c : Char) : List Char :=
  if c == '\x00' then ['\\', '0']
  else if c == '\t' then ['\\', 't']
  else if c == '\r' then ['\\', 'r']
  else if c == '\n' then ['\\', 'n']
  else if c == '\\' then ['\\', '\\']
  else if c == '\x22' then ['\\', '\x22']
  else if extendsGrapheme c || !isPrintable c then
    '\\' :: 'u' :: '\x7b' :: (hex c.toNat ++ ['\x7d'])
  else [c]

def escapes (cs : List Char) : List Char := cs.flatMap escape

/-- The text between double quotes. -/
def quote (s : String) : String :=
  String.ofList ('\x22' :: (escapes s.toList ++ ['\x22']))

/-! ### Reading back -/

/-- The value of a hexadecimal digit. -/
def digitValue (c : Char) : Option Nat :=
  if '0' ≤ c ∧ c ≤ '9' then some (c.toNat - 0x30)
  else if 'a' ≤ c ∧ c ≤ 'f' then some (c.toNat - 0x57)
  else none

/-- The number that hexadecimal digits write up to the closing brace, and what follows it. -/
def readCode (value : Nat) : List Char → Option (Nat × List Char)
  | [] => none
  | c :: rest =>
    if c == '\x7d' then some (value, rest)
    else (digitValue c).bind fun d => readCode (16 * value + d) rest

theorem length_of_readCode {value code : Nat} {cs rest : List Char}
    (h : readCode value cs = some (code, rest)) : rest.length < cs.length := by
  induction cs generalizing value with
  | nil => simp [readCode] at h
  | cons c cs ih =>
    unfold readCode at h
    split at h
    · simp only [Option.some.injEq, Prod.mk.injEq] at h
      simp [← h.2]
    · obtain ⟨d, _, hd⟩ := Option.bind_eq_some_iff.mp h
      have := ih hd
      simp only [List.length_cons]
      omega

/-- The characters that the text between two quotes stands for. -/
def unescape (cs : List Char) : Option (List Char) :=
  match cs with
  | [] => some []
  | '\\' :: 'u' :: '\x7b' :: digits =>
    match h : readCode 0 digits with
    | none => none
    | some (code, rest) =>
      have := length_of_readCode h
      (unescape rest).map (Char.ofNat code :: ·)
  | '\\' :: c :: rest =>
    let plain : Option Char :=
      if c == '0' then some '\x00'
      else if c == 't' then some '\t'
      else if c == 'r' then some '\r'
      else if c == 'n' then some '\n'
      else if c == '\\' || c == '\x22' then some c
      else none
    plain.bind fun c => (unescape rest).map (c :: ·)
  | c :: rest => if c == '\\' || c == '\x22' then none else (unescape rest).map (c :: ·)
termination_by cs.length
decreasing_by all_goals simp_wf; all_goals omega

/-- The text that a quoted form stands for, if it is one. -/
def unquote (s : String) : Option String :=
  match s.toList with
  | '\x22' :: rest =>
    match rest.reverse with
    | '\x22' :: inner => (unescape inner.reverse).map String.ofList
    | _ => none
  | _ => none

end RouteScaffold.Text.Quoted
