import RouteScaffold.Source.Bracket
import RouteScaffold.Text.Letters

/-! The entries of an object literal.

An entry is what stands between two commas of the literal, comments and blanks in
front of it left out. Its key is a quoted name or an identifier; its value is the
text after the colon, the key itself for a shorthand, or for a method everything
from its parameters on. Spreads, computed keys and anything else give no entry. -/
namespace RouteScaffold.Source
open Text

structure Entry where
  key : List Char
  value : List Char
  deriving DecidableEq, Repr

theorem length_takeLine_lt {cs rest : List Char} (h : trimStart cs = '/' :: '/' :: rest) :
    (takeLine rest).2.length < cs.length := by
  have h₁ := length_trimStart_le cs
  have h₂ : (takeLine rest).2.length ≤ rest.length := (List.dropWhile_sublist _).length_le
  simp only [h, List.length_cons] at h₁
  omega

theorem length_takeBlock_lt {cs rest : List Char} (h : trimStart cs = '/' :: '*' :: rest) :
    (takeBlock rest).2.length < cs.length := by
  have h₁ := length_trimStart_le cs
  have h₂ : (takeBlock rest).2.length ≤ rest.length := by
    have := congrArg List.length (text_takeBlock rest)
    rw [Cut.text, List.length_append] at this
    omega
  simp only [h, List.length_cons] at h₁
  omega

/-- The text without the blanks and comments in front of it. -/
def stripComments (cs : List Char) : List Char :=
  match h : trimStart cs with
  | '/' :: '/' :: rest =>
    have := length_takeLine_lt h
    stripComments (takeLine rest).2
  | '/' :: '*' :: rest =>
    have := length_takeBlock_lt h
    stripComments (takeBlock rest).2
  | rest => rest
termination_by cs.length

theorem length_stripComments_le (cs : List Char) : (stripComments cs).length ≤ cs.length := by
  fun_induction stripComments cs with
  | case1 cs rest h hlt ih => omega
  | case2 cs rest h hlt ih => omega
  | case3 cs _ _ => exact length_trimStart_le cs

def isIdentChar (c : Char) : Bool := isAlphanumeric c || c == '_' || c == '$'

/-- The identifier a text starts with, and the rest. A digit of ASCII starts none. -/
def identifier? (cs : List Char) : Option Cut :=
  match cs.takeWhile isIdentChar with
  | [] => none
  | c :: name => if c.isDigit then none else some (c :: name, cs.dropWhile isIdentChar)

theorem text_of_identifier? {cs : List Char} {cut : Cut} (h : identifier? cs = some cut) :
    cut.text = cs ∧ cut.1 ≠ [] := by
  unfold identifier? at h
  split at h
  · simp at h
  next c name hname =>
    split at h
    · simp at h
    · rw [← Option.some.inj h, Cut.text, ← hname]
      exact ⟨List.takeWhile_append_dropWhile, by simp [hname]⟩

/-- The words that may stand in front of the name of a method. -/
def modifiers : List String := ["async", "get", "set"]

/-- The name that stands behind a modifier and blanks, and all that follows it. -/
def methodName? (behind : List Char) : Option (List Char) :=
  match trimStart behind with
  | [] => none
  | c :: name =>
    if (c :: name).length < behind.length && isIdentChar c then some (c :: name) else none

/-- The text without one modifier, if blanks and a name follow it. -/
def stripModifier (cs : List Char) : List Char :=
  let stripped := modifiers.findSome? fun word =>
    if word.toList.isPrefixOf cs then methodName? (cs.drop word.length) else none
  stripped.getD cs

/-- The key an entry starts with, and the rest. -/
def key? (cs : List Char) : Option Cut :=
  match cs with
  | [] => none
  | c :: rest =>
    if c == '\x22' || c == '\x27' then
      match rest.dropWhile (· != c) with
      | [] => none
      | _ :: after => some (rest.takeWhile (· != c), after)
    else identifier? (stripModifier (c :: rest))

/-- The value that the text behind a key gives it. -/
def value? (key behind : List Char) : Option (List Char) :=
  match trimStart behind with
  | [] => some key
  | ':' :: value => some (trim value)
  | '(' :: rest => some ('(' :: rest)
  | _ => none

/-- The entry that one part of an object literal holds. -/
def Entry.ofPart? (part : List Char) : Option Entry :=
  let part := trimEnd (stripComments part)
  if "...".toList.isPrefixOf part then none
  else do
    let (key, behind) ← key? part
    let value ← value? key behind
    pure ⟨key, value⟩

/-- The entries of an object literal, given the text between its braces. -/
def entries (body : List Char) : List Entry := (commaParts body).filterMap Entry.ofPart?

end RouteScaffold.Source
