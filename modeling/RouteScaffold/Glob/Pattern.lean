/-! Glob patterns.

A pattern is a list of tokens: characters, `?` for one character, `*` for a run
within a component, `**` for any number of whole components, and character
classes in square brackets. `**` must be a component of its own, three stars in a
row mean nothing, and an opening bracket needs its closing one. -/
namespace RouteScaffold.Glob

/-- One item of a character class: the characters from the first to the last. -/
structure Span where
  first : Char
  last : Char
  deriving DecidableEq, Repr

inductive Token where
  | char (c : Char)
  /-- `?` -/
  | anyChar
  /-- `*` -/
  | anyRun
  /-- `**`, with the slash behind it. -/
  | anyDepth
  | oneOf (spans : List Span)
  | noneOf (spans : List Span)
  deriving DecidableEq, Repr

/-- Why a text is no pattern. -/
inductive Flaw where
  | tooManyStars
  | partialComponent
  | badClass
  deriving DecidableEq, Repr

/-- A flaw and the place where it was found, counted in characters. -/
structure PatternError where
  position : Nat
  flaw : Flaw
  deriving DecidableEq, Repr

def Flaw.message : Flaw → String
  | .tooManyStars => "wildcards are either regular `*` or recursive `**`"
  | .partialComponent => "recursive wildcards must form a single path component"
  | .badClass => "invalid range pattern"

def PatternError.message (e : PatternError) : String :=
  "Pattern syntax error near position " ++ toString e.position ++ ": " ++ e.flaw.message

/-- The items of a character class. A hyphen between two characters makes a span. -/
def spans : List Char → List Span
  | a :: '-' :: b :: rest => ⟨a, b⟩ :: spans rest
  | a :: rest => ⟨a, a⟩ :: spans rest
  | [] => []

/-- The text of a character class up to its closing bracket, and the text behind it. The first
character belongs to the class whatever it is. -/
def classBody? : List Char → Option (List Char × List Char)
  | [] => none
  | first :: rest =>
    match rest.dropWhile (· != ']') with
    | [] => none
    | _ :: after => some (first :: rest.takeWhile (· != ']'), after)

/-- The character class that a text starts with, given the text behind its opening bracket. -/
def class? : List Char → Option (Token × List Char)
  | '!' :: rest => (classBody? rest).map fun (body, after) => (.noneOf (spans body), after)
  | rest => (classBody? rest).map fun (body, after) => (.oneOf (spans body), after)

/-- Adds `**`, which swallows a `**` right before it. The one at the very start of a pattern
is not swallowed. -/
def addDepth (tokens : List Token) : List Token :=
  if tokens.length > 1 && tokens.head? == some .anyDepth then tokens else .anyDepth :: tokens

theorem length_of_classBody? {cs body after : List Char}
    (h : classBody? cs = some (body, after)) : after.length < cs.length := by
  unfold classBody? at h
  split at h
  · simp at h
  next first rest =>
    have hle : (rest.dropWhile (· != ']')).length ≤ rest.length :=
      (List.dropWhile_sublist _).length_le
    split at h
    · simp at h
    next hdrop =>
      simp only [Option.some.injEq, Prod.mk.injEq] at h
      rw [hdrop, List.length_cons, h.2] at hle
      simp only [List.length_cons]
      omega

theorem length_of_class? {cs after : List Char} {token : Token}
    (h : class? cs = some (token, after)) : after.length < cs.length := by
  unfold class? at h
  split at h
  · obtain ⟨⟨body, behind⟩, hbody, heq⟩ := Option.map_eq_some_iff.mp h
    have := length_of_classBody? hbody
    simp only [Prod.mk.injEq] at heq
    rw [← heq.2]
    exact Nat.lt_succ_of_lt this
  · obtain ⟨⟨body, behind⟩, hbody, heq⟩ := Option.map_eq_some_iff.mp h
    have := length_of_classBody? hbody
    simp only [Prod.mk.injEq] at heq
    rwa [← heq.2]

/-- Reads a pattern from position `at` on. `before` is the character in front, and `tokens` are
the tokens read so far, the last one first. -/
def scan (tokens : List Token) (position : Nat) (before : Option Char) (cs : List Char) :
    Except PatternError (List Token) :=
  match cs with
  | [] => .ok tokens.reverse
  | '*' :: '*' :: '*' :: _ => .error ⟨position + 2, .tooManyStars⟩
  | '*' :: '*' :: rest =>
    if before.any (· != '/') then .error ⟨position - 1, .partialComponent⟩
    else
      match rest with
      | [] => scan (addDepth tokens) (position + 2) (some '*') []
      | c :: rest =>
        if c == '/' then scan (addDepth tokens) (position + 3) (some '/') rest
        else .error ⟨position + 2, .partialComponent⟩
  | '*' :: rest => scan (.anyRun :: tokens) (position + 1) (some '*') rest
  | '?' :: rest => scan (.anyChar :: tokens) (position + 1) (some '?') rest
  | '[' :: rest =>
    match h : class? rest with
    | none => .error ⟨position, .badClass⟩
    | some (token, after) =>
      have := length_of_class? h
      scan (token :: tokens) (position + 1 + (rest.length - after.length)) (some ']') after
  | c :: rest => scan (.char c :: tokens) (position + 1) (some c) rest
termination_by cs.length

structure Pattern where
  tokens : List Token
  deriving DecidableEq, Repr

def Pattern.ofString (text : String) : Except PatternError Pattern :=
  (scan [] 0 none text.toList).map Pattern.mk

end RouteScaffold.Glob
