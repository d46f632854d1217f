/-! Wildcards of ignore rules.

A wildcard is a list of pieces: characters, `?` and `*` within a component, `**`
over whole components, character classes, and groups of alternatives in braces. A
backslash takes the meaning from the character behind it. An opening bracket that
is never closed is a character, and so are all brackets behind it.

`**` reaches over slashes only as a component of its own; elsewhere it is two
stars. A piece in front of it that ends in a slash is taken into it. -/
namespace RouteScaffold.Ignore

/-- One item of a character class. -/
structure Span where
  first : Char
  last : Char
  deriving DecidableEq, Repr

inductive Piece where
  | char (c : Char)
  | anyByte
  /-- Any bytes within a component. -/
  | run
  /-- `**/` in front: any number of components. -/
  | leading
  /-- `/**/` between two components: any number of components. -/
  | between
  /-- `/**` at the end: what lies below. -/
  | trailing
  | everything
  | oneOf (spans : List Span)
  | noneOf (spans : List Span)
  /-- One of the branches, or nothing if there is none. -/
  | either (branches : List (List Piece))
  deriving Repr

/-- Why a text is no wildcard. -/
inductive Flaw where
  | badSpan (first last : Char)
  | unopenedGroup
  | unclosedGroup
  | danglingEscape
  deriving DecidableEq, Repr

def Flaw.message : Flaw → String
  | .badSpan first last =>
    "invalid range; '" ++ first.toString ++ "' > '" ++ last.toString ++ "'"
  | .unopenedGroup =>
    "unopened alternate group; missing '\x7b' (maybe escape '\x7d' with '[\x7d]'?)"
  | .unclosedGroup =>
    "unclosed alternate group; missing '\x7d' (maybe escape '\x7b' with '[\x7b]'?)"
  | .danglingEscape => "dangling '\\'"

/-! ### Character classes -/

/-- Ends the last span at `c`. -/
def extendLast (c : Char) : List Span → Except Flaw (List Span)
  | [] => .ok [⟨c, c⟩]
  | span :: spans =>
    if c < span.first then .error (.badSpan span.first c) else .ok (⟨span.first, c⟩ :: spans)

/-- Reads a class up to its closing bracket, given the spans read so far, the last one first.
`open?` tells that a hyphen waits for the end of its span. None if there is no closing bracket.
A bracket or hyphen in the first place stands for itself. -/
def classSpans (open? : Bool) (spans : List Span) :
    List Char → Except Flaw (Option (List Span × List Char))
  | [] => .ok none
  | c :: rest =>
    if c == ']' && !spans.isEmpty then
      .ok (some ((if open? then ⟨'-', '-'⟩ :: spans else spans).reverse, rest))
    else if open? then
      match extendLast c spans with
      | .ok spans => classSpans false spans rest
      | .error flaw => .error flaw
    else if c == '-' && !spans.isEmpty then classSpans true spans rest
    else classSpans false (⟨c, c⟩ :: spans) rest

/-- The class that a text starts with, given the text behind its opening bracket. -/
def class? (cs : List Char) : Except Flaw (Option (Piece × List Char)) :=
  match cs with
  | [] => .ok none
  | c :: rest =>
    if c == '!' || c == '^' then
      (classSpans false [] rest).map (·.map fun (spans, after) => (.noneOf spans, after))
    else (classSpans false [] cs).map (·.map fun (spans, after) => (.oneOf spans, after))

theorem length_of_classSpans {open? : Bool} {spans found : List Span} {cs after : List Char}
    (h : classSpans open? spans cs = .ok (some (found, after))) : after.length < cs.length := by
  induction cs generalizing open? spans with
  | nil => simp [classSpans] at h
  | cons c rest ih =>
    unfold classSpans at h
    split at h
    · simp only [Except.ok.injEq, Option.some.injEq, Prod.mk.injEq] at h
      simp [h.2]
    · split at h
      · split at h
        · exact Nat.lt_succ_of_lt (ih h)
        · simp at h
      · split at h <;> exact Nat.lt_succ_of_lt (ih h)

theorem length_of_class? {cs after : List Char} {piece : Piece}
    (h : class? cs = .ok (some (piece, after))) : after.length < cs.length := by
  have key {make : List Span → Piece} {ds : List Char}
      (h : (classSpans false [] ds).map
        (·.map fun (spans, after) => (make spans, after)) = .ok (some (piece, after))) :
      after.length < ds.length := by
    cases hs : classSpans false [] ds with
    | error flaw => simp [hs, Except.map] at h
    | ok found =>
      cases found with
      | none => simp [hs, Except.map] at h
      | some found =>
        simp only [hs, Except.map, Option.map_some, Except.ok.injEq, Option.some.injEq,
          Prod.mk.injEq] at h
        exact length_of_classSpans (hs.trans (by rw [← h.2]))
  unfold class? at h
  split at h
  · simp at h
  · split at h
    · exact Nat.lt_succ_of_lt (key h)
    · exact key h

/-! ### Reading -/

/-- A wildcard that has been read in part. -/
structure Draft where
  /-- The branch that is being read, and behind it those before it, also in the groups around.
  The pieces of each branch stand in reverse. -/
  current : List Piece := []
  earlier : List (List Piece) := []
  /-- For each open group how many branches were there before it, the innermost first. -/
  groups : List Nat := []
  /-- Whether an opening bracket is a character like any other. -/
  plainBrackets : Bool := false

namespace Draft

def add (d : Draft) (piece : Piece) : Draft := { d with current := piece :: d.current }

/-- Puts a piece for `**` in the place of the slash in front of it, unless the piece in front
says as much. -/
def absorb (d : Draft) (piece : Piece) : Draft :=
  match d.current with
  | .leading :: _ => d
  | .trailing :: _ => d
  | _ :: before => { d with current := piece :: before }
  | [] => d.add piece

def openBranch (d : Draft) : Draft := { d with current := [], earlier := d.current :: d.earlier }

def openGroup (d : Draft) : Draft :=
  { d.openBranch with groups := (d.earlier.length + 1) :: d.groups }

/-- Whether pieces stand for no text at all, whatever they are matched with. -/
def isVoid (pieces : List Piece) : Bool :=
  pieces.all fun
    | .either [] => true
    | _ => false

/-- Closes the innermost group. Branches that are void do not count. -/
def closeGroup (d : Draft) : Except Flaw Draft :=
  match d.groups with
  | [] => .error .unopenedGroup
  | count :: groups =>
    let inner := d.earlier.length + 1 - count
    let branches := ((d.current :: d.earlier).take inner).reverse.map List.reverse
    let piece := Piece.either (branches.filter (!isVoid ·))
    match (d.current :: d.earlier).drop inner with
    | current :: earlier => .ok { d with current := piece :: current, earlier, groups }
    | [] => .error .unopenedGroup

end Draft

/-- Reads on from a draft. `before` is the character in front. -/
def scan (d : Draft) (before : Option Char) (cs : List Char) : Except Flaw Draft :=
  match cs with
  | [] => .ok d
  | '*' :: '*' :: rest =>
    let stars := (d.add .run).add .run
    let inGroup := !d.earlier.isEmpty
    match rest with
    | [] =>
      if d.current.isEmpty then .ok (d.add .leading)
      else if before == some '/' || (inGroup && (before == some ',' || before == some '\x7b')) then
        .ok (d.absorb .trailing)
      else .ok stars
    | c :: after =>
      if d.current.isEmpty then
        if c == '/' then scan (d.add .leading) (some '/') after
        else scan stars (some '*') (c :: after)
      else if before == some '/' || (inGroup && (before == some ',' || before == some '\x7b')) then
        if inGroup && (c == ',' || c == '\x7d') then
          scan (d.absorb .trailing) (some '*') (c :: after)
        else if c == '/' then scan (d.absorb .between) (some '/') after
        else scan stars (some '*') (c :: after)
      else scan stars (some '*') (c :: after)
  | '*' :: rest => scan (d.add .run) (some '*') rest
  | '?' :: rest => scan (d.add .anyByte) (some '?') rest
  | '[' :: rest =>
    if d.plainBrackets then scan (d.add (.char '[')) (some '[') rest
    else
      match h : class? rest with
      | .error flaw => .error flaw
      | .ok none => scan { d.add (.char '[') with plainBrackets := true } (some '[') rest
      | .ok (some (piece, after)) =>
        have := length_of_class? h
        scan (d.add piece) (some ']') after
  | '\\' :: c :: rest => scan (d.add (.char c)) (some c) rest
  | c :: rest =>
    if c == '\\' then .error .danglingEscape
    else if c == '\x7b' then scan d.openGroup (some c) rest
    else if c == '\x7d' then
      match d.closeGroup with
      | .ok d => scan d (some c) rest
      | .error flaw => .error flaw
    else if c == ',' && !d.groups.isEmpty then scan d.openBranch (some c) rest
    else scan (d.add (.char c)) (some c) rest
termination_by cs.length

/-- The pieces of a wildcard. One that is nothing but `**` matches everything. -/
def wildcard (text : List Char) : Except Flaw (List Piece) :=
  match scan {} none text with
  | .error flaw => .error flaw
  | .ok d =>
    if !d.earlier.isEmpty then .error .unclosedGroup
    else
      match d.current with
      | [.leading] => .ok [.everything]
      | pieces => .ok pieces.reverse

/-! ### Matching

A path is matched byte by byte. What a piece can take from the front of a text is
told by the rests it can leave. -/

abbrev Bytes := List UInt8

def slash : UInt8 := 0x2f

def encoded (c : Char) : Bytes := c.toString.toUTF8.toList

/-- The text and all that is left of it when bytes are taken from its front while `p` allows. -/
def restsWhile (p : UInt8 → Bool) : Bytes → List Bytes
  | [] => [[]]
  | b :: rest => (b :: rest) :: if p b then restsWhile p rest else []

/-- What is left behind each slash. -/
def restsBehindSlash : Bytes → List Bytes
  | [] => []
  | b :: rest => if b == slash then rest :: restsBehindSlash rest else restsBehindSlash rest

/-- The bytes of a span's ends count one by one, except that the last byte of the first end and
the first byte of the last end stand for all bytes between them. -/
def Span.containsByte (s : Span) (b : UInt8) : Bool :=
  let first := encoded s.first
  let last := encoded s.last
  if s.first == s.last then first.contains b
  else
    first.contains b || last.contains b ||
      (first.getLast?.any (· ≤ b) && last.head?.any (b ≤ ·))

/-- What is left when one byte that `p` allows is taken. -/
def restsByte (p : UInt8 → Bool) : Bytes → List Bytes
  | [] => []
  | b :: rest => if p b then [rest] else []

mutual

def Piece.rests : Piece → Bytes → List Bytes
  | .char c, bs =>
    if (encoded c).isPrefixOf bs then [bs.drop (encoded c).length] else []
  | .anyByte, bs => restsByte (· != slash) bs
  | .run, bs => restsWhile (· != slash) bs
  | .leading, bs => bs :: restsBehindSlash bs
  | .between, bs =>
    match bs with
    | [] => []
    | b :: rest => if b == slash then rest :: restsBehindSlash rest else []
  | .trailing, bs => (restsByte (· == slash) bs).flatMap (restsWhile fun _ => true)
  | .everything, bs => restsWhile (fun _ => true) bs
  | .oneOf spans, bs => restsByte (fun b => spans.any (·.containsByte b)) bs
  | .noneOf spans, bs => restsByte (fun b => !spans.any (·.containsByte b)) bs
  | .either [], bs => [bs]
  | .either (branch :: branches), bs => restsOfSome (branch :: branches) bs

/-- The rests that a list of pieces leaves of any of some texts. -/
def restsOfAll : List Piece → List Bytes → List Bytes
  | [], texts => texts
  | piece :: pieces, texts => restsOfAll pieces (texts.flatMap piece.rests).eraseDups

/-- The rests that any of some branches leaves. -/
def restsOfSome : List (List Piece) → Bytes → List Bytes
  | [], _ => []
  | branch :: branches, bs => restsOfAll branch [bs] ++ restsOfSome branches bs

end

/-- Whether pieces match a path from its first byte to its last. -/
def matchesBytes (pieces : List Piece) (path : Bytes) : Bool :=
  (restsOfAll pieces [path]).any List.isEmpty

end RouteScaffold.Ignore
