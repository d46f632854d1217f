import RouteScaffold.Toml.Value

/-! The scalars of TOML: strings, numbers, moments and booleans.

Each reader takes a scalar off the front of a text, or fails. Numbers and moments
are checked in full: a number must fit into 128 bits, a fraction into a double,
and a date must be in the calendar. -/
namespace RouteScaffold.Toml

abbrev Reading (α : Type) := StateT (List Char) Option α

/-! ### Strings -/

/-- A character that may stand in a string or comment as it is. -/
def isPlain (c : Char) : Bool := c == '\t' || (0x20 ≤ c.toNat && c.toNat != 0x7f)

def hexDigit? (c : Char) : Option Nat :=
  if c.isDigit then some (c.toNat - 0x30)
  else if 'a' ≤ c ∧ c ≤ 'f' then some (c.toNat - 0x57)
  else if 'A' ≤ c ∧ c ≤ 'F' then some (c.toNat - 0x37)
  else none

/-- The character whose code point some hexadecimal digits write. -/
def codePoint? (digits : List Char) : Option Char := do
  let values ← digits.mapM hexDigit?
  let n := values.foldl (fun n d => 16 * n + d) 0
  if h : n.isValidChar then some (Char.ofNatAux n h) else none

/-- The character of an escape of one letter. -/
def simpleEscape? (c : Char) : Option Char :=
  if c == 'b' then some '\x08'
  else if c == 't' then some '\t'
  else if c == 'n' then some '\n'
  else if c == 'f' then some '\x0c'
  else if c == 'r' then some '\r'
  else if c == 'e' then some '\x1b'
  else if c == '\x22' || c == '\\' then some c
  else none

abbrev Cut := List Char × List Char

def onto (c : Char) (cut : Cut) : Cut := (c :: cut.1, cut.2)

/-- The rest of a string on one line that knows escapes. -/
def basicString : List Char → Option Cut
  | [] => none
  | '\x22' :: rest => some ([], rest)
  | '\\' :: 'x' :: a :: b :: rest => do return onto (← codePoint? [a, b]) (← basicString rest)
  | '\\' :: 'u' :: a :: b :: c :: d :: rest => do
    return onto (← codePoint? [a, b, c, d]) (← basicString rest)
  | '\\' :: 'U' :: a :: b :: c :: d :: e :: f :: g :: h :: rest => do
    return onto (← codePoint? [a, b, c, d, e, f, g, h]) (← basicString rest)
  | '\\' :: c :: rest => do return onto (← simpleEscape? c) (← basicString rest)
  | c :: rest => if isPlain c && c != '\\' then (basicString rest).map (onto c) else none

/-- The rest of a string on one line that stands as it is. -/
def literalString : List Char → Option Cut
  | [] => none
  | c :: rest =>
    if c == '\x27' then some ([], rest)
    else if isPlain c then (literalString rest).map (onto c)
    else none

/-- Whether a line break comes next. -/
def atBreak : List Char → Bool
  | '\n' :: _ => true
  | '\r' :: '\n' :: _ => true
  | _ => false

def isSpace (c : Char) : Bool := c == ' ' || c == '\t'

/-- The text without one line break in front. -/
def dropBreak : List Char → List Char
  | '\n' :: rest => rest
  | '\r' :: '\n' :: rest => rest
  | cs => cs

/-- The end of a string over several lines, with up to two quotes that still belong to it. -/
def closing? (quote : Char) : List Char → Option Cut
  | a :: b :: c :: rest =>
    if a == quote && b == quote && c == quote then
      match rest with
      | d :: e :: rest' =>
        if d == quote && e == quote then some ([d, e], rest')
        else if d == quote then some ([d], e :: rest')
        else some ([], rest)
      | [d] => if d == quote then some ([d], []) else some ([], rest)
      | [] => some ([], [])
    else none
  | _ => none

/-- The rest of a string over several lines that knows escapes. A backslash at the end of a line
drops it and all blanks up to the next solid character. -/
def basicLines (trimming : Bool) (cs : List Char) : Option Cut :=
  match closing? '\x22' cs with
  | some cut => some cut
  | none =>
    match cs with
    | [] => none
    | '\\' :: 'x' :: a :: b :: rest => do
      return onto (← codePoint? [a, b]) (← basicLines false rest)
    | '\\' :: 'u' :: a :: b :: c :: d :: rest => do
      return onto (← codePoint? [a, b, c, d]) (← basicLines false rest)
    | '\\' :: 'U' :: a :: b :: c :: d :: e :: f :: g :: h :: rest => do
      return onto (← codePoint? [a, b, c, d, e, f, g, h]) (← basicLines false rest)
    | '\\' :: c :: rest =>
      if atBreak ((c :: rest).dropWhile isSpace) then basicLines true (c :: rest)
      else do return onto (← simpleEscape? c) (← basicLines false rest)
    | '\r' :: '\n' :: rest =>
      if trimming then basicLines true rest
      else do return onto '\r' (onto '\n' (← basicLines false rest))
    | c :: rest =>
      if trimming && (isSpace c || c == '\n') then basicLines true rest
      else if (isPlain c && c != '\\') || c == '\n' then (basicLines false rest).map (onto c)
      else none

/-- The rest of a string over several lines that stands as it is. -/
def literalLines (cs : List Char) : Option Cut :=
  match closing? '\x27' cs with
  | some cut => some cut
  | none =>
    match cs with
    | [] => none
    | '\r' :: '\n' :: rest => (literalLines rest).map fun cut => onto '\r' (onto '\n' cut)
    | c :: rest => if isPlain c || c == '\n' then (literalLines rest).map (onto c) else none

/-- A string of any kind. -/
def string? : List Char → Option Cut
  | '\x22' :: '\x22' :: '\x22' :: rest => basicLines false (dropBreak rest)
  | '\x27' :: '\x27' :: '\x27' :: rest => literalLines (dropBreak rest)
  | '\x22' :: rest => basicString rest
  | '\x27' :: rest => literalString rest
  | _ => none

/-! ### Numbers -/

/-- Digits with single underscores between them. -/
def isDigits (isDigit : Char → Bool) : List Char → Bool
  | [] => false
  | [c] => isDigit c
  | c :: '_' :: rest => isDigit c && isDigits isDigit rest
  | c :: rest => isDigit c && isDigits isDigit rest

/-- Decimal digits without a zero in front of others. -/
def isDecimal (cs : List Char) : Bool :=
  isDigits Char.isDigit cs && (cs.length == 1 || cs.head? != some '0')

def unsigned : List Char → List Char
  | '+' :: rest => rest
  | '-' :: rest => rest
  | cs => cs

def numberOf (base : Nat) (cs : List Char) : Nat :=
  (cs.filterMap hexDigit?).foldl (fun n d => base * n + d) 0

def isIntegerText (cs : List Char) : Bool :=
  match cs with
  | '0' :: 'x' :: digits =>
    isDigits (fun c => (hexDigit? c).isSome) digits && numberOf 16 digits < 1 <<< 128
  | '0' :: 'o' :: digits =>
    isDigits (fun c => '0' ≤ c && c ≤ '7') digits && numberOf 8 digits < 1 <<< 128
  | '0' :: 'b' :: digits =>
    isDigits (fun c => c == '0' || c == '1') digits && numberOf 2 digits < 1 <<< 128
  | cs =>
    isDecimal (unsigned cs) &&
      (if cs.head? == some '-' then numberOf 10 cs ≤ 1 <<< 127 else numberOf 10 cs < 1 <<< 128)

def isExponentMark (c : Char) : Bool := c == 'e' || c == 'E'

/-- Whether `digits · 10 ^ exponent` rounds to a double that is finite. The exponent is cut off
far outside the range, where the answer is known from it alone. -/
def fitsDouble (digits : Nat) (exponent : Int) : Bool :=
  if digits == 0 || exponent < -100000 then true
  else if exponent > 400 then false
  else
    let bound := 1 <<< 1024 - 1 <<< 970
    if exponent < 0 then digits < bound * Nat.pow 10 exponent.natAbs
    else digits * Nat.pow 10 exponent.natAbs < bound

def isFloatText (cs : List Char) : Bool :=
  let body := unsigned cs
  if body == "inf".toList || body == "nan".toList then true
  else
    let whole := body.takeWhile fun c => c != '.' && !isExponentMark c
    let behind := body.dropWhile fun c => c != '.' && !isExponentMark c
    let fraction := match behind with
      | '.' :: rest => rest.takeWhile fun c => !isExponentMark c
      | _ => []
    let power := (behind.dropWhile fun c => !isExponentMark c).drop 1
    let exponent : Int :=
      if power.head? == some '-' then -(numberOf 10 power : Int) else numberOf 10 power
    isDecimal whole && !behind.isEmpty &&
      (behind.head? != some '.' || isDigits Char.isDigit fraction) &&
      (!behind.any isExponentMark || isDigits Char.isDigit (unsigned power)) &&
      fitsDouble (numberOf 10 (whole ++ fraction))
        (exponent - (fraction.filter Char.isDigit).length)

/-! ### Moments -/

/-- A number of exactly two digits. -/
def twoDigits? : List Char → Option (Nat × List Char)
  | a :: b :: rest =>
    if a.isDigit && b.isDigit then some (numberOf 10 [a, b], rest) else none
  | _ => none

def daysIn (year month : Nat) : Nat :=
  if month == 2 then
    if year % 4 == 0 && (year % 100 != 0 || year % 400 == 0) then 29 else 28
  else if [4, 6, 9, 11].contains month then 30
  else 31

/-- The text behind a date. -/
def date? (cs : List Char) : Option (List Char) := do
  let (century, rest) ← twoDigits? cs
  let (year, rest) ← twoDigits? rest
  let (month, rest) ← if rest.head? == some '-' then twoDigits? (rest.drop 1) else none
  let (day, rest) ← if rest.head? == some '-' then twoDigits? (rest.drop 1) else none
  if 1 ≤ month && month ≤ 12 && 1 ≤ day && day ≤ daysIn (100 * century + year) month then some rest
  else none

/-- The text behind a time of day; the seconds may be left out. -/
def time? (cs : List Char) : Option (List Char) := do
  let (hour, rest) ← twoDigits? cs
  let (minute, rest) ← if rest.head? == some ':' then twoDigits? (rest.drop 1) else none
  if hour ≤ 23 && minute ≤ 59 then
    match rest with
    | ':' :: rest => do
      let (second, rest) ← twoDigits? rest
      if second ≤ 60 then
        match rest with
        | '.' :: d :: rest => if d.isDigit then some (rest.dropWhile Char.isDigit) else none
        | '.' :: [] => none
        | _ => some rest
      else none
    | _ => some rest
  else none

def isOffset (cs : List Char) : Bool :=
  match cs with
  | [] => true
  | ['Z'] => true
  | ['z'] => true
  | sign :: rest =>
    (sign == '+' || sign == '-') && rest.length == 5 && rest.any (· == ':') &&
      (time? rest).any List.isEmpty

def isMoment (cs : List Char) : Bool :=
  match date? cs with
  | some [] => true
  | some (mark :: rest) =>
    (mark == 'T' || mark == 't' || mark == ' ') && (time? rest).any isOffset
  | none => (time? cs).any List.isEmpty

/-! ### Scalars without quotes -/

def isBareChar (c : Char) : Bool :=
  c.isAlphanum || c == '_' || c == '+' || c == '-' || c == '.' || c == ':'

/-- The text of a scalar without quotes. A blank may stand between a date and a time. -/
def bareText (cs : List Char) : Cut :=
  let first := cs.takeWhile isBareChar
  match date? first, cs.dropWhile isBareChar with
  | some [], ' ' :: c :: rest =>
    if c.isDigit then
      (first ++ ' ' :: (c :: rest).takeWhile isBareChar, (c :: rest).dropWhile isBareChar)
    else (first, ' ' :: c :: rest)
  | _, behind => (first, behind)

def bareScalar? (cs : List Char) : Option (Value × List Char) :=
  let (text, rest) := bareText cs
  if text == "true".toList then some (.boolean true, rest)
  else if text == "false".toList then some (.boolean false, rest)
  else if isMoment text then some (.moment, rest)
  else if isIntegerText text || isFloatText text then some (.number, rest)
  else none

end RouteScaffold.Toml
